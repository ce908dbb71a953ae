/-
  DeskHop.Device.Buttons — the two buttons of a chain board (`firmware/rp2040/src/board.c`).

  Each pass of the main loop reads both once. The switch button is debounced: a reading
  counts when it has disagreed with the settled state for 25 ms. The pair button is held:
  one action after 3 s, the other after 10 s, either once in a hold. Real time is a natural
  number, which never goes back; the millisecond clock is what is left of it in 32 bits.

  Proved, of every run: two presses that are reported lie at least 50 ms apart, with the
  button up at every reading of 25 ms in between (`presses_apart`), so no contact bounce is
  a second press; a press that is held is reported once, whatever the clock reads
  (`press_once`). In a hold of the pair button each action is asked for at most once, and
  not before its time (`hold_sequence`).
-/

import DeskHop.Core.Types

namespace DeskHop.Device

/-- One reading of a button, and when. -/
structure Poll where
  down : Bool
  time : Nat
  deriving DecidableEq

namespace Poll

/-- `board_now_ms` at that time. -/
def now (p : Poll) : Time := UInt32.ofNat p.time

end Poll

/-! ## The switch button -/

def debounceMs : Time := 25

structure Switch where
  last : Bool
  change : Time
  deriving DecidableEq

def switchInit : Switch := ⟨false, 0⟩

def boardSwitchPressed (s : Switch) (p : Poll) : Bool × Switch :=
  if p.down ≠ s.last then
    if timeAfter p.now (s.change + debounceMs) then (p.down, ⟨p.down, p.now⟩) -- edge, on press only
    else (false, s)
  else (false, { s with change := p.now })

/-! ## The pair button -/

inductive PairBtn where
  | none
  | pair
  | unpair
  deriving DecidableEq, Repr

def pairHoldMs : Time := 3000
def unpairHoldMs : Time := 10000

structure PairButton where
  /-- Zero: not down, or down since the clock read zero. -/
  downSince : Time
  pairReported : Bool
  unpairReported : Bool
  deriving DecidableEq

def pairButtonInit : PairButton := ⟨0, false, false⟩

def boardPairButton (s : PairButton) (p : Poll) : PairBtn × PairButton :=
  if !p.down then (.none, ⟨0, false, false⟩)
  else if s.downSince = 0 then (.none, { s with downSince := p.now })
  -- the longer hold first
  else if !s.unpairReported && timeAfter p.now (s.downSince + unpairHoldMs) then
    (.unpair, { s with unpairReported := true })
  else if !s.pairReported && timeAfter p.now (s.downSince + pairHoldMs) then (.pair, { s with pairReported := true })
  else (.none, s)

/-! ## Real time -/

/-- A wait that the clock says is over is over. -/
theorem le_of_timeAfter {t t' : Nat} {d : Time} (hle : t ≤ t') (hd : d.toNat ≤ 2 ^ 31)
    (h : timeAfter (UInt32.ofNat t') (UInt32.ofNat t + d) = true) : t + d.toNat ≤ t' := by
  rw [timeAfter_iff, UInt32.toNat_sub, UInt32.toNat_add, UInt32.toNat_ofNat', UInt32.toNat_ofNat'] at h
  omega

/-- A wait that is over is over by the clock, unless it was over for half of its range. -/
theorem timeAfter_of_le {t t' : Nat} {d : Time} (hle : t + d.toNat ≤ t') (hlt : t' < t + d.toNat + 2 ^ 31) :
    timeAfter (UInt32.ofNat t') (UInt32.ofNat t + d) = true := by
  rw [timeAfter_iff, UInt32.toNat_sub, UInt32.toNat_add, UInt32.toNat_ofNat', UInt32.toNat_ofNat']
  omega

/-! ## A run of readings -/

/-- The switch button after these readings. -/
def switchAfter (s : Switch) (ps : List Poll) : Switch := ps.foldl (fun s p => (boardSwitchPressed s p).2) s

/-- What each of these readings reported. -/
def switchReports : Switch → List Poll → List Bool
  | _, [] => []
  | s, p :: ps => (boardSwitchPressed s p).1 :: switchReports (boardSwitchPressed s p).2 ps

/-- The reading `p`, after the readings `ps` since the board started, is reported as a press. -/
def pressedAt (ps : List Poll) (p : Poll) : Bool := (boardSwitchPressed (switchAfter switchInit ps) p).1

/-- Times never go back. -/
def InOrder (ps : List Poll) : Prop := ps.Pairwise fun p q => p.time ≤ q.time

instance (ps : List Poll) : Decidable (InOrder ps) := by
  unfold InOrder
  infer_instance

theorem switchAfter_append (s : Switch) (ps qs : List Poll) :
    switchAfter s (ps ++ qs) = switchAfter (switchAfter s ps) qs := List.foldl_append

theorem switchAfter_cons (s : Switch) (p : Poll) (ps : List Poll) :
    switchAfter s (p :: ps) = switchAfter (boardSwitchPressed s p).2 ps := rfl

/-- The last reading that agreed with the settled state, and none that did after it. -/
structure Anchored (ps : List Poll) (s : Switch) (before : List Poll) (a : Poll) (after : List Poll) : Prop where
  split : ps = before ++ a :: after
  agrees : a.down = s.last
  change : s.change = a.now
  disagree : ∀ q ∈ after, q.down = !s.last

theorem anchored_self {s : Switch} {p : Poll} (hd : p.down = s.last) (hc : s.change = p.now) : Anchored [p] s [] p [] :=
  ⟨rfl, hd, hc, fun _ h => absurd h List.not_mem_nil⟩

/-- What one reading can do. -/
theorem switch_cases (s : Switch) (p : Poll) :
    (p.down = s.last ∧ boardSwitchPressed s p = (false, { s with change := p.now })) ∨
    (p.down = !s.last ∧ timeAfter p.now (s.change + debounceMs) = true ∧
      boardSwitchPressed s p = (p.down, ⟨p.down, p.now⟩)) ∨
    (p.down = !s.last ∧ timeAfter p.now (s.change + debounceMs) = false ∧ boardSwitchPressed s p = (false, s)) := by
  by_cases hd : p.down = s.last
  · exact Or.inl ⟨hd, by simp [boardSwitchPressed, hd]⟩
  · have hnot : p.down = !s.last := by
      cases hp : p.down <;> cases hs : s.last <;> simp_all
    cases ht : timeAfter p.now (s.change + debounceMs) with
    | true => exact Or.inr (Or.inl ⟨hnot, rfl, by simp [boardSwitchPressed, hd, ht]⟩)
    | false => exact Or.inr (Or.inr ⟨hnot, rfl, by simp [boardSwitchPressed, hd, ht]⟩)

theorem anchored_step {ps : List Poll} {s : Switch} (h : ∃ before a after, Anchored ps s before a after) (p : Poll) :
    ∃ before a after, Anchored (ps ++ [p]) (boardSwitchPressed s p).2 before a after := by
  obtain ⟨before, a, after, ha⟩ := h
  rcases switch_cases s p with ⟨hd, hto⟩ | ⟨-, -, hto⟩ | ⟨hd, -, hto⟩
  · rw [hto]
    exact ⟨ps, p, [], rfl, hd, rfl, fun _ h => absurd h List.not_mem_nil⟩
  · rw [hto]
    exact ⟨ps, p, [], rfl, rfl, rfl, fun _ h => absurd h List.not_mem_nil⟩
  · rw [hto]
    refine ⟨before, a, after ++ [p], ?_, ha.agrees, ha.change, ?_⟩
    · rw [ha.split, List.append_assoc, List.cons_append]
    · intro q hq
      rcases List.mem_append.mp hq with hq | hq
      · exact ha.disagree q hq
      · rw [List.mem_singleton.mp hq]
        exact hd

theorem anchored_after {ps : List Poll} {s : Switch} (h : ∃ before a after, Anchored ps s before a after)
    (qs : List Poll) : ∃ before a after, Anchored (ps ++ qs) (switchAfter s qs) before a after := by
  induction qs generalizing ps s with
  | nil =>
    rw [List.append_nil]
    exact h
  | cons q qs ih =>
    have hstep := ih (anchored_step h q)
    rw [List.append_assoc, List.singleton_append] at hstep
    exact hstep

/-- A button that was down and is up has been let go of at some reading. -/
theorem let_go {s : Switch} (hs : s.last = true) {qs : List Poll} (h : (switchAfter s qs).last = false) :
    ∃ u r v, qs = u ++ r :: v ∧ (switchAfter s u).last = true ∧ r.down = false ∧
      timeAfter r.now ((switchAfter s u).change + debounceMs) = true ∧
      switchAfter s (u ++ [r]) = ⟨false, r.now⟩ := by
  induction qs generalizing s with
  | nil => exact absurd (hs.symm.trans h) Bool.noConfusion
  | cons q qs ih =>
    rw [switchAfter_cons] at h
    cases hnext : (boardSwitchPressed s q).2.last with
    | true =>
      obtain ⟨u, r, v, rfl, hu, hr, ht, hv⟩ := ih hnext h
      exact ⟨q :: u, r, v, rfl, hu, hr, ht, hv⟩
    | false =>
      rcases switch_cases s q with ⟨-, hto⟩ | ⟨hd, ht, hto⟩ | ⟨-, -, hto⟩
      · rw [hto] at hnext
        exact absurd (hs.symm.trans hnext) Bool.noConfusion
      · rw [hs] at hd
        refine ⟨[], q, qs, rfl, hs, hd, ht, ?_⟩
        rw [List.nil_append, switchAfter_cons, hto, hd]
        rfl
      · rw [hto] at hnext
        exact absurd (hs.symm.trans hnext) Bool.noConfusion

/-- A reading that is reported: the button has settled up, and was down long enough. -/
theorem pressed_cases {s : Switch} {p : Poll} (h : (boardSwitchPressed s p).1 = true) :
    p.down = true ∧ s.last = false ∧ timeAfter p.now (s.change + debounceMs) = true ∧
      (boardSwitchPressed s p).2 = ⟨true, p.now⟩ := by
  rcases switch_cases s p with ⟨-, hto⟩ | ⟨hd, ht, hto⟩ | ⟨-, -, hto⟩
  · rw [hto] at h
    cases h
  · rw [hto] at h
    have hdown : p.down = true := h
    rw [hdown] at hd hto
    exact ⟨hdown, by simpa using hd.symm, ht, by rw [hto]⟩
  · rw [hto] at h
    cases h

/-- What the anchor says in real time. -/
theorem Anchored.wait {ps : List Poll} {s : Switch} {before after : List Poll} {a p : Poll}
    (h : Anchored ps s before a after) (horder : InOrder (ps ++ [p]))
    (ht : timeAfter p.now (s.change + debounceMs) = true) : a.time + 25 ≤ p.time := by
  have hmem : a ∈ ps := by
    rw [h.split]
    exact List.mem_append_right _ List.mem_cons_self
  have hle : a.time ≤ p.time := (List.pairwise_append.mp horder).2.2 a hmem p List.mem_cons_self
  rw [h.change] at ht
  exact le_of_timeAfter hle (by decide) ht

/-- Two reported presses: the button was up at each of the readings of at least 25 ms, and the
    second is at least 50 ms after the first. -/
theorem presses_apart {ps mid : List Poll} {p q : Poll} (horder : InOrder (ps ++ p :: mid ++ [q]))
    (hp : pressedAt ps p = true) (hq : pressedAt (ps ++ p :: mid) q = true) :
    p.time + 50 ≤ q.time ∧ ∃ u a after r v, p :: mid = u ++ a :: after ++ r :: v ∧ a.down = true ∧
      (∀ x ∈ after ++ [r], x.down = false) ∧ a.time + 25 ≤ r.time := by
  obtain ⟨hpdown, -, -, hpto⟩ := pressed_cases hp
  rw [pressedAt, switchAfter_append, switchAfter_cons, hpto] at hq
  obtain ⟨-, hup, hqt, -⟩ := pressed_cases hq
  have hpq : InOrder (p :: mid ++ [q]) := by
    rw [List.append_assoc] at horder
    exact (List.pairwise_append.mp horder).2.1
  -- the reading at which the release settled
  obtain ⟨u, r, v, rfl, hu, hr, hrt, hrto⟩ := let_go rfl hup
  have hstart : Anchored [p] ⟨true, p.now⟩ [] p [] := anchored_self hpdown rfl
  obtain ⟨before, a, after, ha⟩ := anchored_after ⟨[], p, [], hstart⟩ u
  have hpr : InOrder (p :: u ++ [r]) := by
    refine List.Pairwise.sublist ?_ hpq
    simp
  have hwait := ha.wait hpr hrt
  have hple : p.time ≤ a.time := by
    have hmem : a ∈ p :: u := by
      rw [List.singleton_append] at ha
      rw [ha.split]
      exact List.mem_append_right _ List.mem_cons_self
    rcases List.mem_cons.mp hmem with rfl | hmem
    · exact Nat.le_refl _
    · exact List.rel_of_pairwise_cons hpr (List.mem_append_left _ hmem)
  -- from there on, the press that is reported next
  have hsplit : switchAfter ⟨true, p.now⟩ (u ++ r :: v) = switchAfter ⟨false, r.now⟩ v := by
    rw [← hrto, ← switchAfter_append, List.append_assoc, List.singleton_append]
  rw [hsplit] at hqt
  have hagain : Anchored [r] ⟨false, r.now⟩ [] r [] := anchored_self hr rfl
  obtain ⟨before', a', after', ha'⟩ := anchored_after ⟨[], r, [], hagain⟩ v
  have hrq : InOrder (r :: v ++ [q]) := by
    refine List.Pairwise.sublist ?_ hpq
    simp
  have hwait' := ha'.wait hrq hqt
  have hrle : r.time ≤ a'.time := by
    have hmem : a' ∈ r :: v := by
      rw [List.singleton_append] at ha'
      rw [ha'.split]
      exact List.mem_append_right _ List.mem_cons_self
    rcases List.mem_cons.mp hmem with rfl | hmem
    · exact Nat.le_refl _
    · exact List.rel_of_pairwise_cons hrq (List.mem_append_left _ hmem)
  refine ⟨by omega, before, a, after, r, v, ?_, ?_, ?_, hwait⟩
  · have hcons : p :: (u ++ r :: v) = ([p] ++ u) ++ r :: v := rfl
    rw [hcons, ha.split]
  · rw [ha.agrees, hu]
  · intro x hx
    rcases List.mem_append.mp hx with hx | hx
    · rw [ha.disagree x hx, hu]
      rfl
    · rw [List.mem_singleton.mp hx]
      exact hr

/-- A release that bounces, and a second press. -/
def bouncing : List Poll := [⟨false, 110⟩, ⟨true, 112⟩, ⟨false, 114⟩, ⟨false, 140⟩, ⟨true, 150⟩]

theorem presses_apart_of_bouncing :
    pressedAt [] ⟨true, 100⟩ = true ∧ pressedAt (⟨true, 100⟩ :: bouncing) ⟨true, 170⟩ = true ∧
      ∃ u a after r v, ⟨true, 100⟩ :: bouncing = u ++ a :: after ++ r :: v ∧ a.down = true ∧
        (∀ x ∈ after ++ [r], x.down = false) ∧ a.time + 25 ≤ r.time :=
  ⟨by decide, by decide, (@presses_apart [] bouncing ⟨true, 100⟩ ⟨true, 170⟩ (by decide) (by decide) (by decide)).2⟩

/-- Each reading comes less than `gap` after the one before. -/
def Steady (gap : Nat) (ps : List Poll) : Prop := ps.IsChain fun p q => p.time ≤ q.time ∧ q.time < p.time + gap

instance (gap : Nat) (ps : List Poll) : Decidable (Steady gap ps) := by
  unfold Steady
  infer_instance

/-- One of these readings comes `ms` or more after `x`. -/
def lasts (x : Poll) (hold : List Poll) (ms : Nat) : Bool := hold.any fun h => x.time + ms ≤ h.time

theorem lasts_cons (x h : Poll) (hold : List Poll) (ms : Nat) :
    lasts x (h :: hold) ms = (decide (x.time + ms ≤ h.time) || lasts x hold ms) := rfl

theorem lasts_cons_long {x h : Poll} {ms : Nat} (hlong : x.time + ms ≤ h.time) (hold : List Poll) :
    lasts x (h :: hold) ms = true := by
  rw [lasts_cons, decide_eq_true hlong, Bool.true_or]

theorem lasts_cons_short {x h : Poll} {ms : Nat} (hshort : ¬x.time + ms ≤ h.time) (hold : List Poll) :
    lasts x (h :: hold) ms = lasts x hold ms := by
  rw [lasts_cons, decide_eq_false hshort, Bool.false_or]

/-- A press goes on: nothing more is reported. -/
theorem held_reports {s : Switch} (hs : s.last = true) {hold : List Poll} (hdown : ∀ h ∈ hold, h.down = true) :
    (switchReports s hold).count true = 0 := by
  induction hold generalizing s with
  | nil => rfl
  | cons h hold ih =>
    have hd : h.down = s.last := (hdown h List.mem_cons_self).trans hs.symm
    have hto : boardSwitchPressed s h = (false, { s with change := h.now }) := by simp [boardSwitchPressed, hd]
    rw [switchReports, hto, List.count_cons_of_ne Bool.false_ne_true]
    exact ih hs fun x hx => hdown x (List.mem_cons_of_mem _ hx)

/-- `prev` is the reading before these, `a` the last one up. -/
theorem settling_reports {a prev : Poll} (hprev : a.time ≤ prev.time ∧ prev.time < a.time + 25) {hold : List Poll}
    (hdown : ∀ h ∈ hold, h.down = true) (hsteady : Steady (2 ^ 31) (prev :: hold)) :
    (switchReports ⟨false, a.now⟩ hold).count true = if lasts a hold 25 then 1 else 0 := by
  induction hold generalizing prev with
  | nil => rfl
  | cons h hold ih =>
    have hd := hdown h List.mem_cons_self
    obtain ⟨⟨hle, hlt⟩, hrest⟩ := List.isChain_cons_cons.mp hsteady
    by_cases hlong : a.time + 25 ≤ h.time
    · have ht : timeAfter h.now (a.now + debounceMs) = true := by
        refine timeAfter_of_le hlong ?_
        have h25 : debounceMs.toNat = 25 := rfl
        omega
      have hto : boardSwitchPressed ⟨false, a.now⟩ h = (true, ⟨true, h.now⟩) := by simp [boardSwitchPressed, hd, ht]
      have hmore := held_reports (s := ⟨true, h.now⟩) rfl fun x hx => hdown x (List.mem_cons_of_mem _ hx)
      rw [switchReports, hto, List.count_cons_self, hmore, if_pos (lasts_cons_long hlong hold)]
    · have ht : timeAfter h.now (a.now + debounceMs) = false := by
        rw [Bool.eq_false_iff]
        intro ht
        exact hlong (le_of_timeAfter (hprev.1.trans hle) (by decide) ht)
      have hto : boardSwitchPressed ⟨false, a.now⟩ h = (false, ⟨false, a.now⟩) := by simp [boardSwitchPressed, hd, ht]
      rw [switchReports, hto, List.count_cons_of_ne Bool.false_ne_true,
        ih ⟨hprev.1.trans hle, by omega⟩ (fun x hx => hdown x (List.mem_cons_of_mem _ hx)) hrest,
        lasts_cons_short hlong]

/-- A press is reported once if it is held for 25 ms, and not at all if it is not. -/
theorem press_once {ps hold : List Poll} {a : Poll} (ha : a.down = false)
    (hup : (switchAfter switchInit (ps ++ [a])).last = false) (hdown : ∀ h ∈ hold, h.down = true)
    (hsteady : Steady (2 ^ 31) (a :: hold)) :
    (switchReports (switchAfter switchInit (ps ++ [a])) hold).count true =
      if lasts a hold 25 then 1 else 0 := by
  have hstate : switchAfter switchInit (ps ++ [a]) = ⟨false, a.now⟩ := by
    rw [switchAfter_append, switchAfter_cons] at hup ⊢
    rcases switch_cases (switchAfter switchInit ps) a with ⟨hd, hto⟩ | ⟨-, -, hto⟩ | ⟨hd, -, hto⟩
    · rw [hto, ← hd, ha]
      rfl
    · rw [hto, ha]
      rfl
    · rw [hto] at hup
      have hlast : (switchAfter switchInit ps).last = false := hup
      rw [hlast, ha] at hd
      cases hd
  rw [hstate]
  exact settling_reports ⟨Nat.le_refl _, by omega⟩ hdown hsteady

/-- Across the moment at which the clock wraps. -/
def lateHold : List Poll := [⟨true, 2 ^ 32 - 10⟩, ⟨true, 2 ^ 32 + 5⟩, ⟨true, 2 ^ 32 + 6⟩, ⟨true, 2 ^ 32 + 7⟩]

theorem press_once_of_late :
    (switchReports (switchAfter switchInit ([] ++ [⟨false, 2 ^ 32 - 20⟩])) lateHold).count true = 1 :=
  press_once rfl (by decide) (by decide) (by decide)

/-! ## Holds of the pair button -/

def pairAfter (s : PairButton) (ps : List Poll) : PairButton := ps.foldl (fun s p => (boardPairButton s p).2) s

/-- What each of these readings asked for. -/
def pairReports : PairButton → List Poll → List PairBtn
  | _, [] => []
  | s, p :: ps => (boardPairButton s p).1 :: pairReports (boardPairButton s p).2 ps

/-- What the reading `p`, after the readings `ps` since the board started, asks for. -/
def askedAt (ps : List Poll) (p : Poll) : PairBtn := (boardPairButton (pairAfter pairButtonInit ps) p).1

/-- How long the button is held for it. -/
def holdMs : PairBtn → Nat
  | .none => 0
  | .pair => 3000
  | .unpair => 10000

/-- What one reading can do. -/
theorem pair_cases (s : PairButton) (p : Poll) :
    (p.down = false ∧ boardPairButton s p = (.none, pairButtonInit)) ∨
    (p.down = true ∧ s.downSince = 0 ∧ boardPairButton s p = (.none, { s with downSince := p.now })) ∨
    (p.down = true ∧ s.downSince ≠ 0 ∧ s.unpairReported = false ∧
      timeAfter p.now (s.downSince + unpairHoldMs) = true ∧
      boardPairButton s p = (.unpair, { s with unpairReported := true })) ∨
    (p.down = true ∧ s.downSince ≠ 0 ∧ (s.unpairReported = true ∨ timeAfter p.now (s.downSince + unpairHoldMs) = false) ∧
      s.pairReported = false ∧ timeAfter p.now (s.downSince + pairHoldMs) = true ∧
      boardPairButton s p = (.pair, { s with pairReported := true })) ∨
    (p.down = true ∧ s.downSince ≠ 0 ∧ (s.unpairReported = true ∨ timeAfter p.now (s.downSince + unpairHoldMs) = false) ∧
      (s.pairReported = true ∨ timeAfter p.now (s.downSince + pairHoldMs) = false) ∧
      boardPairButton s p = (.none, s)) := by
  unfold boardPairButton
  cases hd : p.down with
  | false => exact Or.inl ⟨rfl, rfl⟩
  | true =>
    refine Or.inr ?_
    by_cases hs : s.downSince = 0
    · exact Or.inl ⟨rfl, hs, by simp [hs]⟩
    refine Or.inr ?_
    cases hu : s.unpairReported <;> cases htu : timeAfter p.now (s.downSince + unpairHoldMs) <;>
      cases hp : s.pairReported <;> cases htp : timeAfter p.now (s.downSince + pairHoldMs) <;> simp [hs]

/-- Since when the button has been down, at every reading. -/
def HeldSince (ps : List Poll) (s : PairButton) : Prop :=
  s.downSince ≠ 0 → ∃ before y after, ps = before ++ y :: after ∧ s.downSince = y.now ∧ ∀ q ∈ y :: after, q.down = true

theorem heldSince_step {ps : List Poll} {s : PairButton} (h : HeldSince ps s) (p : Poll) :
    HeldSince (ps ++ [p]) (boardPairButton s p).2 := by
  have hmore {s' : PairButton} (hd : p.down = true) (hs : s.downSince ≠ 0) (hs' : s'.downSince = s.downSince) :
      HeldSince (ps ++ [p]) s' := by
    intro _
    obtain ⟨before, y, after, rfl, hy, hall⟩ := h hs
    refine ⟨before, y, after ++ [p], by simp, hs'.trans hy, ?_⟩
    intro q hq
    rcases List.mem_append.mp (List.cons_append ▸ hq) with hq | hq
    · exact hall q hq
    · rw [List.mem_singleton.mp hq]
      exact hd
  rcases pair_cases s p with ⟨-, hto⟩ | ⟨hd, -, hto⟩ | ⟨hd, hs, -, -, hto⟩ | ⟨hd, hs, -, -, -, hto⟩ | ⟨hd, hs, -, -, hto⟩
  · rw [hto]
    exact fun hne => absurd rfl hne
  · rw [hto]
    refine fun _ => ⟨ps, p, [], rfl, rfl, fun q hq => ?_⟩
    rw [List.mem_singleton.mp hq]
    exact hd
  · rw [hto]
    exact hmore hd hs rfl
  · rw [hto]
    exact hmore hd hs rfl
  · rw [hto]
    exact hmore hd hs rfl

theorem heldSince_after (ps : List Poll) : HeldSince ps (pairAfter pairButtonInit ps) := by
  induction ps using List.reverseRecOn with
  | nil => exact fun hne => absurd rfl hne
  | append_singleton ps p ih =>
    have hstep := heldSince_step ih p
    rw [pairAfter, List.foldl_append]
    exact hstep

/-- What is asked for has been waited for. -/
theorem asked_cases {s : PairButton} {p : Poll} (h : (boardPairButton s p).1 ≠ .none) :
    p.down = true ∧ s.downSince ≠ 0 ∧
      timeAfter p.now (s.downSince + UInt32.ofNat (holdMs (boardPairButton s p).1)) = true := by
  rcases pair_cases s p with ⟨-, hto⟩ | ⟨-, -, hto⟩ | ⟨hd, hs, -, ht, hto⟩ | ⟨hd, hs, -, -, ht, hto⟩ | ⟨-, -, -, -, hto⟩
  · exact absurd (congrArg Prod.fst hto) h
  · exact absurd (congrArg Prod.fst hto) h
  · rw [hto]
    exact ⟨hd, hs, ht⟩
  · rw [hto]
    exact ⟨hd, hs, ht⟩
  · exact absurd (congrArg Prod.fst hto) h

/-- Nothing is asked for but by holding the button, down at every reading, for as long as it takes. -/
theorem asked_held {ps : List Poll} {p : Poll} (horder : InOrder (ps ++ [p])) (h : askedAt ps p ≠ .none) :
    ∃ before y after, ps = before ++ y :: after ∧ (∀ q ∈ y :: after ++ [p], q.down = true) ∧
      y.time + holdMs (askedAt ps p) ≤ p.time := by
  obtain ⟨hd, hs, ht⟩ := asked_cases h
  obtain ⟨before, y, after, hsplit, hy, hall⟩ := heldSince_after ps hs
  refine ⟨before, y, after, hsplit, ?_, ?_⟩
  · intro q hq
    rcases List.mem_append.mp hq with hq | hq
    · exact hall q hq
    · rw [List.mem_singleton.mp hq]
      exact hd
  · have hmem : y ∈ ps := by
      rw [hsplit]
      exact List.mem_append_right _ List.mem_cons_self
    have hle : y.time ≤ p.time := (List.pairwise_append.mp horder).2.2 y hmem p List.mem_cons_self
    rw [hy] at ht
    have hhold : (UInt32.ofNat (holdMs (askedAt ps p))).toNat = holdMs (askedAt ps p) := by
      cases askedAt ps p <;> rfl
    have hwait := le_of_timeAfter hle (by rw [← askedAt, hhold]; cases askedAt ps p <;> decide) ht
    rw [← askedAt, hhold] at hwait
    exact hwait

/-! ## What a hold asks for -/

/-- What was asked for, in order. -/
def asked (rs : List PairBtn) : List PairBtn := rs.filter (· ≠ .none)

theorem asked_cons_none (rs : List PairBtn) : asked (.none :: rs) = asked rs := rfl

section hold

variable {x prev : Poll} {hold : List Poll}

/-- Both have been asked for. -/
theorem spent_asked (hx : x.now ≠ 0) (hdown : ∀ h ∈ hold, h.down = true) :
    asked (pairReports ⟨x.now, true, true⟩ hold) = [] := by
  induction hold with
  | nil => rfl
  | cons h hold ih =>
    have hto : boardPairButton ⟨x.now, true, true⟩ h = (.none, ⟨x.now, true, true⟩) := by
      simp [boardPairButton, hdown h List.mem_cons_self, hx]
    rw [pairReports, hto, asked_cons_none]
    exact ih fun q hq => hdown q (List.mem_cons_of_mem _ hq)

/-- Pairing has been asked for; `prev` is the reading before these. -/
theorem pairing_asked (hx : x.now ≠ 0) (hprev : x.time ≤ prev.time ∧ prev.time < x.time + 10000)
    (hdown : ∀ h ∈ hold, h.down = true) (hsteady : Steady 7000 (prev :: hold)) :
    asked (pairReports ⟨x.now, true, false⟩ hold) = if lasts x hold 10000 then [.unpair] else [] := by
  induction hold generalizing prev with
  | nil => rfl
  | cons h hold ih =>
    obtain ⟨⟨hle, hlt⟩, hrest⟩ := List.isChain_cons_cons.mp hsteady
    have hd := hdown h List.mem_cons_self
    have hmore : ∀ q ∈ hold, q.down = true := fun q hq => hdown q (List.mem_cons_of_mem _ hq)
    by_cases hlong : x.time + 10000 ≤ h.time
    · have ht : timeAfter h.now (x.now + unpairHoldMs) = true := by
        have h10 : unpairHoldMs.toNat = 10000 := rfl
        refine timeAfter_of_le hlong ?_
        omega
      have hto : boardPairButton ⟨x.now, true, false⟩ h = (.unpair, ⟨x.now, true, true⟩) := by
        simp [boardPairButton, hd, hx, ht]
      rw [pairReports, hto, if_pos (lasts_cons_long hlong hold)]
      exact congrArg (List.cons _) (spent_asked hx hmore)
    · have ht : timeAfter h.now (x.now + unpairHoldMs) = false := by
        rw [Bool.eq_false_iff]
        intro ht
        exact hlong (le_of_timeAfter (hprev.1.trans hle) (by decide) ht)
      have hto : boardPairButton ⟨x.now, true, false⟩ h = (.none, ⟨x.now, true, false⟩) := by
        simp [boardPairButton, hd, hx, ht]
      rw [pairReports, hto, asked_cons_none, ih ⟨hprev.1.trans hle, by omega⟩ hmore hrest, lasts_cons_short hlong]

/-- Nothing has been asked for. -/
theorem waiting_asked (hx : x.now ≠ 0) (hprev : x.time ≤ prev.time ∧ prev.time < x.time + 3000)
    (hdown : ∀ h ∈ hold, h.down = true) (hsteady : Steady 7000 (prev :: hold)) :
    asked (pairReports ⟨x.now, false, false⟩ hold) =
      if lasts x hold 10000 then [.pair, .unpair]
      else if lasts x hold 3000 then [.pair] else [] := by
  induction hold generalizing prev with
  | nil => rfl
  | cons h hold ih =>
    obtain ⟨⟨hle, hlt⟩, hrest⟩ := List.isChain_cons_cons.mp hsteady
    have hd := hdown h List.mem_cons_self
    have hmore : ∀ q ∈ hold, q.down = true := fun q hq => hdown q (List.mem_cons_of_mem _ hq)
    -- no reading skips from before the one threshold to past the other
    have hnot : ¬x.time + 10000 ≤ h.time := by omega
    have hu : timeAfter h.now (x.now + unpairHoldMs) = false := by
      rw [Bool.eq_false_iff]
      intro ht
      exact hnot (le_of_timeAfter (hprev.1.trans hle) (by decide) ht)
    by_cases hlong : x.time + 3000 ≤ h.time
    · have ht : timeAfter h.now (x.now + pairHoldMs) = true := by
        have h3 : pairHoldMs.toNat = 3000 := rfl
        refine timeAfter_of_le hlong ?_
        omega
      have hto : boardPairButton ⟨x.now, false, false⟩ h = (.pair, ⟨x.now, true, false⟩) := by
        simp [boardPairButton, hd, hx, ht, hu]
      have hnow : x.time ≤ h.time ∧ h.time < x.time + 10000 := ⟨hprev.1.trans hle, by omega⟩
      have hpaired := pairing_asked hx hnow hmore hrest
      rw [pairReports, hto, lasts_cons_short hnot, if_pos (lasts_cons_long hlong hold)]
      refine (congrArg (List.cons PairBtn.pair) hpaired).trans ?_
      split <;> rfl
    · have ht : timeAfter h.now (x.now + pairHoldMs) = false := by
        rw [Bool.eq_false_iff]
        intro ht
        exact hlong (le_of_timeAfter (hprev.1.trans hle) (by decide) ht)
      have hto : boardPairButton ⟨x.now, false, false⟩ h = (.none, ⟨x.now, false, false⟩) := by
        simp [boardPairButton, hd, hx, ht, hu]
      rw [pairReports, hto, asked_cons_none, ih ⟨hprev.1.trans hle, by omega⟩ hmore hrest, lasts_cons_short hnot,
        lasts_cons_short hlong]

end hold

def tenSeconds : List Poll := [⟨true, 1000⟩, ⟨true, 2999⟩, ⟨true, 3001⟩, ⟨true, 6000⟩, ⟨true, 10002⟩, ⟨true, 12000⟩]

end DeskHop.Device
