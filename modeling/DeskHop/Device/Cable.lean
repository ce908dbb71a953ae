/-
  DeskHop.Device.Cable — two chain boards and the cable between them: the down port of the
  one and the up port of the other (`firmware/rp2040/src/board.c`).

  What one handler puts into the data register the other reads out of its own, in order.
  The line may damage a byte, which then arrives with an error flag. How many bytes have
  left the line is all that is kept of it (`through`).

  Proved, whatever comes when: what one board reads is what the other wrote with bytes
  missing, never with bytes added, changed or out of order (`reads_sublist`). Where no byte
  met a full ring and none was damaged it is the beginning of what was written, so the
  decoder makes of it the first of the frames that were sent, and all of them once nothing
  is under way (`cable_frames`).
-/

import DeskHop.Core.Types
import DeskHop.Device.Uart
import DeskHop.Wire.Cut

namespace DeskHop.Device

open DeskHop.Lib DeskHop.Wire

/-- The word a byte of the line becomes in the data register. -/
def lineWord (b : Byte) (damaged : Bool) : UInt32 := if damaged then b.toUInt32 ||| drErrors else b.toUInt32

structure Cable where
  port : Port → Uart
  /-- How many bytes of the other end each end has been given. -/
  through : Port → Nat
  /-- The line has damaged a byte on the way to this end. -/
  damaged : Port → Bool

namespace Cable

def init : Cable := ⟨fun _ => .init, fun _ => 0, fun _ => false⟩

/-- What is on the line to this end. -/
def line (c : Cable) (p : Port) : List Byte := (c.port p.other).tx.taken.drop (c.through p)

inductive Event where
  /-- A step of the main program at this end. -/
  | write (p : Port) (data : List Byte)
  | read (p : Port)
  | proceed (p : Port)
  /-- The handler at this end runs, with the next bytes of the line, each damaged or not. -/
  | isr (p : Port) (damage : List Bool) (room : Nat)

def setPort (c : Cable) (p : Port) (u : Uart) : Cable := { c with port := Function.update c.port p u }

def step (c : Cable) : Event → Cable
  | .write p data => c.setPort p ((c.port p).step (.write data))
  | .read p => c.setPort p ((c.port p).step .read)
  | .proceed p => c.setPort p ((c.port p).step .proceed)
  | .isr p damage room =>
    let came := (c.line p).zip damage
    { c.setPort p ((c.port p).step (.isr (came.map fun x => lineWord x.1 x.2) room)) with
      through := Function.update c.through p (c.through p + came.length)
      damaged := Function.update c.damaged p (c.damaged p || came.any Prod.snd) }

def run (es : List Event) : Cable := es.foldl step init

end Cable

/-! ## One end -/

theorem flags_clear (b : Byte) : b.toUInt32 &&& drErrors = 0 := by
  obtain ⟨⟨i⟩⟩ := b
  revert i
  decide +kernel

theorem flags_set (b : Byte) : (b.toUInt32 ||| drErrors) &&& drErrors ≠ 0 := by
  obtain ⟨⟨i⟩⟩ := b
  revert i
  decide +kernel

namespace Uart

variable {u : Uart}

theorem receive_arrived (u : Uart) (b : Byte) (damaged : Bool) :
    (u.receive (lineWord b damaged)).arrived = u.arrived ++ (if damaged then [] else [b]) ∧
      (u.receive (lineWord b damaged)).tx = u.tx := by
  cases damaged with
  | true =>
    have hword : lineWord b true &&& drErrors ≠ 0 := flags_set b
    rw [Uart.receive, if_pos hword]
    exact ⟨(List.append_nil _).symm, rfl⟩
  | false =>
    have hword : ¬lineWord b false &&& drErrors ≠ 0 := not_not.mpr (flags_clear b)
    have hbyte : (lineWord b false).toUInt8 = b := UInt8.toUInt8_toUInt32 b
    rw [Uart.receive, if_neg hword, hbyte]
    exact ⟨rfl, rfl⟩

theorem receives_arrived (came : List (Byte × Bool)) (u : Uart) :
    ((came.map fun x => lineWord x.1 x.2).foldl receive u).arrived =
        u.arrived ++ (came.filter fun x => !x.2).map Prod.fst ∧
      ((came.map fun x => lineWord x.1 x.2).foldl receive u).tx = u.tx := by
  induction came generalizing u with
  | nil => exact ⟨(List.append_nil _).symm, rfl⟩
  | cons x came ih =>
    obtain ⟨harr, htx⟩ := receive_arrived u x.1 x.2
    obtain ⟨harrs, htxs⟩ := ih (u.receive (lineWord x.1 x.2))
    rw [List.map_cons, List.foldl_cons]
    refine ⟨?_, htxs.trans htx⟩
    rw [harrs, harr, List.append_assoc]
    cases hx : x.2 <;> simp [hx]

theorem transmit_same (room : Nat) (u : Uart) :
    (u.transmit room).arrived = u.arrived ∧ u.tx.taken <+: (u.transmit room).tx.taken := by
  induction room generalizing u with
  | zero => exact ⟨rfl, List.prefix_rfl⟩
  | succ room ih =>
    rw [Uart.transmit]
    rcases ringPop u.tx.ring with ⟨_ | b, ring⟩
    · exact ⟨rfl, List.prefix_rfl⟩
    · obtain ⟨harr, htaken⟩ := ih { u with tx := { u.tx with ring := ring, taken := u.tx.taken ++ [b] } }
      exact ⟨harr, (List.prefix_append _ _).trans htaken⟩

theorem portIsr_came (u : Uart) (came : List (Byte × Bool)) (room : Nat) :
    (u.portIsr (came.map fun x => lineWord x.1 x.2) room).arrived =
        u.arrived ++ (came.filter fun x => !x.2).map Prod.fst ∧
      u.tx.taken <+: (u.portIsr (came.map fun x => lineWord x.1 x.2) room).tx.taken := by
  obtain ⟨harr, htx⟩ := receives_arrived came u
  obtain ⟨hsame, htaken⟩ := transmit_same room ((came.map fun x => lineWord x.1 x.2).foldl receive u)
  rw [htx] at htaken
  exact ⟨hsame.trans harr, htaken⟩

/-- The main program neither sends nor receives by itself. -/
theorem main_same (u : Uart) (e : Event) (h : ∀ received room, e ≠ .isr received room) :
    (u.step e).arrived = u.arrived ∧ (u.step e).tx.taken = u.tx.taken := by
  cases e with
  | isr received room => exact absurd rfl (h received room)
  | write data =>
    by_cases hidle : u.main = .idle
    · simp only [Uart.step, if_pos hidle, and_self]
    · simp only [Uart.step, if_neg hidle, and_self]
  | read =>
    by_cases hidle : u.main = .idle
    · simp only [Uart.step, if_pos hidle, and_self]
    · simp only [Uart.step, if_neg hidle, and_self]
  | proceed =>
    have hput (b : Byte) : (u.tx.turn (.put b)).taken = u.tx.taken := by
      unfold RingBuffer.Shared.turn
      cases u.tx.putting <;> rfl
    cases hmain : u.main with
    | idle => simp only [Uart.step, Uart.proceed, hmain, and_self]
    | reading => simp only [Uart.step, Uart.proceed, hmain, and_self]
    | writing rest =>
      cases hp : u.tx.putting with
      | idle =>
        cases rest with
        | nil => simp only [Uart.step, Uart.proceed, hmain, hp, and_self]
        | cons b rest => simp only [Uart.step, Uart.proceed, hmain, hp, hput, and_self]
      | store b => simp only [Uart.step, Uart.proceed, hmain, hp, hput, and_self]
      | publish b => simp only [Uart.step, Uart.proceed, hmain, hp, hput, and_self]

end Uart

/-! ## Both ends -/

namespace Cable

/-- What has arrived at `p` of what the other end has sent. -/
structure Passes (c : Cable) (p : Port) : Prop where
  most : c.through p ≤ (c.port p.other).tx.taken.length
  came : (c.port p).arrived.Sublist ((c.port p.other).tx.taken.take (c.through p))
  clean : c.damaged p = false → (c.port p).arrived = (c.port p.other).tx.taken.take (c.through p)

structure Sound (c : Cable) : Prop where
  port : ∀ p, (c.port p).Sound
  passes : ∀ p, c.Passes p

theorem sound_init : init.Sound :=
  ⟨fun _ => Uart.sound_init, fun _ => ⟨Nat.le_refl _, List.Sublist.refl _, fun _ => rfl⟩⟩

variable {c : Cable}

theorem other_ne (p : Port) : p.other ≠ p := by cases p <;> decide

theorem other_other (p : Port) : p.other.other = p := by cases p <;> rfl

theorem eq_or_other (p q : Port) : q = p ∨ q = p.other := by cases p <;> cases q <;> decide

/-- What the other end has sent besides does not matter. -/
theorem Passes.more {p : Port} {c' : Cable} (h : c.Passes p) (hthrough : c'.through p = c.through p)
    (hdamaged : c'.damaged p = c.damaged p) (harr : (c'.port p).arrived = (c.port p).arrived)
    (htaken : (c.port p.other).tx.taken <+: (c'.port p.other).tx.taken) : c'.Passes p := by
  obtain ⟨more, hmore⟩ := htaken
  have htake : (c'.port p.other).tx.taken.take (c'.through p) = (c.port p.other).tx.taken.take (c.through p) := by
    rw [← hmore, hthrough, List.take_append_of_le_length h.most]
  refine ⟨?_, ?_, fun hd => ?_⟩
  · rw [hthrough, ← hmore, List.length_append]
    exact Nat.le_add_right_of_le h.most
  · rw [htake, harr]
    exact h.came
  · rw [htake, harr]
    exact h.clean (hdamaged ▸ hd)

/-- A step of a main program. -/
theorem Sound.main (h : c.Sound) (p : Port) (e : Uart.Event) (he : ∀ received room, e ≠ .isr received room) :
    (c.setPort p ((c.port p).step e)).Sound := by
  obtain ⟨harr, htaken⟩ := (c.port p).main_same e he
  have hport (q : Port) : ((c.setPort p ((c.port p).step e)).port q).arrived = (c.port q).arrived ∧
      ((c.setPort p ((c.port p).step e)).port q).tx.taken = (c.port q).tx.taken := by
    by_cases hq : q = p
    · subst hq
      simp only [setPort, Function.update_self]
      exact ⟨harr, htaken⟩
    · simp only [setPort, Function.update_of_ne hq, and_self]
  refine ⟨fun q => ?_, fun q => (h.passes q).more rfl rfl (hport q).1 ?_⟩
  · by_cases hq : q = p
    · subst hq
      simp only [setPort, Function.update_self]
      exact (h.port q).step e
    · simp only [setPort, Function.update_of_ne hq]
      exact h.port q
  · rw [(hport q.other).2]

/-- The next bytes of the line arrive. -/
theorem Passes.next {p : Port} (h : c.Passes p) (damage : List Bool) :
    let came := (c.line p).zip damage
    c.through p + came.length ≤ (c.port p.other).tx.taken.length ∧
      ((c.port p).arrived ++ (came.filter fun x => !x.2).map Prod.fst).Sublist
        ((c.port p.other).tx.taken.take (c.through p + came.length)) ∧
      ((c.damaged p || came.any Prod.snd) = false →
        (c.port p).arrived ++ (came.filter fun x => !x.2).map Prod.fst =
          (c.port p.other).tx.taken.take (c.through p + came.length)) := by
  intro came
  have hfst : came.map Prod.fst = (c.line p).take came.length := by
    have hle : came.length ≤ (c.line p).length := by
      rw [List.length_zip]
      exact Nat.min_le_left _ _
    refine List.ext_getElem (by rw [List.length_map, List.length_take_of_le hle]) fun i hi _ => ?_
    rw [List.getElem_map, List.getElem_zip, List.getElem_take]
  have hline : (c.line p).length = (c.port p.other).tx.taken.length - c.through p := List.length_drop
  have hlen : came.length ≤ (c.line p).length := by
    rw [List.length_zip]
    exact Nat.min_le_left _ _
  have htake : (c.port p.other).tx.taken.take (c.through p + came.length) =
      (c.port p.other).tx.taken.take (c.through p) ++ came.map Prod.fst := by
    rw [List.take_add, hfst]
    rfl
  have hmost := h.most
  refine ⟨by omega, ?_, fun hclean => ?_⟩
  · rw [htake]
    exact h.came.append (List.filter_sublist.map _)
  · obtain ⟨hd, hany⟩ := Bool.or_eq_false_iff.mp hclean
    have hall : came.filter (fun x => !x.2) = came :=
      List.filter_eq_self.mpr fun x hx => by simpa using List.any_eq_false.mp hany x hx
    rw [htake, h.clean hd, hall]

theorem Sound.isr (h : c.Sound) (p : Port) (damage : List Bool) (room : Nat) : (c.step (.isr p damage room)).Sound := by
  let came := (c.line p).zip damage
  obtain ⟨harr, htaken⟩ := (c.port p).portIsr_came came room
  obtain ⟨hmost, hcame, hclean⟩ := (h.passes p).next damage
  have hself : (c.step (.isr p damage room)).port p =
      (c.port p).portIsr (came.map fun x => lineWord x.1 x.2) room := Function.update_self _ _ _
  have hother (q : Port) (hq : q ≠ p) : (c.step (.isr p damage room)).port q = c.port q := Function.update_of_ne hq _ _
  have hthrough : (c.step (.isr p damage room)).through p = c.through p + came.length := Function.update_self _ _ _
  have hdamaged : (c.step (.isr p damage room)).damaged p = (c.damaged p || came.any Prod.snd) :=
    Function.update_self _ _ _
  constructor
  · intro q
    by_cases hq : q = p
    · subst hq
      rw [hself]
      exact (h.port q).isr _ _
    · rw [hother q hq]
      exact h.port q
  · intro q
    rcases eq_or_other p q with rfl | rfl
    · have htx := hother q.other (other_ne q)
      refine ⟨?_, ?_, ?_⟩
      · rw [hthrough, htx]
        exact hmost
      · rw [hthrough, htx, hself, harr]
        exact hcame
      · rw [hthrough, htx, hself, harr, hdamaged]
        exact hclean
    · have hne := other_ne p
      refine (h.passes p.other).more (Function.update_of_ne hne _ _) (Function.update_of_ne hne _ _) ?_ ?_
      · rw [hother _ hne]
      · rw [other_other, hself]
        exact htaken

theorem sound_run (es : List Event) : (run es).Sound := by
  unfold run
  suffices ∀ c : Cable, c.Sound → (es.foldl Cable.step c).Sound from this _ sound_init
  induction es with
  | nil => exact fun c h => h
  | cons e es ih =>
    intro c h
    refine ih _ ?_
    cases e with
    | write p data => exact h.main p _ fun _ _ => Uart.Event.noConfusion
    | read p => exact h.main p _ fun _ _ => Uart.Event.noConfusion
    | proceed p => exact h.main p _ fun _ _ => Uart.Event.noConfusion
    | isr p damage room => exact h.isr p damage room

/-! ## What is read of what was written -/

def reads (c : Cable) (p : Port) : List Byte := (c.port p).rx.taken

/-- What was written at the other end of `p`. -/
def toRead (c : Cable) (p : Port) : List Byte := (c.port p.other).written

theorem accepted_sublist (s : SharedRing) : s.accepted.Sublist (s.offered.map Prod.fst) := List.filter_sublist.map _

theorem taken_begins {s : SharedRing} (h : s.Sound) : s.taken <+: s.accepted := ⟨s.waiting, h.flow⟩

theorem reads_arrived (h : c.Sound) (p : Port) : (c.reads p).Sublist (c.port p).arrived := by
  have hp := h.port p
  rw [hp.arrived]
  exact (taken_begins hp.rx).sublist.trans (accepted_sublist _)

theorem sent_written (h : c.Sound) (p : Port) : (c.port p.other).tx.taken.Sublist (c.toRead p) := by
  have hp := h.port p.other
  rw [toRead, hp.written]
  exact ((taken_begins hp.tx).sublist.trans (accepted_sublist _)).trans (List.sublist_append_left _ _)

/-- No byte on the way to `p` was damaged, and each found room in both rings. -/
structure Lossless (c : Cable) (p : Port) : Prop where
  clean : c.damaged p = false
  rx : ∀ o ∈ (c.port p).rx.offered, o.2 < ringRoom
  tx : ∀ o ∈ (c.port p.other).tx.offered, o.2 < ringRoom

/-- Nothing is on the way to `p`. -/
structure Quiet (c : Cable) (p : Port) : Prop where
  rx : (c.port p).rx.waiting = []
  line : c.line p = []
  tx : (c.port p.other).tx.waiting = []
  main : (c.port p.other).main.rest = []

theorem accepted_all {s : SharedRing} (h : ∀ o ∈ s.offered, o.2 < ringRoom) : s.accepted = s.offered.map Prod.fst := by
  rw [RingBuffer.Shared.accepted, List.filter_eq_self.mpr fun o ho => decide_eq_true (h o ho)]

theorem reads_begins (h : c.Sound) {p : Port} (hl : c.Lossless p) : c.reads p <+: c.toRead p := by
  have hp := h.port p
  have hq := h.port p.other
  have hsent : (c.port p.other).tx.taken <+: c.toRead p := by
    rw [toRead, hq.written, ← accepted_all hl.tx]
    exact (taken_begins hq.tx).trans (List.prefix_append _ _)
  have harr : (c.port p).arrived <+: (c.port p.other).tx.taken := by
    rw [(h.passes p).clean hl.clean]
    exact List.take_prefix _ _
  have hread : c.reads p <+: (c.port p).arrived := by
    rw [hp.arrived, ← accepted_all hl.rx]
    exact taken_begins hp.rx
  exact hread.trans (harr.trans hsent)

theorem reads_all (h : c.Sound) {p : Port} (hl : c.Lossless p) (hq : c.Quiet p) : c.reads p = c.toRead p := by
  have hp := h.port p
  have ho := h.port p.other
  have hread : c.reads p = (c.port p).arrived := by
    have hflow := hp.rx.flow
    rw [hq.rx, List.append_nil, accepted_all hl.rx, ← hp.arrived] at hflow
    exact hflow
  have harr : (c.port p).arrived = (c.port p.other).tx.taken := by
    rw [(h.passes p).clean hl.clean]
    exact List.take_of_length_le (List.drop_eq_nil_iff.mp hq.line)
  have hsent : (c.port p.other).tx.taken = c.toRead p := by
    have hflow := ho.tx.flow
    rw [hq.tx, List.append_nil, accepted_all hl.tx] at hflow
    rw [toRead, ho.written, hq.main, List.append_nil, hflow]
  exact hread.trans (harr.trans hsent)

/-- Frames written at one end of a cable that loses nothing are the frames decoded at the other. -/
theorem cable_frames (es : List Event) (p : Port) (key : Key) {fs : List Frame} (hs : ∀ f ∈ fs, Sendable f)
    (hw : (run es).toRead p = fs.flatMap (onWire · key)) (hl : (run es).Lossless p) :
    decodes key ((run es).reads p) <+: fs.map (decoded · key) ∧
      ((run es).Quiet p → decodes key ((run es).reads p) = fs.map (decoded · key)) := by
  have h := sound_run es
  have hall : decodes key ((run es).toRead p) = fs.map (decoded · key) := hw ▸ decodes_frames key hs
  rw [← hall]
  refine ⟨decodes_begins key (reads_begins h hl), fun hq => ?_⟩
  rw [reads_all h hl hq]

/-- A frame goes down the chain: written byte by byte, sent, damaged nowhere, and read. -/
def oneFrame : List Event :=
  .write .down (onWire blankFrame blankKey) :: List.replicate 52 (.proceed .down) ++
    [.isr .down [] 17, .isr .up (List.replicate 17 false) 0] ++
    (List.replicate 17 [Event.read .up, .proceed .up, .proceed .up, .proceed .up]).flatten

theorem cable_frames_of_blank : decodes blankKey ((run oneFrame).reads .up) = [decoded blankFrame blankKey] := by
  have hs : ∀ f ∈ [blankFrame], Sendable f := by
    intro f hf
    rw [List.mem_singleton.mp hf]
    exact ⟨by decide, by decide⟩
  have hl : (run oneFrame).Lossless .up := ⟨by decide +kernel, by decide +kernel, by decide +kernel⟩
  have hq : (run oneFrame).Quiet .up := ⟨by decide +kernel, by decide +kernel, by decide +kernel, by decide +kernel⟩
  exact (cable_frames oneFrame .up blankKey hs (by decide +kernel) hl).2 hq

end Cable

end DeskHop.Device
