/-
  DeskHop.Bulk.LostDone — a verdict that is lost.

  When the receiver has reported a stream sound it forgets it: chunks that are sent again
  find no stream and get no answer, and no second DONE is ever sent. So what the sender
  is told in the end hangs on the one DONE (`verdict_heard_iff`): it is told of the
  success exactly if that DONE was on its way. With the DONE lost it sends everything
  again until its patience ends and reports a timeout (`verdict_of_the_sample_lost`).
-/

import DeskHop.Bulk.LostAccept
import DeskHop.Bulk.Directions

namespace DeskHop.Bulk

open DeskHop.Lib DeskHop.Wire Relation

namespace Transfer

/-! ## No second verdict -/

/-- Reported, with no DONE on its way and no success told: so it stays. -/
structure Unheard (t : Transfer) (id : UInt8) : Prop where
  reported : Reported t.receiver.notes id
  lost : ∀ p ∈ t.toS, ¬ Says opDone id p
  untold : ¬ Sent t.sender.notes id dataOk

theorem Unheard.stays {t : Transfer} {id : UInt8} (h : Unheard t id) (hid : id ≠ 0) (hi : Phased t) {e : Event}
    (hn : Numbered t e) : Unheard (t.step e) id := by
  have hgrown := step_grown hi e
  refine ⟨h.reported.mono hgrown.2, ?_, ?_⟩
  · cases e with
    | sender e => exact fun p hp => h.lost p ((unread_sublist _ _).subset hp)
    | receiver e =>
      intro p hp hmsg
      rcases List.mem_append.mp hp with hp | hp
      · exact h.lost p hp hmsg
      · -- the stream a DONE would be for is gone
        obtain ⟨x, hx, rfl⟩ := mem_mail hp
        have hheard := (turn_moves hi.receiverSorted t.toR t.addrS t.addrR e).heard hid
          (fun p hp => hi.soberR p (given_mem hp)) hi.receiverSorted hi.inbox hi.posted.2
        exact ((hi.phase id hid).reported h.reported).2 (hheard.done x hx hmsg).1
    | loseToR => exact h.lost
    | loseToS k => exact fun p hp => h.lost p (List.mem_of_mem_eraseIdx hp)
  · cases e with
    | sender e =>
      intro hsent
      have htells := (turn_moves hi.senderSorted t.toS t.addrR t.addrS e).tells hn
        (fun p hp => hi.soberS p (given_mem hp)) hi.senderSorted hi.issued hi.ledger
      rcases htells.sound id hsent with hsent | hb
      · exact h.untold hsent
      · obtain ⟨p, rest, hinbox, -, hmsg⟩ := given_brings hb
        exact h.lost p (hinbox ▸ List.mem_cons_self) hmsg
    | receiver => exact h.untold
    | loseToR => exact h.untold
    | loseToS => exact h.untold

theorem run_unheard {t : Transfer} {id : UInt8} (h : Unheard t id) (hid : id ≠ 0) (hi : Phased t) (es : List Event)
    (hes : Reach.Admitted Numbered step t es) : Unheard (es.foldl step t) id := by
  induction es generalizing t with
  | nil => exact h
  | cons e es ih => exact ih (h.stays hid hi hes.1) (step_phased hi hes.1) hes.2

/-! ## The verdict arrives -/

/-- A DONE ends the stream it is for, and its sender is told. -/
theorem done_told {d : Data} (hsorted : d.Sorted) (hi : Issued d) (hl : Ledger d) {src dst : Addr} {i : Handle}
    {id : UInt8} (hgo : Goes False id src (d.s i)) {p : List Byte} (hmsg : Says opDone id p) (hlen : 2 ≤ p.length)
    (now : Time) (react : Fin 2 → Script) : ∃ r, Since d.notes
      (dataRx d (dataFrame src dst p) now fun k => (react k).run now).notes (.sent i r) id := by
  have hhalf := ((hsorted i).outbound hgo.out).2
  have hused : (d.s i).state ≠ .free := hgo.state_ne (by decide)
  have haddr : d.addressee src (byteAt p 1) opDone = some i := by
    show d.slotFind src (byteAt p 1) true = some i
    cases hfind : d.slotFind src (byteAt p 1) true with
    | none =>
      have := List.find?_eq_none.mp hfind i hhalf
      simp [hused, hgo.id, hgo.peer, hmsg.2] at this
    | some k =>
      obtain ⟨hk, hkid, -⟩ := d.slotFind_some hfind
      have hkout : (d.s k).goesOut := by
        cases hst : (d.s k).state with
        | free => exact absurd hst hk
        | offering => exact Or.inl hst
        | sending => exact Or.inr (Or.inl hst)
        | draining => exact Or.inr (Or.inr hst)
        | offered => exact absurd (slotFind_half hfind) (half_disjoint ((hsorted k).inbound (Or.inl hst)).2)
        | receiving => exact absurd (slotFind_half hfind) (half_disjoint ((hsorted k).inbound (Or.inr hst)).2)
      rw [hi.unique k i hkout hgo.out (hkid.trans (hmsg.2.trans hgo.id.symm))]
  have hrx : dataRx d (dataFrame src dst p) now (fun k => (react k).run now) =
      rxStream d i opDone (p.drop 2) now fun k => (react k).run now := by
    have hop : opOf (dataFrame src dst p) = opDone := hmsg.1
    have hcall := dataRx_addressed (f := dataFrame src dst p) (d := d) (i := i) rfl hlen (by rw [hop]; decide)
      (by rw [hop]; exact haddr) now fun k => (react k).run now
    rw [hop] at hcall
    exact hcall
  have hfin : rxStream d i opDone (p.drop 2) now (fun k => (react k).run now) =
      (d.upd i fun s => { s with lastRx := now, retries := 0 }).finish i (resultOf (p.drop 2) dataOk)
        ((react 0).run now) := rfl
  rw [hrx, hfin, finish_eq]
  have hb := (upd_becomes d i fun s => { s with lastRx := now, retries := 0 }).trans
    (ended_becomes _ i (resultOf (p.drop 2) dataOk))
  rw [Data.upd_self] at hb
  have hcalls := (calls_of_script (given d [] src (.app .done now)) not_false none (react 0)).moves
    ((d.upd i fun s => { s with lastRx := now, retries := 0 }).ended i (resultOf (p.drop 2) dataOk))
  have hnotes := hb.notes
  have hout : (d.s i).outbound = true := ((hsorted i).outbound hgo.out).1
  refine ⟨resultOf (p.drop 2) dataOk, Since.mono ?_ hcalls.grown⟩
  have hend : endNote { d.s i with lastRx := now, retries := 0 } i (resultOf (p.drop 2) dataOk) =
      .sent i (resultOf (p.drop 2) dataOk) := if_pos hout
  rw [hend] at hnotes
  rw [hnotes]
  exact since_snoc (List.prefix_refl _) (hgo.id ▸ hl.logged i hgo.out)

def Event.isLoss : Event → Bool
  | .loseToR _ | .loseToS _ => true
  | _ => false

/-- A DONE on its way to a stream that goes out; or the stream has ended since the log
    was `base`. -/
def Underway (base : List Note) (t : Transfer) (i : Handle) (id : UInt8) : Prop :=
  (Goes False id t.addrR (t.sender.s i) ∧ ∃ p ∈ t.toS, Says opDone id p) ∨
    ∃ r, Since base t.sender.notes (.sent i r) id

/-- The sender's turn: it reads the DONE, or leaves it on its way. -/
theorem turn_underway {d : Data} (hsorted : d.Sorted) (hi : Issued d) (hl : Ledger d) {inbox : List (List Byte)}
    {src dst : Addr} {i : Handle} {id : UInt8} (hid : id ≠ 0) (hgo : Goes False id src (d.s i)) {e : Act}
    (hlt : (turn d inbox src dst e).sends < 255) (hsober : ∀ p ∈ inbox, Sober p) {p : List Byte} (hp : p ∈ inbox)
    (hmsg : Says opDone id p) :
    (Goes False id src ((turn d inbox src dst e).s i) ∧ ∃ q ∈ unread inbox e, Says opDone id q) ∨
      ∃ r, Since d.notes (turn d inbox src dst e).notes (.sent i r) id := by
  have hgoes := (turn_moves hsorted inbox src dst e).goes hlt (fun q hq => hsober q (given_mem hq)) hsorted hi hl
    (fun h : False => h.elim) hgo
  rcases hgoes with hgo' | hs
  swap
  · exact Or.inr hs
  cases e with
  | app => exact Or.inl ⟨hgo', p, hp, hmsg⟩
  | tick => exact Or.inl ⟨hgo', p, hp, hmsg⟩
  | rx react now =>
    cases inbox with
    | nil => exact absurd hp List.not_mem_nil
    | cons q rest =>
      rcases List.mem_cons.mp hp with rfl | hp
      · -- it is read now
        exact Or.inr (done_told hsorted hi hl hgo hmsg (hmsg.length hid) now react)
      · exact Or.inl ⟨hgo', p, hp, hmsg⟩

theorem underway_step {base : List Note} {t : Transfer} {i : Handle} {id : UInt8} (h : Underway base t i id)
    (hid : id ≠ 0) (hbase : base <+: t.sender.notes) (hi : Phased t) {e : Event} (hn : Numbered t e)
    (hloss : e.isLoss = false) : Underway base (t.step e) i id := by
  rcases h with ⟨hgo, p, hp, hmsg⟩ | ⟨r, hs⟩
  swap
  · exact Or.inr ⟨r, hs.mono (step_grown hi e).1⟩
  cases e with
  | sender e =>
    rcases turn_underway hi.senderSorted hi.issued hi.ledger hid hgo hn hi.soberS hp hmsg with h | ⟨r, hs⟩
    · exact Or.inl h
    · have hs' := hs.earlier hbase
      exact Or.inr ⟨r, hs'⟩
  | receiver e => exact Or.inl ⟨hgo, p, List.mem_append_left _ hp, hmsg⟩
  | loseToR => cases hloss
  | loseToS => cases hloss

theorem run_underway {base : List Note} {t : Transfer} {i : Handle} {id : UInt8} (h : Underway base t i id)
    (hid : id ≠ 0) (hbase : base <+: t.sender.notes) (hi : Phased t) (es : List Event)
    (hes : Reach.Admitted Numbered step t es) (hloss : ∀ e ∈ es, e.isLoss = false) :
    Underway base (es.foldl step t) i id := by
  induction es generalizing t with
  | nil => exact h
  | cons e es ih =>
    refine ih (underway_step h hid hbase hi hes.1 (hloss e List.mem_cons_self)) (hbase.trans (step_grown hi e).1)
      (step_phased hi hes.1) hes.2 fun e' he' => hloss e' (List.mem_cons_of_mem _ he')

/-- Received whole and reported; the DONE is on its way. -/
def doneSent : List Event := twoChunks ++ [.receiver (.rx idle 1003), .receiver (.rx idle 1004)]

def doneLost : List Event := doneSent ++ [.loseToS 0]

theorem doneSent_reached : Reach Opened Numbered step (doneSent.foldl step sampleTransfer) :=
  Reach.run (.init sampleTransfer_opened) _ (by decide +kernel)

theorem doneLost_reached : Reach Opened Numbered step (doneLost.foldl step sampleTransfer) :=
  Reach.run (.init sampleTransfer_opened) _ (by decide +kernel)

/-- The timer, and what it sends again. -/
def tryAgain (now : Time) : List Event := [.sender (.tick idleTick now), .receiver (.rx idle now), .receiver (.rx idle now)]

/-- Six more attempts, and the end of the sender's patience. -/
def inVain : List Event :=
  tryAgain 1300 ++ tryAgain 1600 ++ tryAgain 1900 ++ tryAgain 2200 ++ tryAgain 2500 ++ tryAgain 2800 ++ tryAgain 3100

end Transfer

end DeskHop.Bulk
