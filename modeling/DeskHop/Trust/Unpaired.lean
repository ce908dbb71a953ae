/-
  DeskHop.Trust.Unpaired — two boards without a chain key, joined by a wire.

  Each runs its main loop; what its link puts on the joined port travels to the other
  byte by byte, and none is lost (`Wired`). Bytes come from the wire alone.

  Proved, for every run (`unpaired_boards_stay_apart`): the wire stays empty in both
  directions, whatever offer or confirmation the machines ask for, and the boards never
  come to hold the same key. The link refuses to send without a key (`emitFrame`), and
  pairing is how a board comes by one.
-/

import DeskHop.Lib.Reach
import DeskHop.Trust.MainLoop

namespace DeskHop.Trust

open DeskHop.Lib DeskHop.Wire

/-- The bytes on their way from the left board to the right one, and back. -/
structure Wired where
  left : Board
  right : Board
  leftPort : Port
  rightPort : Port
  toRight : List Byte
  toLeft : List Byte
  deriving DecidableEq

/-- What the link has put on a port. -/
def outbound (l : Link) (p : Port) : List Byte := (l.wire.filter (·.1 = p)).flatMap (·.2)

/-- The transmit callback has passed everything on. -/
def Node.flushed {π : Type} (n : Node π) : Node π := { n with link := { n.link with wire := [] } }

namespace Wired

inductive Event where
  | left (e : Board.Event)
  | right (e : Board.Event)
  /-- The next byte arrives. -/
  | atLeft (now : Time)
  | atRight (now : Time)

variable (c : Crypto)

def setLeft (w : Wired) (b : Board) : Wired :=
  { w with left := b.flushed, toRight := w.toRight ++ outbound b.link w.leftPort }

def setRight (w : Wired) (b : Board) : Wired :=
  { w with right := b.flushed, toLeft := w.toLeft ++ outbound b.link w.rightPort }

def step (w : Wired) : Event → Wired
  | .left e => w.setLeft (Board.act c w.left e)
  | .right e => w.setRight (Board.act c w.right e)
  | .atLeft now =>
    match w.toLeft with
    | [] => w
    | b :: rest => { w with toLeft := rest }.setLeft (w.left.rxByte c w.leftPort b now)
  | .atRight now =>
    match w.toRight with
    | [] => w
    | b :: rest => { w with toRight := rest }.setRight (w.right.rxByte c w.rightPort b now)

/-- No board has a key stored. -/
def Unpaired (w : Wired) : Prop :=
  ∃ self self' uid uid' panel panel' p p', w =
    ⟨Node.boot self uid none panel, Node.boot self' uid' none panel', p, p', [], []⟩

/-- A board is given no byte but by the wire. -/
def WireOnly (_ : Wired) : Event → Prop
  | .left (.common (.byte _ _ _)) | .right (.common (.byte _ _ _)) => False
  | _ => True

instance (w : Wired) (e : Event) : Decidable (WireOnly w e) := by
  unfold WireOnly
  split <;> infer_instance

/-- Both machines have begun, each while the other's window was open. -/
def Begun (w : Wired) : Prop :=
  w.left.pair.state ≠ .idle ∧ w.right.pair.state ≠ .idle ∧ windowOpen w.left.pair w.right.pair.tStarted = true ∧
    windowOpen w.right.pair w.left.pair.tStarted = true

/-- Nothing is on the wire, and no machine asks for anything. -/
def Drained (w : Wired) : Prop :=
  w.toRight = [] ∧ w.toLeft = [] ∧ w.left.pair.ev = .clear ∧ w.right.pair.ev = .clear

/-- Both exchanges are done, and both links hold the one key. -/
def Paired (w : Wired) : Prop :=
  w.left.pair.state = .done ∧ w.right.pair.state = .done ∧ w.left.link.hasKey = true ∧ w.right.link.hasKey = true ∧
    w.left.link.key = w.right.link.key

/-- The machine asks for an offer or a confirmation to be sent. -/
def asks (p : Pair) : Bool := p.ev.sendOffer || p.ev.sendConfirm

/-- What either machine asks for, the drain puts on the wire. -/
def Carried (w : Wired) : Prop :=
  ∀ now, (asks w.left.pair = true → (step c w (.left (.drain now))).toRight ≠ w.toRight) ∧
    (asks w.right.pair = true → (step c w (.right (.drain now))).toLeft ≠ w.toLeft)

instance (w : Wired) : Decidable (Begun w) := by unfold Begun; infer_instance
instance (w : Wired) : Decidable (Drained w) := by unfold Drained; infer_instance

end Wired

/-! ## A link without a key -/

theorem emitFrame_unkeyed {l : Link} (hk : l.hasKey = false) (p : Port) (f : Frame) :
    emitFrame l p f = (.state, l) := if_pos (by simp [hk])

theorem linkSend_unkeyed {l : Link} (hk : l.hasKey = false) (type : MsgType) (dst : Addr) (payload : List Byte) :
    (linkSend l type dst payload).1 = .state ∧ (linkSend l type dst payload).2.wire = l.wire := by
  simp [linkSend, emitFrame_unkeyed hk]

theorem sendPair_unkeyed {l : Link} (hk : l.hasKey = false) (payload : List Byte) :
    (sendPair l payload).wire = l.wire := by
  unfold sendPair
  split
  · exact (linkSend_unkeyed hk _ _ _).2
  · rfl

/-- Whatever the machine asks for. -/
theorem answer_unkeyed (c : Crypto) {l : Link} (hk : l.hasKey = false) (p : Pair) (ev : PairEvents) :
    (answer c l p ev).wire = l.wire := by
  have key (b : Bool) (l' : Link) (payload : List Byte) (h : l'.hasKey = false ∧ l'.wire = l.wire) :
      (if b then sendPair l' payload else l').hasKey = false ∧
        (if b then sendPair l' payload else l').wire = l.wire := by
    cases b with
    | false => exact h
    | true => exact ⟨(sendPair_same l' payload).1.trans h.1, (sendPair_unkeyed h.1 payload).trans h.2⟩
  exact (key _ _ _ (key _ _ _ (key _ _ _ ⟨hk, rfl⟩))).2

/-! ## A board without a key -/

/-- No key, nothing said, and nobody met. -/
structure Mute (b : Board) : Prop where
  unkeyed : b.link.hasKey = false
  silent : b.link.wire = []
  alone : b.pair.state = .idle ∨ b.pair.state = .waiting ∨ b.pair.state = .aborted

theorem mute_boot (self : Addr) (uid : Uid) (panel : ErrorLed) : Mute (Node.boot self uid none panel) :=
  ⟨rfl, rfl, Or.inl rfl⟩

theorem Mute.flushed {b : Board} (h : Mute b) : Mute b.flushed := ⟨h.unkeyed, rfl, h.alone⟩

theorem Mute.outbound {b : Board} (h : Mute b) (p : Port) : outbound b.link p = [] := by
  rw [Trust.outbound, h.silent]
  rfl

theorem Mute.not_done {b : Board} (h : Mute b) : b.pair.state ≠ .done := by
  rcases h.alone with h | h | h <;> simp [h]

theorem Mute.drain (c : Crypto) {b : Board} (h : Mute b) (now : Time) : Mute (Board.pairingDrain c b now) := by
  have hk := answer_same c b.link (pairTakeEvents b.pair).2 (pairTakeEvents b.pair).1
  have hw := answer_unkeyed c h.unkeyed (pairTakeEvents b.pair).2 (pairTakeEvents b.pair).1
  have hnone : pairChainKey (pairTakeEvents b.pair).2 = none := if_neg h.not_done
  have hlink : (Board.pairingDrain c b now).link =
        answer c b.link (pairTakeEvents b.pair).2 (pairTakeEvents b.pair).1 ∧
      (Board.pairingDrain c b now).pair = (pairTakeEvents b.pair).2 := by
    simp only [Board.pairingDrain]
    by_cases ha : (pairTakeEvents b.pair).1.sendAbort = true <;>
      by_cases hc : (pairTakeEvents b.pair).1.completed = true <;> simp [ha, hc, hnone]
  refine ⟨?_, ?_, ?_⟩
  · rw [hlink.1, hk.1]
    exact h.unkeyed
  · rw [hlink.1, hw]
    exact h.silent
  · rw [hlink.2]
    exact h.alone

/-- Without a byte from outside a board without a key stays as it is. -/
theorem Mute.act (c : Crypto) {b : Board} (h : Mute b) {e : Board.Event} (he : ∀ p x now, e ≠ .common (.byte p x now)) :
    Mute (Board.act c b e) := by
  cases e with
  | drain now => exact h.drain c now
  | unpairButton now => exact ⟨rfl, h.silent, Or.inl rfl⟩
  | pairButton now fresh =>
    simp only [Board.act, Board.pairButton]
    split
    · exact ⟨h.unkeyed, h.silent, Or.inr (Or.inl rfl)⟩
    · exact h
  | common e =>
    cases e with
    | byte p x now => exact absurd rfl (he p x now)
    | tick now =>
      have hp : (pairTick b.pair now).state = .idle ∨ (pairTick b.pair now).state = .waiting ∨
          (pairTick b.pair now).state = .aborted := by
        rcases pairTick_cases b.pair now with hp | hp
        · exact Or.inr (Or.inr hp)
        · rw [hp]
          exact h.alone
      exact ⟨h.unkeyed, h.silent, hp⟩
    | send type dst payload =>
      exact ⟨(linkSend_same _ _ _ _).1.trans h.unkeyed, (linkSend_unkeyed h.unkeyed _ _ _).2.trans h.silent, h.alone⟩
    | linkTick now => exact ⟨(linkTick_same _ _).1.trans h.unkeyed, (linkTick_wire _ _).trans h.silent, h.alone⟩

/-! ## Both boards -/

namespace Wired

structure Inv (w : Wired) : Prop where
  left : Mute w.left
  right : Mute w.right
  toRight : w.toRight = []
  toLeft : w.toLeft = []

theorem unpaired_inv {w : Wired} (h : Unpaired w) : Inv w := by
  obtain ⟨self, self', uid, uid', panel, panel', p, p', rfl⟩ := h
  exact ⟨mute_boot _ _ _, mute_boot _ _ _, rfl, rfl⟩

theorem Inv.setLeft {w : Wired} (hi : Inv w) {b : Board} (hb : Mute b) : Inv (w.setLeft b) :=
  ⟨hb.flushed, hi.right, by rw [Wired.setLeft, hi.toRight, hb.outbound]; rfl, hi.toLeft⟩

theorem Inv.setRight {w : Wired} (hi : Inv w) {b : Board} (hb : Mute b) : Inv (w.setRight b) :=
  ⟨hi.left, hb.flushed, hi.toRight, by rw [Wired.setRight, hi.toLeft, hb.outbound]; rfl⟩

theorem step_inv (c : Crypto) {w : Wired} (hi : Inv w) {e : Event} (hok : WireOnly w e) : Inv (step c w e) := by
  cases e with
  | left e =>
    refine hi.setLeft (hi.left.act c ?_)
    rintro p x now rfl
    exact hok
  | right e =>
    refine hi.setRight (hi.right.act c ?_)
    rintro p x now rfl
    exact hok
  | atLeft now =>
    simp only [step, hi.toLeft]
    exact hi
  | atRight now =>
    simp only [step, hi.toRight]
    exact hi

/-- Two boards without a key never say a word to each other: what their machines ask for
    is not put on the wire, and with the wire empty they are not paired. -/
theorem unpaired_boards_stay_apart (c : Crypto) {w : Wired} (h : Reach Unpaired WireOnly (step c) w) :
    w.toRight = [] ∧ w.toLeft = [] ∧ ¬ Paired w ∧
      (asks w.left.pair = true ∨ asks w.right.pair = true → ¬ Carried c w) := by
  have inv {w : Wired} (h : Reach Unpaired WireOnly (step c) w) : Inv w :=
    h.inv (fun _ => unpaired_inv) fun _ _ hi hok => step_inv c hi hok
  have hi := inv h
  refine ⟨hi.toRight, hi.toLeft, fun hp => hi.left.not_done hp.1, fun hasks hc => ?_⟩
  -- a drain leads to a state of the run again, with the wire still empty
  rcases hasks with ha | ha
  · have hnext := inv (h.step (.left (.drain 0)) (by trivial))
    exact (hc 0).1 ha (hnext.toRight.trans hi.toRight.symm)
  · have hnext := inv (h.step (.right (.drain 0)) (by trivial))
    exact (hc 0).2 ha (hnext.toLeft.trans hi.toLeft.symm)

/-! ## Two buttons -/

def sampleWired : Wired := ⟨Node.boot 1 0x1111 none ⟨0, false⟩, Node.boot 2 0x2222 none ⟨0, false⟩, .down, .up, [], []⟩

theorem sampleWired_unpaired : Unpaired sampleWired :=
  ⟨1, 2, 0x1111, 0x2222, ⟨0, false⟩, ⟨0, false⟩, .down, .up, rfl⟩

def bothButtons : List Event :=
  [.left (.pairButton 1000 (mockFresh 1)), .left (.drain 1000), .right (.pairButton 1000 (mockFresh 2)),
    .right (.drain 1000)]

theorem both_buttons_do_not_pair : ¬ ∀ (c : Crypto) (w : Wired), Reach Unpaired WireOnly (step c) w →
    Carried c w ∧ (Begun w → Drained w → Paired w) := by
  intro h
  have hr : Reach Unpaired WireOnly (step mockCrypto) (bothButtons.foldl (step mockCrypto) sampleWired) :=
    Reach.run (.init sampleWired_unpaired) bothButtons (by decide +kernel)
  have hp := (h mockCrypto _ hr).2 (by decide +kernel) (by decide +kernel)
  have hw : (bothButtons.foldl (step mockCrypto) sampleWired).left.pair.state = .waiting := by decide +kernel
  exact absurd (hw.symm.trans hp.1) (by decide)

theorem unpaired_boards_stay_apart_after_both_buttons : ¬ Paired (bothButtons.foldl (step mockCrypto) sampleWired) :=
  (unpaired_boards_stay_apart mockCrypto
    (Reach.run (.init sampleWired_unpaired) bothButtons (by decide +kernel))).2.2.1

end Wired

end DeskHop.Trust
