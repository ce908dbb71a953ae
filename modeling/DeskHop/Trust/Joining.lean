/-
  DeskHop.Trust.Joining — a member of a keyed chain pairs with a new board.

  A chain of boards that hold one key, of which one (`a`) pairs with a board that is
  new (`b`); the others run on, but nobody presses a button there (`Joining`). A pairing
  message reaches either board on a frame of its own port, or is handed to it: a board
  without a key cannot send a frame. Beside the boards the state records the exchange the
  two of them are in, as one between two machines (`Meeting`).

  Proved, for every run (`joining_inv`): the recorded exchange is one that two machines
  run, and a board whose exchange is completed and drained holds the key of it on its
  link. The other boards hold the old key still (`joined_keys`). So the chain ends with
  one key exactly when the member was the only board of it, or the exchange has derived
  the old key once more (`unsplit_iff`); a third board is left out (`third_board_left_out`).
-/

import DeskHop.Trust.Agreement
import DeskHop.Trust.Revoke
import DeskHop.Wire.RoundTrip

namespace DeskHop.Trust

open DeskHop.Lib DeskHop.Wire

structure Joining (n : Nat) where
  /-- `a` is the member, `b` the new board. -/
  board : Party → Board
  /-- The rest of the chain. -/
  others : Fin n → Board
  meeting : Meeting

namespace Joining

inductive Event (n : Nat) where
  | act (x : Party) (e : Board.Event)
  /-- A pairing message is handed to `x`. -/
  | hear (x : Party) (payload : List Byte) (now : Time)
  | other (i : Fin n) (e : Board.Event)

/-- What an iteration of the main loop of `x` does to the exchange. -/
def moves (x : Party) (b : Board) : Board.Event → List Meeting.Event
  | .common (.byte p byte now) => (b.pairing p byte now).toList.map fun m => .rx x m now
  | .common (.tick now) => [.tick x now]
  | .common (.send ..) | .common (.linkTick _) => []
  | .drain _ =>
    .takeEvents x :: ((if b.pair.ev.sendOffer then [.buildOffer x pairBuf] else []) ++
      (if b.pair.ev.sendConfirm then [.buildConfirm x pairBuf] else []) ++
      if b.pair.ev.sendAbort then [.buildAbort x pairBuf] else [])
  | .pairButton now fresh => if b.pair.state ≠ .waiting then [.begin x now 30000 fresh] else []
  | .unpairButton _ => []

variable {n : Nat} (c : Crypto)

def step (j : Joining n) : Event n → Joining n
  | .act x e =>
    { j with
      board := Function.update j.board x (Board.act c (j.board x) e)
      meeting := (moves x (j.board x) e).foldl (Meeting.step c) j.meeting }
  | .hear x payload now =>
    { j with
      board := Function.update j.board x { j.board x with pair := pairRx c (j.board x).pair payload now }
      meeting := j.meeting.step c (.rx x payload now) }
  | .other i e => { j with others := Function.update j.others i (Board.act c (j.others i) e) }

/-- All but the new board hold the key of the chain; nobody is pairing. -/
def Start (uid : Party → Uid) (key : Key) (j : Joining n) : Prop :=
  Meeting.Start uid j.meeting ∧ (∀ x, (j.board x).pair = pairInit (uid x)) ∧
    ((j.board .a).link.hasKey = true ∧ (j.board .a).link.key = key) ∧
    ∀ i, (j.others i).link.hasKey = true ∧ (j.others i).link.key = key ∧ ∃ u, (j.others i).pair = pairInit u

/-- The two boards hear of the exchange only what either of them has built, and draw new
    keys for it; nobody else presses a button, and nobody revokes. -/
def Allowed (made : Bytes dhBytes → Bytes dhBytes → Prop) (j : Joining n) : Event n → Prop
  | .act _ (.unpairButton _) => False
  | .act x e => Reach.Admitted (Meeting.Honest made) (Meeting.step c) j.meeting (moves x (j.board x) e)
  | .hear _ payload _ => payload ∈ j.meeting.sent
  | .other _ (.common _) | .other _ (.drain _) => True
  | .other _ (.pairButton ..) | .other _ (.unpairButton _) => False

instance (made : Bytes dhBytes → Bytes dhBytes → Prop) [∀ k p, Decidable (made k p)] (j : Joining n) (e : Event n) :
    Decidable (Allowed c made j e) :=
  match e with
  | .act _ (.unpairButton _) => inferInstanceAs (Decidable False)
  | .act x (.common e) =>
    inferInstanceAs (Decidable (Reach.Admitted _ (Meeting.step c) j.meeting (moves x (j.board x) (.common e))))
  | .act x (.drain now) =>
    inferInstanceAs (Decidable (Reach.Admitted _ (Meeting.step c) j.meeting (moves x (j.board x) (.drain now))))
  | .act x (.pairButton now fresh) =>
    inferInstanceAs (Decidable (Reach.Admitted _ (Meeting.step c) j.meeting (moves x (j.board x) (.pairButton now fresh))))
  | .hear _ payload _ => inferInstanceAs (Decidable (payload ∈ j.meeting.sent))
  | .other _ (.common _) | .other _ (.drain _) => inferInstanceAs (Decidable True)
  | .other _ (.pairButton ..) | .other _ (.unpairButton _) => inferInstanceAs (Decidable False)

/-- Both exchanges are completed, and drained. -/
def Joined (j : Joining n) : Prop := ∀ x, (j.board x).installed = true

/-- All the links hold one key. -/
def OneKey (j : Joining n) : Prop :=
  ∃ key, (∀ x, (j.board x).link.hasKey = true ∧ (j.board x).link.key = key) ∧
    ∀ i, (j.others i).link.hasKey = true ∧ (j.others i).link.key = key

/-- A frame under the key of `l`, on whichever hop, is let through by the decoder of `l'`,
    whatever that was doing. -/
def Understands (l' l : Link) : Prop :=
  ∀ f : Frame, f.type ≤ 0x0F → f.payload.length ≤ maxPayload → ∀ fr : Framer,
    (feed (if l'.hasKey then some l'.key else none) fr (onWire f l.key)).2.getLast? = some (.ok (decoded f l.key))

/-- The links of the chain, the new board's among them. -/
def Member (j : Joining n) (l : Link) : Prop := (∃ x, l = (j.board x).link) ∨ ∃ i, l = (j.others i).link

/-- Adding the board has not split the chain. -/
structure Unsplit (j : Joining n) : Prop where
  oneKey : OneKey j
  understood : ∀ l, Member j l → ∀ l', Member j l' → Understands l' l

variable {c} {uid : Party → Uid} {key : Key} {made : Bytes dhBytes → Bytes dhBytes → Prop} {j : Joining n}

/-! ## The exchange that is recorded -/

/-- The two machines of the recorded exchange are those of the boards. -/
def Recorded (j : Joining n) : Prop := ∀ x, (j.board x).pair = j.meeting.pair x

/-- The payloads a drain builds leave the machines as they are. -/
theorem built_pair (s : Meeting) (x : Party) (ev : PairEvents) :
    (((if ev.sendOffer then [Meeting.Event.buildOffer x pairBuf] else []) ++
      (if ev.sendConfirm then [Meeting.Event.buildConfirm x pairBuf] else []) ++
      if ev.sendAbort then [Meeting.Event.buildAbort x pairBuf] else []).foldl (Meeting.step c) s).pair = s.pair := by
  cases ev.sendOffer <;> cases ev.sendConfirm <;> cases ev.sendAbort <;> rfl

/-- An iteration of the loop of `x` moves the machine of `x` in the exchange, and only that. -/
theorem act_moves (x : Party) (b : Board) (s : Meeting) (h : b.pair = s.pair x) {e : Board.Event}
    (hun : ∀ now, e ≠ .unpairButton now) :
    ((moves x b e).foldl (Meeting.step c) s).pair = Function.update s.pair x (Board.act c b e).pair := by
  have hsame : s.pair = Function.update s.pair x b.pair := by rw [h, Function.update_eq_self]
  cases e with
  | common e =>
    cases e with
    | byte p byte now =>
      simp only [moves, Node.pairing, Board.act, Node.step, Node.rxByte]
      cases linkRxByte b.link p byte now with
      | mk link r =>
        cases r with
        | error err => exact hsame
        | ok f =>
          by_cases ht : f.type = msgPair
          · simp only [ht, if_true]
            rw [h]
            rfl
          · simp only [ht, if_false]
            exact hsame
    | tick now =>
      show Function.update s.pair x (pairTick (s.pair x) now) = Function.update s.pair x (pairTick b.pair now)
      rw [h]
    | send type dst payload => exact hsame
    | linkTick now => exact hsame
  | drain now =>
    rw [moves, List.foldl_cons, built_pair]
    show Function.update s.pair x (pairTakeEvents (s.pair x)).2 = _
    rw [Board.act, Board.pairingDrain_pair, h]
  | pairButton now fresh =>
    rw [moves, Board.act, Board.pairButton]
    by_cases hw : b.pair.state ≠ .waiting
    · rw [if_pos hw, if_pos hw]
      show Function.update s.pair x (pairBegin (s.pair x) now 30000 fresh) =
        Function.update s.pair x (pairBegin b.pair now 30000 fresh)
      rw [h]
    · rw [if_neg hw, if_neg hw]
      exact hsame
  | unpairButton now => exact absurd rfl (hun now)

/-! ## The key on the link -/

/-- A board whose exchange is completed and drained has its key on the link. -/
def Keyed (b : Board) : Prop := b.installed = true → b.link.hasKey = true ∧ b.link.key = b.pair.chainKey

theorem installed_iff {b : Board} : b.installed = true ↔ b.pair.state = .done ∧ b.pair.ev.completed = false := by
  simp [Node.installed]

/-- A message completes an exchange with the event that says so. -/
theorem pairRx_completed {p : Pair} {m : List Byte} {now : Time} (hp : p.state ≠ .done)
    (h : (pairRx c p m now).state = .done) : (pairRx c p m now).ev.completed = true := by
  cases pairRx_effect c p m now with
  | rests _ hs => exact absurd (hs.symm.trans h) hp
  | meets _ _ _ _ _ hs => exact absurd (hs.symm.trans h) (by decide)
  | aborts _ hw => exact absurd (hw.state.symm.trans h) (by decide)
  | completes o _ hw _ _ hc =>
    have hne : m ≠ [] := List.ne_nil_of_length_pos (Nat.lt_of_lt_of_le (by decide) hc.length)
    have hlen : ¬ (m.length < 1 || p.state == .idle || p.state == .aborted) = true := by simp [hw, hne]
    unfold pairRx at h ⊢
    rw [if_neg hlen, if_neg (by rw [hc.type]; decide), if_pos hc.type] at h ⊢
    unfold rxConfirm at h ⊢
    split
    · rename_i h1
      rw [if_pos h1] at h
      exact absurd h hp
    rename_i h1
    rw [if_neg h1] at h
    split
    · rename_i h2
      rw [if_pos h2] at h
      exact absurd h hp
    rename_i h2
    rw [if_neg h2] at h
    split
    · rename_i h3
      rw [if_pos h3] at h
      exact absurd ((abortWith_state p .badConfirm).symm.trans h) (by decide)
    · simp only [hw, if_true]

/-- A message leaves an installed key with its exchange, or ends that. -/
theorem pairRx_installed {p : Pair} {m : List Byte} {now : Time} (hs : (pairRx c p m now).state = .done)
    (hc : (pairRx c p m now).ev.completed = false) :
    p.state = .done ∧ p.ev.completed = false ∧ (pairRx c p m now).chainKey = p.chainKey := by
  by_cases hp : p.state = .done
  · cases ht : tearsDown p m now with
    | true => exact absurd ((pairRx_tornDown c hp ht).symm.trans hs) (by decide)
    | false =>
      obtain ⟨confirmed, hd⟩ := pairRx_done c hp ht
      rw [hd] at hc ⊢
      exact ⟨hp, hc, rfl⟩
  · exact absurd ((pairRx_completed hp hs).symm.trans hc) (by decide)

theorem keyed_rx {b : Board} (h : Keyed b) (m : List Byte) (now : Time) : Keyed { b with pair := pairRx c b.pair m now } := by
  intro hi
  obtain ⟨hs, hc⟩ := installed_iff.mp hi
  obtain ⟨h1, h2, h3⟩ := pairRx_installed hs hc
  obtain ⟨h4, h5⟩ := h (installed_iff.mpr ⟨h1, h2⟩)
  exact ⟨h4, h5.trans h3.symm⟩

/-- The link may change, but for its key. -/
theorem Keyed.congr {b b' : Board} (h : Keyed b) (hp : b'.pair = b.pair)
    (hl : b'.link.hasKey = b.link.hasKey ∧ b'.link.key = b.link.key) : Keyed b' := by
  intro hi
  rw [Node.installed, hp] at hi
  rw [hl.1, hl.2, hp]
  exact h hi

theorem keyed_drain {b : Board} (h : Keyed b) (now : Time) : Keyed (Board.pairingDrain c b now) := by
  have hlink := answer_same c b.link (pairTakeEvents b.pair).2 (pairTakeEvents b.pair).1
  intro hi
  have hs : b.pair.state = .done := by
    have := (installed_iff.mp hi).1
    rwa [Board.pairingDrain_pair] at this
  have hkey : pairChainKey (pairTakeEvents b.pair).2 = some b.pair.chainKey := if_pos hs
  by_cases hc : b.pair.ev.completed = true
  · have hset : (Board.pairingDrain c b now).link =
        linkSetKey (answer c b.link (pairTakeEvents b.pair).2 (pairTakeEvents b.pair).1) b.pair.chainKey := by
      have hc' : (pairTakeEvents b.pair).1.completed = true := hc
      simp only [Board.pairingDrain, hc', if_true]
      by_cases ha : (pairTakeEvents b.pair).1.sendAbort = true <;> simp [ha, hkey]
    rw [hset, Board.pairingDrain_pair]
    exact ⟨rfl, rfl⟩
  · rw [Bool.not_eq_true] at hc
    have hkept : (Board.pairingDrain c b now).link = answer c b.link (pairTakeEvents b.pair).2 (pairTakeEvents b.pair).1 := by
      have hc' : (pairTakeEvents b.pair).1.completed = false := hc
      simp only [Board.pairingDrain, hc', Bool.false_eq_true, if_false]
      by_cases ha : (pairTakeEvents b.pair).1.sendAbort = true <;> simp [ha]
    have hold := h (installed_iff.mpr ⟨hs, hc⟩)
    rw [hkept, hlink.1, hlink.2, Board.pairingDrain_pair]
    exact hold

theorem keyed_act {b : Board} (h : Keyed b) {e : Board.Event} (hun : ∀ now, e ≠ .unpairButton now) :
    Keyed (Board.act c b e) := by
  cases e with
  | common e =>
    cases e with
    | byte p byte now =>
      have hl := linkRxByte_same b.link p byte now
      simp only [Board.act, Node.step, Node.rxByte]
      split
      · exact h.congr rfl ⟨hl.1, hl.2.1⟩
      · split
        · exact keyed_rx (b := { b with link := (linkRxByte b.link p byte now).1 }) (h.congr rfl ⟨hl.1, hl.2.1⟩) _ now
        · exact h.congr rfl ⟨hl.1, hl.2.1⟩
    | tick now =>
      intro hi
      simp only [Board.act, Node.step, Node.tick] at hi ⊢
      rcases pairTick_cases b.pair now with ht | ht
      · have hs := (installed_iff.mp hi).1
        exact absurd (ht.symm.trans hs) (by decide)
      · rw [ht] at hi ⊢
        exact h hi
    | send type dst payload => exact h.congr rfl ⟨(linkSend_same ..).1, (linkSend_same ..).2.1⟩
    | linkTick now => exact h.congr rfl ⟨(linkTick_same ..).1, (linkTick_same ..).2.1⟩
  | drain now => exact keyed_drain h now
  | pairButton now fresh =>
    rw [Board.act, Board.pairButton]
    split
    · intro hi
      exact absurd (installed_iff.mp hi).1 (by decide : PairState.waiting ≠ .done)
    · exact h
  | unpairButton now => exact absurd rfl (hun now)

/-! ## Every run -/

/-- A board that nobody is pairing. -/
def Idle (b : Board) : Prop := ∃ u, b.pair = pairInit u

theorem idle_act {b : Board} (h : Idle b) {e : Board.Event} (he : (∃ e', e = .common e') ∨ ∃ now, e = .drain now) :
    Idle (Board.act c b e) ∧ (Board.act c b e).link.hasKey = b.link.hasKey ∧ (Board.act c b e).link.key = b.link.key := by
  obtain ⟨u, hu⟩ := h
  rcases he with ⟨e, rfl⟩ | ⟨now, rfl⟩
  · have hcred := Node.step_credentials c b e
    refine ⟨⟨u, ?_⟩, congrArg Credentials.hasKey hcred, congrArg Credentials.key hcred⟩
    cases e with
    | byte p byte now =>
      simp only [Board.act, Node.step, Node.rxByte]
      split
      · exact hu
      · split
        · show pairRx c b.pair _ now = pairInit u
          rw [hu]
          exact if_pos (by simp [pairInit])
        · exact hu
    | tick now =>
      show pairTick b.pair now = pairInit u
      rw [hu]
      exact if_pos (by simp [pairInit])
    | send type dst payload => exact hu
    | linkTick now => exact hu
  · have hcred := Board.pairingDrain_credentials c (b := b) (by rw [hu]; intro h; cases h) now
    refine ⟨⟨u, ?_⟩, congrArg Credentials.hasKey hcred, congrArg Credentials.key hcred⟩
    show (Board.pairingDrain c b now).pair = _
    rw [Board.pairingDrain_pair, hu]
    rfl

structure Inv (c : Crypto) (uid : Party → Uid) (key : Key) (made : Bytes dhBytes → Bytes dhBytes → Prop)
    (j : Joining n) : Prop where
  /-- The recorded exchange is one that two machines run. -/
  met : Reach (Meeting.Start uid) (Meeting.Honest made) (Meeting.step c) j.meeting
  recorded : Recorded j
  keyed : ∀ x, Keyed (j.board x)
  idle : ∀ i, Idle (j.others i)
  /-- Who is not pairing keeps the old key. -/
  old : ∀ i, (j.others i).link.hasKey = true ∧ (j.others i).link.key = key

theorem start_inv (h : Start uid key j) : Inv c uid key made j := by
  obtain ⟨hm, hp, -, ho⟩ := h
  refine ⟨.init hm, fun x => ?_, fun x hi => ?_, fun i => (ho i).2.2, fun i => ⟨(ho i).1, (ho i).2.1⟩⟩
  · rw [hp x, show j.meeting = _ from hm]
  · rw [installed_iff, hp x] at hi
    cases hi.1

/-- An iteration of the loop of one of the two. -/
theorem act_inv (hi : Inv c uid key made j) {x : Party} {e : Board.Event} (hun : ∀ now, e ≠ .unpairButton now)
    (ho : Reach.Admitted (Meeting.Honest made) (Meeting.step c) j.meeting (moves x (j.board x) e)) :
    Inv c uid key made (j.step c (.act x e)) := by
  have hpair := act_moves (c := c) x (j.board x) j.meeting (hi.recorded x) hun
  refine ⟨hi.met.run _ ho, fun y => ?_, fun y => ?_, hi.idle, hi.old⟩
  · show (Function.update j.board x (Board.act c (j.board x) e) y).pair =
      ((moves x (j.board x) e).foldl (Meeting.step c) j.meeting).pair y
    rw [hpair]
    by_cases hy : y = x
    · subst hy
      rw [Function.update_self, Function.update_self]
    · rw [Function.update_of_ne hy, Function.update_of_ne hy]
      exact hi.recorded y
  · show Keyed (Function.update j.board x (Board.act c (j.board x) e) y)
    by_cases hy : y = x
    · subst hy
      rw [Function.update_self]
      exact keyed_act (hi.keyed y) hun
    · rw [Function.update_of_ne hy]
      exact hi.keyed y

theorem hear_inv (hi : Inv c uid key made j) {x : Party} {m : List Byte} (hm : m ∈ j.meeting.sent) (now : Time) :
    Inv c uid key made (j.step c (.hear x m now)) := by
  refine ⟨hi.met.step (Meeting.Event.rx x m now) hm, fun y => ?_, fun y => ?_, hi.idle, hi.old⟩
  · show (Function.update j.board x _ y).pair = Function.update j.meeting.pair x (pairRx c (j.meeting.pair x) m now) y
    by_cases hy : y = x
    · subst hy
      rw [Function.update_self, Function.update_self, ← hi.recorded y]
    · rw [Function.update_of_ne hy, Function.update_of_ne hy]
      exact hi.recorded y
  · show Keyed (Function.update j.board x _ y)
    by_cases hy : y = x
    · subst hy
      rw [Function.update_self]
      exact keyed_rx (hi.keyed y) m now
    · rw [Function.update_of_ne hy]
      exact hi.keyed y

theorem other_inv (hi : Inv c uid key made j) (i : Fin n) {e : Board.Event}
    (he : (∃ e', e = .common e') ∨ ∃ now, e = .drain now) : Inv c uid key made (j.step c (.other i e)) := by
  obtain ⟨h1, h2, h3⟩ := idle_act (c := c) (hi.idle i) he
  refine ⟨hi.met, hi.recorded, hi.keyed, fun k => ?_, fun k => ?_⟩
  · show Idle (Function.update j.others i (Board.act c (j.others i) e) k)
    by_cases hk : k = i
    · subst hk
      rw [Function.update_self]
      exact h1
    · rw [Function.update_of_ne hk]
      exact hi.idle k
  · show (Function.update j.others i (Board.act c (j.others i) e) k).link.hasKey = true ∧
      (Function.update j.others i (Board.act c (j.others i) e) k).link.key = key
    by_cases hk : k = i
    · subst hk
      rw [Function.update_self, h2, h3]
      exact hi.old k
    · rw [Function.update_of_ne hk]
      exact hi.old k

theorem step_inv (hi : Inv c uid key made j) (e : Event n) (ho : Allowed c made j e) : Inv c uid key made (j.step c e) := by
  cases e with
  | act x e =>
    cases e with
    | common e => exact act_inv hi (fun _ h => by cases h) ho
    | drain now => exact act_inv hi (fun _ h => by cases h) ho
    | pairButton now fresh => exact act_inv hi (fun _ h => by cases h) ho
    | unpairButton now => exact ho.elim
  | hear x m now => exact hear_inv hi ho now
  | other i e =>
    cases e with
    | common e => exact other_inv hi i (Or.inl ⟨e, rfl⟩)
    | drain now => exact other_inv hi i (Or.inr ⟨now, rfl⟩)
    | pairButton now fresh => exact ho.elim
    | unpairButton now => exact ho.elim

theorem joining_inv (h : Reach (Start uid key) (Allowed c made) (step c) j) : Inv c uid key made j :=
  h.inv (fun _ => start_inv) fun _ e hi ho => step_inv hi e ho

/-! ## One key -/

theorem understands_of_eq {l l' : Link} (hk : l'.hasKey = true) (h : l'.key = l.key) : Understands l' l := by
  intro f ht hp fr
  rw [if_pos hk, h, (feed_onWire fr l.key ht hp).2, List.getLast?_concat]

theorem OneKey.unsplit (h : OneKey j) : Unsplit j := by
  obtain ⟨key, hboard, hothers⟩ := id h
  have hall : ∀ l, Member j l → l.hasKey = true ∧ l.key = key := by
    rintro l (⟨x, rfl⟩ | ⟨i, rfl⟩)
    · exact hboard x
    · exact hothers i
  exact ⟨h, fun l hl l' hl' => understands_of_eq (hall l' hl').1 ((hall l' hl').2.trans (hall l hl).2.symm)⟩

/-- Once the exchange is completed and drained on both boards, the two hold the key that
    their offers derive, and every other board of the chain the old one. -/
theorem joined_keys (hdh : ∀ s p s' p', made s p → made s' p' → c.dhShared s p' = c.dhShared s' p)
    (huid : uid .a ≠ uid .b) (hi : Inv c uid key made j) (hcol : Meeting.NoCollision c j.meeting) (hj : Joined j) :
    ∃ shared, c.dhShared (j.meeting.cur .a).secret (j.meeting.cur .b).own.publicKey = some shared ∧
      (∀ x, (j.board x).link.hasKey = true ∧
        (j.board x).link.key = c.kdf 16 shared (keyInfo (j.meeting.cur .a).own (j.meeting.cur .b).own)) ∧
      ∀ i, (j.others i).link.hasKey = true ∧ (j.others i).link.key = key := by
  have hdone : ∀ x, (j.meeting.pair x).state = .done := fun x => by
    rw [← hi.recorded x]
    exact (installed_iff.mp (hj x)).1
  have hm := meeting_inv hi.met
  obtain ⟨shared, hs, hda, hdb⟩ := both_derived hdh hm hcol (hdone .a) (hdone .b)
  refine ⟨shared, hs, fun x => ?_, hi.old⟩
  obtain ⟨h1, h2⟩ := hi.keyed x (hj x)
  refine ⟨h1, h2.trans ?_⟩
  rw [hi.recorded x]
  cases x with
  | a => exact hda.chainKey
  | b => rw [hdb.chainKey, keyInfo, keyInfo, one_transcript huid hm]

end Joining

open Joining

/-- Adding a board leaves the chain whole exactly when the member it paired with was all
    of the chain, or the two offers derive the key the chain had. -/
theorem unsplit_iff {c : Crypto} {made : Bytes dhBytes → Bytes dhBytes → Prop}
    (hdh : ∀ s p s' p', made s p → made s' p' → c.dhShared s p' = c.dhShared s' p) {uid : Party → Uid}
    (huid : uid .a ≠ uid .b) {n : Nat} {key : Key} {j : Joining n}
    (h : Reach (Start uid key) (Allowed c made) (Joining.step c) j) (hcol : Meeting.NoCollision c j.meeting)
    (hj : Joined j) :
    ∃ shared, c.dhShared (j.meeting.cur .a).secret (j.meeting.cur .b).own.publicKey = some shared ∧
      (Unsplit j ↔ n = 0 ∨ key = c.kdf 16 shared (keyInfo (j.meeting.cur .a).own (j.meeting.cur .b).own)) := by
  obtain ⟨shared, hs, hpair, hold⟩ := joined_keys hdh huid (joining_inv h) hcol hj
  refine ⟨shared, hs, fun hu => ?_, fun hc => OneKey.unsplit ?_⟩
  · obtain ⟨k, h1, h2⟩ := hu.oneKey
    rcases Nat.eq_zero_or_pos n with hn | hn
    · exact Or.inl hn
    · refine Or.inr ?_
      rw [← (hold ⟨0, hn⟩).2, (h2 ⟨0, hn⟩).2, ← (h1 .a).2, (hpair .a).2]
  · refine ⟨_, hpair, fun i => ?_⟩
    rcases hc with rfl | hc
    · exact i.elim0
    · exact ⟨(hold i).1, (hold i).2.trans hc⟩

/-! ## A third board -/

def plainKey : Key := ⟨List.replicate 16 9, List.length_replicate⟩

/-- A board of the chain, and one that is new. -/
def plainBoard : Party → Board
  | .a => Node.boot 1 (plainUid .a) (some plainKey) ⟨0, false⟩
  | .b => Node.boot 2 (plainUid .b) none ⟨0, false⟩

/-- A chain of the one board and `n` more, and a new board. -/
def plainChain (n : Nat) : Joining n :=
  ⟨plainBoard, fun i => Node.boot (UInt16.ofNat (3 + i.val)) (UInt64.ofNat (0x3333 + i.val)) (some plainKey) ⟨0, false⟩,
    plainStart⟩

theorem plainChain_start (n : Nat) : Start plainUid plainKey (plainChain n) :=
  ⟨rfl, fun x => by cases x <;> rfl, ⟨rfl, rfl⟩, fun i => ⟨rfl, rfl, _, rfl⟩⟩

/-- Both buttons are pressed, and each board hears what the other has to say. -/
def plainJoin (n : Nat) : List (Joining.Event n) :=
  let offerA := pairBuildOffer (plainBegun .a 1) 64
  let offerB := pairBuildOffer (plainBegun .b 2) 64
  [.act .a (.pairButton 1000 (plainFresh 1)), .act .b (.pairButton 1000 (plainFresh 2)), .act .a (.drain 1000),
   .act .b (.drain 1000), .hear .b offerA 1000, .hear .a offerB 1000, .act .a (.drain 1000), .act .b (.drain 1000),
   .hear .a (plainConfirm .b 2 offerA) 1500, .hear .b (plainConfirm .a 1 offerB) 1500, .act .a (.drain 1500),
   .act .b (.drain 1500)]

def plainJoined (n : Nat) : Joining n := (plainJoin n).foldl (Joining.step plainCrypto) (plainChain n)

theorem plainJoined_reached (n : Nat) (h : Reach.Admitted (Allowed plainCrypto (· = ·)) (Joining.step plainCrypto)
    (plainChain n) (plainJoin n)) :
    Reach (Start plainUid plainKey) (Allowed plainCrypto (· = ·)) (Joining.step plainCrypto) (plainJoined n) :=
  Reach.run (.init (plainChain_start n)) (plainJoin n) h

instance (j : Joining n) : Decidable (Joined j) :=
  decidable_of_iff ((j.board .a).installed = true ∧ (j.board .b).installed = true)
    ⟨fun h x => by cases x <;> [exact h.1; exact h.2], fun h => ⟨h .a, h .b⟩⟩

/-- A chain of one. -/
theorem unsplit_of_two : Unsplit (plainJoined 0) := by
  have hr := plainJoined_reached 0 (by decide +kernel)
  have hcol : Meeting.NoCollision plainCrypto (plainJoined 0).meeting := by
    unfold Meeting.NoCollision
    decide +kernel
  obtain ⟨shared, -, h⟩ := unsplit_iff plainCrypto_comm (by decide) hr hcol (by decide +kernel)
  exact h.mpr (Or.inl rfl)

/-- Of a chain of two, one pairs with a new board: the other keeps the key that both had. -/
theorem third_board_left_out :
    ¬ ∀ (c : Crypto) (made : Bytes dhBytes → Bytes dhBytes → Prop),
      (∀ s p s' p', made s p → made s' p' → c.dhShared s p' = c.dhShared s' p) → ∀ uid : Party → Uid, uid .a ≠ uid .b →
      ∀ (n : Nat) (key : Key) (j : Joining n), Reach (Start uid key) (Allowed c made) (Joining.step c) j →
        Meeting.NoCollision c j.meeting → Joined j → Unsplit j := by
  intro h
  have hr := plainJoined_reached 1 (by decide +kernel)
  have hcol : Meeting.NoCollision plainCrypto (plainJoined 1).meeting := by
    unfold Meeting.NoCollision
    decide +kernel
  obtain ⟨key, h1, h2⟩ := (h plainCrypto _ plainCrypto_comm plainUid (by decide) 1 plainKey _ hr hcol (by decide +kernel)).oneKey
  have hkey : ((plainJoined 1).board .a).link.key ≠ ((plainJoined 1).others 0).link.key := by decide +kernel
  exact hkey ((h1 .a).2.trans (h2 0).2.symm)

end DeskHop.Trust
