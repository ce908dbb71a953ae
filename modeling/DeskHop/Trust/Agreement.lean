/-
  DeskHop.Trust.Agreement — two boards that both complete the exchange hold one key.

  Two boards, either of which may begin any number of times, and every payload either of
  them has built (`Meeting`). A payload may be handed to either board at any time, in any
  order, as often as one likes, or never; nothing else is. Beside the machines the state
  records the sessions: what each board offered since each `pairBegin`, whose offer it
  took, and in what order the sessions began; and the inputs of the confirmation tags
  computed so far.

  Assumed of the primitives: the two sides of a Diffie-Hellman exchange get one secret,
  and no two of the tags computed in the run collide. A board never draws the same key
  and nonce twice.

  Proved, for every run (`key_agreement`): while both boards are done, their keys and
  their authentication strings are equal. A board is done only when some session of its
  peer took its offer. Were the two boards done with crossed sessions, each of the two
  sessions would have begun before the other (`crossed`).
-/

import DeskHop.Lib.Reach
import DeskHop.Trust.Payloads
import Mathlib.Logic.Function.Basic

namespace DeskHop.Trust

open DeskHop.Lib DeskHop.Wire

inductive Party where
  | a
  | b
  deriving DecidableEq

/-- What a board draws at one `pairBegin`, and whose offer it takes. -/
structure Session where
  party : Party
  own : Offer
  secret : Bytes dhBytes
  peer : Option Offer
  /-- How many sessions had begun before. -/
  born : Nat
  deriving DecidableEq

/-- The input of a confirmation tag. -/
abbrev TagInput := Bytes dhBytes × List Byte

structure Meeting where
  pair : Party → Pair
  cur : Party → Session
  past : List Session
  /-- Every payload built so far. -/
  sent : List (List Byte)
  /-- The input of every tag computed so far. -/
  asked : List TagInput
  clock : Nat

namespace Meeting

def sessions (s : Meeting) : List Session := s.cur .a :: s.cur .b :: s.past

inductive Event where
  | begin (x : Party) (now : Time) (windowMs : UInt16) (fresh : Fresh)
  | rx (x : Party) (payload : List Byte) (now : Time)
  | tick (x : Party) (now : Time)
  | takeEvents (x : Party)
  | buildOffer (x : Party) (cap : Nat)
  | buildConfirm (x : Party) (cap : Nat)
  | buildAbort (x : Party) (cap : Nat)

/-- The machine of `x` moves to `p`, having computed the tags of `inputs`. -/
def put (s : Meeting) (x : Party) (p : Pair) (inputs : List TagInput) : Meeting :=
  { s with
    pair := Function.update s.pair x p
    cur := Function.update s.cur x { s.cur x with peer := peerOffer p }
    asked := inputs ++ s.asked }

/-- A payload is sent unless it is empty. -/
def post (s : Meeting) (payload : List Byte) (inputs : List TagInput) : Meeting :=
  { s with sent := if payload = [] then s.sent else payload :: s.sent, asked := inputs ++ s.asked }

variable (c : Crypto)

/-- The input of the tag of the board `uid`, in an exchange that has its peer. -/
def tagInput (p : Pair) (uid : Uid) : Option TagInput :=
  (peerOffer p).bind fun o => (c.dhShared p.secret o.publicKey).map fun shared => (shared, tagInfo (ownOffer p) o uid)

def step (s : Meeting) : Event → Meeting
  | .begin x now windowMs fresh =>
    { s with
      pair := Function.update s.pair x (pairBegin (s.pair x) now windowMs fresh)
      cur := Function.update s.cur x ⟨x, ⟨(s.pair x).selfUid, fresh.publicKey, fresh.nonce⟩, fresh.secret, none, s.clock⟩
      past := s.cur x :: s.past
      clock := s.clock + 1 }
  | .rx x payload now =>
    let p := pairRx c (s.pair x) payload now
    s.put x p (if p.state = .confirmWait then (tagInput c p p.peerUid).toList else [])
  | .tick x now => s.put x (pairTick (s.pair x) now) []
  | .takeEvents x => s.put x (pairTakeEvents (s.pair x)).2 []
  | .buildOffer x cap => s.post (pairBuildOffer (s.pair x) cap) []
  | .buildConfirm x cap => s.post (pairBuildConfirm c (s.pair x) cap) (tagInput c (s.pair x) (s.pair x).selfUid).toList
  | .buildAbort x cap => s.post (pairBuildAbort (s.pair x) cap) []

/-- The state before either board has begun: both offer zeroes. -/
def Start (uid : Party → Uid) (s : Meeting) : Prop :=
  s = { pair := fun x => pairInit (uid x)
        cur := fun x => ⟨x, ownOffer (pairInit (uid x)), Bytes.zero _, none, 0⟩
        past := [], sent := [], asked := [], clock := 1 }

/-- What is received was sent, and what is drawn is new: a key pair, with a nonce the
    board has not offered it with before. -/
def Honest (made : Bytes dhBytes → Bytes dhBytes → Prop) (s : Meeting) : Event → Prop
  | .begin x _ _ fresh => made fresh.secret fresh.publicKey ∧
      ∀ σ ∈ s.sessions, σ.own ≠ ⟨(s.pair x).selfUid, fresh.publicKey, fresh.nonce⟩
  | .rx _ payload _ => payload ∈ s.sent
  | _ => True

instance (made : Bytes dhBytes → Bytes dhBytes → Prop) [∀ k p, Decidable (made k p)] (s : Meeting) :
    ∀ e, Decidable (Honest made s e)
  | .begin .. => inferInstanceAs (Decidable (_ ∧ _))
  | .rx .. => inferInstanceAs (Decidable (_ ∈ _))
  | .tick .. | .takeEvents _ | .buildOffer .. | .buildConfirm .. | .buildAbort .. => isTrue trivial

/-- No two of the tags computed collide. -/
def NoCollision (s : Meeting) : Prop :=
  ∀ i ∈ s.asked, ∀ j ∈ s.asked, c.kdf confirmBytes i.1 i.2 = c.kdf confirmBytes j.1 j.2 → i = j

/-! ## The invariant -/

/-- A board of the session `σ` has confirmed that it took the offer `o`. -/
def Confirmed (s : Meeting) (σ : Session) (tag : Bytes confirmBytes) : Prop :=
  ∃ o shared, σ ∈ s.sessions ∧ σ.peer = some o ∧ (shared, tagInfo σ.own o σ.own.uid) ∈ s.asked ∧
    tag = c.kdf confirmBytes shared (tagInfo σ.own o σ.own.uid)

/-- What a payload tells of the sessions. -/
structure Means (s : Meeting) (m : List Byte) : Prop where
  offer : ∀ o, offerOf m = some o → ∃ σ ∈ s.sessions, σ.own = o
  confirm : byteAt m 0 = pairConfirm → ∃ σ, σ.own.uid = get64 m 1 ∧ Confirmed c s σ (slice m 9 confirmBytes)

/-- The machine `p` of the board `x` in its present session `σ`. -/
structure PartyInv (uid : Party → Uid) (made : Bytes dhBytes → Bytes dhBytes → Prop) (s : Meeting) (x : Party)
    (σ : Session) (p : Pair) : Prop where
  party : σ.party = x
  mine : p.selfUid = uid x
  own : σ.own = ownOffer p
  peer : σ.peer = peerOffer p
  secret : p.state ≠ .aborted → p.secret = σ.secret
  begun : p.state ≠ .idle → made σ.secret σ.own.publicKey
  met : p.state = .confirmWait ∨ p.state = .done → ∃ o shared, σ.peer = some o ∧ o.uid ≠ uid x ∧
    c.dhShared σ.secret o.publicKey = some shared ∧ Derived c shared σ.own o p ∧
    (shared, tagInfo σ.own o o.uid) ∈ s.asked
  done : p.state = .done → ∃ o τ, σ.peer = some o ∧ τ.own.uid = o.uid ∧ Confirmed c s τ p.expectConfirm

structure Inv (uid : Party → Uid) (made : Bytes dhBytes → Bytes dhBytes → Prop) (s : Meeting) : Prop where
  party : ∀ x, PartyInv c uid made s x (s.cur x) (s.pair x)
  owned : ∀ σ ∈ s.sessions, σ.own.uid = uid σ.party
  known : ∀ σ ∈ s.sessions, ∀ o, σ.peer = some o → o.uid ≠ uid σ.party ∧ ∃ τ ∈ s.sessions, τ.own = o
  born : ∀ σ ∈ s.sessions, σ.born < s.clock
  /-- Whose offer an old session took had begun before the board's present session. -/
  crossed : ∀ σ ∈ s.past, ∀ o, σ.peer = some o → ∀ τ ∈ s.sessions, τ.own = o → τ.born < (s.cur σ.party).born
  sent : ∀ m ∈ s.sent, Means c s m

variable {c} {uid : Party → Uid} {made : Bytes dhBytes → Bytes dhBytes → Prop} {s : Meeting}

theorem mem_cur (s : Meeting) (x : Party) : s.cur x ∈ s.sessions := by
  cases x
  · exact List.mem_cons_self
  · exact List.mem_cons_of_mem _ List.mem_cons_self

theorem mem_past {σ : Session} (h : σ ∈ s.past) : σ ∈ s.sessions := List.mem_cons_of_mem _ (List.mem_cons_of_mem _ h)

theorem mem_sessions {σ : Session} (h : σ ∈ s.sessions) : (∃ x, σ = s.cur x) ∨ σ ∈ s.past := by
  rcases List.mem_cons.mp h with rfl | h
  · exact Or.inl ⟨.a, rfl⟩
  rcases List.mem_cons.mp h with rfl | h
  · exact Or.inl ⟨.b, rfl⟩
  · exact Or.inr h

/-- Later in a run: a session may have taken an offer since, and more tags may have been
    computed, but nothing is undone. -/
structure Grows (s s' : Meeting) : Prop where
  sessions : ∀ σ ∈ s.sessions, ∃ σ' ∈ s'.sessions, σ'.own = σ.own ∧ ∀ o, σ.peer = some o → σ'.peer = some o
  asked : ∀ i ∈ s.asked, i ∈ s'.asked

theorem Confirmed.grows {s' : Meeting} {σ : Session} {tag : Bytes confirmBytes} (h : Confirmed c s σ tag)
    (hg : Grows s s') : ∃ σ', σ'.own = σ.own ∧ Confirmed c s' σ' tag := by
  obtain ⟨o, shared, hm, hp, ha, ht⟩ := h
  obtain ⟨σ', hm', hown, hp'⟩ := hg.sessions σ hm
  exact ⟨σ', hown, o, shared, hm', hp' o hp, by rw [hown]; exact hg.asked _ ha, by rw [hown]; exact ht⟩

theorem Means.grows {s' : Meeting} {m : List Byte} (h : Means c s m) (hg : Grows s s') : Means c s' m := by
  refine ⟨fun o ho => ?_, fun hb => ?_⟩
  · obtain ⟨σ, hm, hown⟩ := h.offer o ho
    obtain ⟨σ', hm', hown', -⟩ := hg.sessions σ hm
    exact ⟨σ', hm', hown'.trans hown⟩
  · obtain ⟨σ, hu, hc⟩ := h.confirm hb
    obtain ⟨σ', hown, hc'⟩ := hc.grows hg
    exact ⟨σ', by rw [hown]; exact hu, hc'⟩

/-- A machine that a step does not touch. -/
theorem PartyInv.grows {s' : Meeting} {x : Party} {σ : Session} {p : Pair} (h : PartyInv c uid made s x σ p)
    (hg : Grows s s') : PartyInv c uid made s' x σ p := by
  refine ⟨h.party, h.mine, h.own, h.peer, h.secret, h.begun, fun hs => ?_, fun hs => ?_⟩
  · obtain ⟨o, shared, h1, h2, h3, h4, h5⟩ := h.met hs
    exact ⟨o, shared, h1, h2, h3, h4, hg.asked _ h5⟩
  · obtain ⟨o, τ, h1, h2, h3⟩ := h.done hs
    obtain ⟨τ', hown, h3'⟩ := h3.grows hg
    exact ⟨o, τ', h1, by rw [hown]; exact h2, h3'⟩

/-! ## A machine moves on -/

/-- The machine of `x` in its present session: the offers are as before, or the peer's
    has just been taken. -/
def Moves (uid : Party → Uid) (s : Meeting) (x : Party) (p : Pair) : Prop :=
  peerOffer p = peerOffer (s.pair x) ∨
    peerOffer (s.pair x) = none ∧ ∃ o, peerOffer p = some o ∧ o.uid ≠ uid x ∧ ∃ τ ∈ s.sessions, τ.own = o

theorem put_pair_self (s : Meeting) (x : Party) (p : Pair) (is : List TagInput) : (s.put x p is).pair x = p :=
  Function.update_self ..

theorem put_pair_ne {x y : Party} (h : y ≠ x) (p : Pair) (is : List TagInput) : (s.put x p is).pair y = s.pair y :=
  Function.update_of_ne h ..

theorem put_cur_self (s : Meeting) (x : Party) (p : Pair) (is : List TagInput) :
    (s.put x p is).cur x = { s.cur x with peer := peerOffer p } := Function.update_self ..

theorem put_cur_ne {x y : Party} (h : y ≠ x) (p : Pair) (is : List TagInput) : (s.put x p is).cur y = s.cur y :=
  Function.update_of_ne h ..

/-- The sessions after the move are those before, but for the peer of the present one. -/
theorem mem_put_sessions {x : Party} {p : Pair} {is : List TagInput} {σ' : Session} (h : σ' ∈ (s.put x p is).sessions) :
    σ' ∈ s.sessions ∨ σ' = { s.cur x with peer := peerOffer p } := by
  rcases mem_sessions h with ⟨y, rfl⟩ | h
  · by_cases hy : y = x
    · subst hy
      exact Or.inr (put_cur_self s y p is)
    · rw [put_cur_ne hy]
      exact Or.inl (mem_cur s y)
  · exact Or.inl (mem_past h)

theorem put_grows {x : Party} {p : Pair} (is : List TagInput) (hx : PartyInv c uid made s x (s.cur x) (s.pair x))
    (hm : Moves uid s x p) : Grows s (s.put x p is) := by
  refine ⟨fun σ hσ => ?_, fun i hi => List.mem_append_right _ hi⟩
  rcases mem_sessions hσ with ⟨y, rfl⟩ | hp
  · by_cases hy : y = x
    · subst hy
      refine ⟨_, mem_cur _ y, by rw [put_cur_self], fun o ho => ?_⟩
      rw [put_cur_self]
      rw [hx.peer] at ho
      rcases hm with h | ⟨h, -⟩
      · exact h.trans ho
      · rw [h] at ho
        cases ho
    · exact ⟨s.cur y, by rw [← put_cur_ne hy p is]; exact mem_cur _ y, rfl, fun _ => id⟩
  · exact ⟨σ, mem_past hp, rfl, fun _ => id⟩

theorem put_inv {x : Party} {p : Pair} {is : List TagInput} (hi : Inv c uid made s) (hm : Moves uid s x p)
    (hx : PartyInv c uid made (s.put x p is) x { s.cur x with peer := peerOffer p } p) : Inv c uid made (s.put x p is) := by
  have hg := put_grows is (hi.party x) hm
  have hcur := (hi.party x).party
  have hmem : ∀ σ' ∈ (s.put x p is).sessions, ∃ σ ∈ s.sessions, σ'.party = σ.party ∧ σ'.own = σ.own ∧ σ'.born = σ.born ∧
      (σ'.peer = σ.peer ∨ σ = s.cur x ∧ σ'.peer = peerOffer p) := by
    intro σ' h
    rcases mem_put_sessions h with h | rfl
    · exact ⟨σ', h, rfl, rfl, rfl, Or.inl rfl⟩
    · exact ⟨s.cur x, mem_cur s x, rfl, rfl, rfl, Or.inr ⟨rfl, rfl⟩⟩
  have hborn : ∀ y, ((s.put x p is).cur y).born = (s.cur y).born := by
    intro y
    by_cases hy : y = x
    · subst hy; rw [put_cur_self]
    · rw [put_cur_ne hy]
  refine ⟨fun y => ?_, fun σ' h => ?_, fun σ' h o ho => ?_, fun σ' h => ?_, fun σ h o ho τ' hτ' hown => ?_, fun m h => ?_⟩
  · by_cases hy : y = x
    · subst hy
      rw [put_pair_self, put_cur_self]
      exact hx
    · rw [put_pair_ne hy, put_cur_ne hy]
      exact (hi.party y).grows hg
  · obtain ⟨σ, hσ, h1, h2, -⟩ := hmem σ' h
    rw [h1, h2]
    exact hi.owned σ hσ
  · obtain ⟨σ, hσ, h1, -, -, h4⟩ := hmem σ' h
    rw [h1]
    have hold : o.uid ≠ uid σ.party ∧ ∃ τ ∈ s.sessions, τ.own = o := by
      rcases h4 with h4 | ⟨rfl, h4⟩
      · exact hi.known σ hσ o (h4.symm.trans ho)
      · rcases hm with hsame | ⟨-, o', ho', hne, hτ⟩
        · exact hi.known _ hσ o ((hi.party x).peer.trans (hsame.symm.trans (h4.symm.trans ho)))
        · obtain rfl : o' = o := Option.some.inj (ho'.symm.trans (h4.symm.trans ho))
          exact ⟨by rw [hcur]; exact hne, hτ⟩
    refine ⟨hold.1, ?_⟩
    obtain ⟨τ, hτ, hown⟩ := hold.2
    obtain ⟨τ', hτ', hown', -⟩ := hg.sessions τ hτ
    exact ⟨τ', hτ', hown'.trans hown⟩
  · obtain ⟨σ, hσ, -, -, h3, -⟩ := hmem σ' h
    rw [h3]
    exact hi.born σ hσ
  · obtain ⟨τ, hτ, -, h2, h3, -⟩ := hmem τ' hτ'
    rw [h3, hborn]
    exact hi.crossed σ h o ho τ hτ (h2.symm.trans hown)
  · exact (hi.sent m h).grows hg

/-- An exchange that rests, in the state it was in. -/
theorem PartyInv.rests {x : Party} {σ : Session} {p p' : Pair} (h : PartyInv c uid made s x σ p) (hr : Rests p p')
    (hs : p'.state = p.state) : PartyInv c uid made s x { σ with peer := peerOffer p' } p' := by
  have hpeer : peerOffer p' = σ.peer := hr.peer.trans h.peer.symm
  refine ⟨h.party, (congrArg Offer.uid hr.own).trans h.mine, h.own.trans hr.own.symm, rfl, ?_, ?_, ?_, ?_⟩
  · rw [hs, hr.secret]
    exact h.secret
  · rw [hs]
    exact h.begun
  · rw [hs, hpeer]
    intro hst
    obtain ⟨o, shared, h1, h2, h3, h4, h5⟩ := h.met hst
    exact ⟨o, shared, h1, h2, h3, ⟨hr.chainKey.trans h4.chainKey, hr.sas.trans h4.sas,
      hr.expectConfirm.trans h4.expectConfirm⟩, h5⟩
  · rw [hs, hpeer, hr.expectConfirm]
    exact h.done

/-- An exchange that is aborted. -/
theorem PartyInv.wiped {x : Party} {σ : Session} {p p' : Pair} {b : List Byte} (h : PartyInv c uid made s x σ p)
    (hidle : p.state ≠ .idle) (hw : Wiped p b p') : PartyInv c uid made s x { σ with peer := peerOffer p' } p' := by
  have hne : ∀ st, st ≠ PairState.aborted → p'.state ≠ st := fun st hst h' => hst (h'.symm.trans hw.state)
  exact ⟨h.party, (congrArg Offer.uid hw.own).trans h.mine, h.own.trans hw.own.symm, rfl, fun h' => absurd hw.state h',
    fun _ => h.begun hidle, fun h' => h'.elim (fun h' => absurd h' (hne _ (by decide))) fun h' => absurd h' (hne _ (by decide)),
    fun h' => absurd h' (hne _ (by decide))⟩

/-- A received payload, of those that were sent. -/
theorem rx_inv (hi : Inv c uid made s) {x : Party} {b : List Byte} (hb : b ∈ s.sent) (now : Time) :
    Inv c uid made (s.step c (.rx x b now)) := by
  have hx := hi.party x
  have hmeans := hi.sent b hb
  show Inv c uid made (s.put x (pairRx c (s.pair x) b now) (if (pairRx c (s.pair x) b now).state = .confirmWait then
    (tagInput c (pairRx c (s.pair x) b now) (pairRx c (s.pair x) b now).peerUid).toList else []))
  have heff := pairRx_effect c (s.pair x) b now
  generalize pairRx c (s.pair x) b now = p' at heff
  have htakes : ∀ o, Takes (s.pair x) b o p' → Moves uid s x p' := fun o ht =>
    Or.inr ⟨ht.unknown, o, ht.peer, hx.mine ▸ ht.foreign, hmeans.offer o ht.offer⟩
  cases heff with
  | rests hr hs =>
    have hm : Moves uid s x p' := Or.inl hr.peer
    exact put_inv hi hm ((hx.rests hr hs).grows (put_grows _ hx hm))
  | completes o hr hw hs ho hc =>
    have hm : Moves uid s x p' := Or.inl hr.peer
    refine put_inv hi hm (PartyInv.grows ?_ (put_grows _ hx hm))
    have hpeer : peerOffer p' = (s.cur x).peer := hr.peer.trans hx.peer.symm
    obtain ⟨τ, hu, hconf⟩ := hmeans.confirm hc.type
    refine ⟨hx.party, (congrArg Offer.uid hr.own).trans hx.mine, hx.own.trans hr.own.symm, rfl, fun _ => ?_, fun _ => ?_,
      fun _ => ?_, fun _ => ?_⟩
    · exact hr.secret.trans (hx.secret (by rw [hw]; decide))
    · exact hx.begun (by rw [hw]; decide)
    · obtain ⟨o', shared, h1, h2, h3, h4, h5⟩ := hx.met (Or.inl hw)
      exact ⟨o', shared, hpeer.trans h1, h2, h3, ⟨hr.chainKey.trans h4.chainKey, hr.sas.trans h4.sas,
        hr.expectConfirm.trans h4.expectConfirm⟩, h5⟩
    · refine ⟨o, τ, hr.peer.trans ho, hu.trans hc.uid, ?_⟩
      rw [hr.expectConfirm, ← hc.tag]
      exact hconf
  | meets o shared ht hidle hab hs hown hsec hsh hd =>
    have hm := htakes o ht
    have hg := put_grows (if p'.state = .confirmWait then (tagInput c p' p'.peerUid).toList else []) hx hm
    refine put_inv hi hm ⟨hx.party, (congrArg Offer.uid hown).trans hx.mine, hx.own.trans hown.symm, rfl,
      fun _ => hsec.trans (hx.secret hab), fun _ => hx.begun hidle, fun _ => ?_, fun h => ?_⟩
    · have hasked : (shared, tagInfo (s.cur x).own o o.uid) ∈
          (s.put x p' (if p'.state = .confirmWait then (tagInput c p' p'.peerUid).toList else [])).asked := by
        have hpu : p'.peerUid = o.uid := by
          obtain ⟨-, rfl⟩ := peerOffer_some ht.peer
          rfl
        have hinput : tagInput c p' p'.peerUid = some (shared, tagInfo (s.cur x).own o o.uid) := by
          rw [tagInput, ht.peer, hpu, hx.own, ← hown]
          show (c.dhShared p'.secret o.publicKey).map _ = _
          rw [hsec, hsh]
          rfl
        refine List.mem_append_left _ ?_
        rw [if_pos hs, hinput]
        exact List.mem_singleton_self _
      rw [← hx.own] at hd
      rw [hx.secret hab] at hsh
      exact ⟨o, shared, ht.peer, hx.mine ▸ ht.foreign, hsh, hd, hasked⟩
    · rw [hs] at h
      cases h
  | aborts hidle hw =>
    have hm : Moves uid s x p' := hw.peer.elim Or.inl fun ⟨o, ht⟩ => htakes o ht
    exact put_inv hi hm ((hx.wiped hidle hw).grows (put_grows _ hx hm))

theorem tick_inv (hi : Inv c uid made s) (x : Party) (now : Time) : Inv c uid made (s.step c (.tick x now)) := by
  have hx := hi.party x
  show Inv c uid made (s.put x (pairTick (s.pair x) now) [])
  rcases pairTick_effect (s.pair x) now with h | ⟨hidle, hw⟩
  · rw [h]
    exact put_inv hi (Or.inl rfl) ((hx.rests (.refl _) rfl).grows (put_grows _ hx (Or.inl rfl)))
  · have hm : Moves uid s x (pairTick (s.pair x) now) := by
      refine hw.peer.elim Or.inl fun ⟨o, ht⟩ => ?_
      have hno := ht.offer
      rw [offerOf, if_neg (fun h => absurd h.2 (by decide))] at hno
      cases hno
    exact put_inv hi hm ((hx.wiped hidle hw).grows (put_grows _ hx hm))

theorem takeEvents_inv (hi : Inv c uid made s) (x : Party) : Inv c uid made (s.step c (.takeEvents x)) := by
  have hx := hi.party x
  have hm : Moves uid s x (pairTakeEvents (s.pair x)).2 := Or.inl rfl
  have hr : Rests (s.pair x) (pairTakeEvents (s.pair x)).2 := ⟨rfl, rfl, rfl, rfl, rfl, rfl⟩
  exact put_inv hi hm ((hx.rests hr rfl).grows (put_grows _ hx hm))

/-- A new session: no old one took what it offers. -/
theorem begin_inv (hi : Inv c uid made s) {x : Party} {now : Time} {windowMs : UInt16} {fresh : Fresh}
    (ho : Honest made s (.begin x now windowMs fresh)) : Inv c uid made (s.step c (.begin x now windowMs fresh)) := by
  obtain ⟨hmade, hfresh⟩ := ho
  have hx := hi.party x
  let z : Session := ⟨x, ⟨(s.pair x).selfUid, fresh.publicKey, fresh.nonce⟩, fresh.secret, none, s.clock⟩
  let s' := s.step c (.begin x now windowMs fresh)
  have hself : s'.pair x = pairBegin (s.pair x) now windowMs fresh ∧ s'.cur x = z :=
    ⟨Function.update_self .., Function.update_self ..⟩
  have hother : ∀ y, y ≠ x → s'.pair y = s.pair y ∧ s'.cur y = s.cur y :=
    fun y hy => ⟨Function.update_of_ne hy .., Function.update_of_ne hy ..⟩
  have hpast : s'.past = s.cur x :: s.past := rfl
  have hmem : ∀ σ ∈ s'.sessions, σ ∈ s.sessions ∨ σ = z := by
    intro σ h
    rcases mem_sessions h with ⟨y, rfl⟩ | h
    · by_cases hy : y = x
      · exact Or.inr (hy ▸ hself.2)
      · rw [(hother y hy).2]
        exact Or.inl (mem_cur s y)
    · rcases List.mem_cons.mp h with rfl | h
      · exact Or.inl (mem_cur s x)
      · exact Or.inl (mem_past h)
  have hold : ∀ σ ∈ s.sessions, σ ∈ s'.sessions := by
    intro σ h
    rcases mem_sessions h with ⟨y, rfl⟩ | h
    · by_cases hy : y = x
      · exact mem_past (hy ▸ List.mem_cons_self)
      · rw [← (hother y hy).2]
        exact mem_cur s' y
    · exact mem_past (List.mem_cons_of_mem _ h)
  have hg : Grows s s' := ⟨fun σ h => ⟨σ, hold σ h, rfl, fun _ => id⟩, fun _ => id⟩
  -- nobody can have taken the new offer
  have hnew : ∀ σ ∈ s.sessions, ∀ o, σ.peer = some o → z.own ≠ o := by
    intro σ h o hp hz
    obtain ⟨-, τ, hτ, hown⟩ := hi.known σ h o hp
    exact hfresh τ hτ (hown.trans hz.symm)
  refine ⟨fun y => ?_, fun σ h => ?_, fun σ h o hp => ?_, fun σ h => ?_, fun σ h o hp τ hτ hown => ?_,
    fun m h => (hi.sent m h).grows hg⟩
  · by_cases hy : y = x
    · subst hy
      rw [hself.1, hself.2]
      exact ⟨rfl, hx.mine, rfl, rfl, fun _ => rfl, fun _ => hmade, fun h => (by rcases h with h | h <;> cases h),
        fun h => (by cases h)⟩
    · rw [(hother y hy).1, (hother y hy).2]
      exact (hi.party y).grows hg
  · rcases hmem σ h with h | rfl
    · exact hi.owned σ h
    · exact hx.mine
  · rcases hmem σ h with h | rfl
    · obtain ⟨hne, τ, hτ, hown⟩ := hi.known σ h o hp
      exact ⟨hne, τ, hold τ hτ, hown⟩
    · cases hp
  · rcases hmem σ h with h | rfl
    · exact Nat.lt_succ_of_lt (hi.born σ h)
    · exact Nat.lt_succ_self _
  · have hσ : σ ∈ s.sessions := by
      rcases List.mem_cons.mp h with rfl | h
      · exact mem_cur s x
      · exact mem_past h
    have hτ' : τ ∈ s.sessions := by
      rcases hmem τ hτ with h | rfl
      · exact h
      · exact absurd hown (hnew σ hσ o hp)
    by_cases hy : σ.party = x
    · rw [hy, hself.2]
      exact hi.born τ hτ'
    · rw [(hother _ hy).2]
      rcases List.mem_cons.mp h with rfl | h
      · exact absurd hx.party hy
      · exact hi.crossed σ h o hp τ hτ' hown

/-- A payload is built: the sessions stay as they are. -/
theorem post_inv (hi : Inv c uid made s) {m : List Byte} {is : List TagInput}
    (hm : m ≠ [] → Means c (s.post m is) m) : Inv c uid made (s.post m is) := by
  have hg : Grows s (s.post m is) :=
    ⟨fun σ h => ⟨σ, h, rfl, fun _ => id⟩, fun i h => List.mem_append_right _ h⟩
  refine ⟨fun y => (hi.party y).grows hg, hi.owned, hi.known, hi.born, hi.crossed, fun b h => ?_⟩
  have hb : b = m ∧ m ≠ [] ∨ b ∈ s.sent := by
    have h' : b ∈ if m = [] then s.sent else m :: s.sent := h
    split at h'
    · exact Or.inr h'
    · rename_i hne
      rcases List.mem_cons.mp h' with rfl | h'
      · exact Or.inl ⟨rfl, hne⟩
      · exact Or.inr h'
  rcases hb with ⟨rfl, hne⟩ | hb
  · exact hm hne
  · exact (hi.sent b hb).grows hg

theorem buildOffer_inv (hi : Inv c uid made s) (x : Party) (cap : Nat) :
    Inv c uid made (s.step c (.buildOffer x cap)) := by
  refine post_inv hi fun hne => ?_
  unfold pairBuildOffer at hne ⊢
  split at hne
  · exact absurd rfl hne
  · rename_i hcap
    rw [if_neg hcap]
    have hoffer : offerOf (pairOffer :: put64 (s.pair x).selfUid ++ (s.pair x).selfPublic.val ++ (s.pair x).selfNonce.val) =
        some (ownOffer (s.pair x)) := offer_codec.unpack_pack (ownOffer (s.pair x))
    refine ⟨fun o ho => ⟨s.cur x, mem_cur s x, ?_⟩, fun hb => absurd hb (by decide : pairOffer ≠ pairConfirm)⟩
    exact (hi.party x).own.trans (Option.some.inj (hoffer.symm.trans ho))

theorem buildAbort_inv (hi : Inv c uid made s) (x : Party) (cap : Nat) :
    Inv c uid made (s.step c (.buildAbort x cap)) := by
  refine post_inv hi fun hne => ?_
  unfold pairBuildAbort at hne ⊢
  split at hne
  · exact absurd rfl hne
  · rename_i hcap
    rw [if_neg hcap]
    refine ⟨fun o ho => ?_, fun hb => absurd hb (by decide : pairAbort ≠ pairConfirm)⟩
    rw [offerOf, if_neg fun h => absurd h.1 (by decide : pairAbort ≠ pairOffer)] at ho
    cases ho

theorem buildOwnConfirm_eq (p : Pair) {o : Offer} (ho : peerOffer p = some o) : buildOwnConfirm c p =
    (tagInput c p p.selfUid).map fun i => c.kdf confirmBytes i.1 i.2 := by
  have hpub : p.peerPublic = o.publicKey := by
    obtain ⟨-, rfl⟩ := peerOffer_some ho
    rfl
  rw [buildOwnConfirm, buildTranscript_eq ho, tagInput, ho, hpub, Option.bind_some, Option.map_map]
  rfl

theorem buildConfirm_inv (hi : Inv c uid made s) (x : Party) (cap : Nat) :
    Inv c uid made (s.step c (.buildConfirm x cap)) := by
  have hx := hi.party x
  refine post_inv hi fun hne => ?_
  have hpeer : (s.pair x).havePeer = true := by
    by_contra h
    refine hne ?_
    rw [pairBuildConfirm, if_pos (by simp [h])]
  have ho : peerOffer (s.pair x) = some ⟨(s.pair x).peerUid, (s.pair x).peerPublic, (s.pair x).peerNonce⟩ := if_pos hpeer
  unfold pairBuildConfirm at hne ⊢
  split at hne
  · exact absurd rfl hne
  rename_i hcap
  rw [if_neg hcap]
  cases hb : buildOwnConfirm c (s.pair x) with
  | none =>
    rw [hb] at hne
    exact absurd rfl hne
  | some tag =>
    rw [buildOwnConfirm_eq _ ho] at hb
    obtain ⟨⟨shared, info⟩, hin, htag⟩ := Option.map_eq_some_iff.mp hb
    have hinfo : info = tagInfo (s.cur x).own ⟨(s.pair x).peerUid, (s.pair x).peerPublic, (s.pair x).peerNonce⟩
        (s.cur x).own.uid := by
      rw [tagInput, ho, Option.bind_some] at hin
      obtain ⟨k, -, hk⟩ := Option.map_eq_some_iff.mp hin
      rw [hx.own]
      exact (congrArg Prod.snd hk).symm
    subst hinfo
    obtain ⟨-, -, hread⟩ := confirmOf_some (confirm_codec.unpack_pack ⟨(s.pair x).selfUid, tag⟩)
    obtain ⟨huid, hslice⟩ := Confirm.mk.inj hread
    refine ⟨fun o h => ?_, fun _ => ⟨s.cur x, ?_, _, shared, mem_cur s x, hx.peer.trans ho, ?_, ?_⟩⟩
    · rw [offerOf, if_neg fun h => absurd h.1 (by decide : pairConfirm ≠ pairOffer)] at h
      cases h
    · rw [hx.own]
      exact huid
    · exact List.mem_append_left _ (by rw [hin]; exact List.mem_singleton_self _)
    · exact hslice.symm.trans htag.symm

theorem step_inv (hi : Inv c uid made s) (e : Event) (ho : Honest made s e) : Inv c uid made (s.step c e) := by
  cases e with
  | begin x now windowMs fresh => exact begin_inv hi ho
  | rx x payload now => exact rx_inv hi ho now
  | tick x now => exact tick_inv hi x now
  | takeEvents x => exact takeEvents_inv hi x
  | buildOffer x cap => exact buildOffer_inv hi x cap
  | buildConfirm x cap => exact buildConfirm_inv hi x cap
  | buildAbort x cap => exact buildAbort_inv hi x cap

theorem start_inv (h : Start uid s) : Inv c uid made s := by
  subst h
  have hmem : ∀ σ ∈ sessions { pair := fun x => pairInit (uid x)
                               cur := fun x => ⟨x, ownOffer (pairInit (uid x)), Bytes.zero _, none, 0⟩
                               past := [], sent := [], asked := [], clock := 1 },
      ∃ x, σ = ⟨x, ownOffer (pairInit (uid x)), Bytes.zero _, none, 0⟩ := by
    intro σ h
    rcases mem_sessions h with h | h
    · exact h
    · cases h
  refine ⟨fun x => ⟨rfl, rfl, rfl, rfl, fun _ => rfl, fun h => absurd rfl h, fun h => ?_, fun h => (by cases h)⟩,
    fun σ h => ?_, fun σ h o hp => ?_, fun σ h => ?_, fun σ h => (by cases h), fun m h => (by cases h)⟩
  · rcases h with h | h <;> cases h
  · obtain ⟨x, rfl⟩ := hmem σ h
    rfl
  · obtain ⟨x, rfl⟩ := hmem σ h
    cases hp
  · obtain ⟨x, rfl⟩ := hmem σ h
    exact Nat.one_pos

end Meeting

open Meeting

theorem meeting_inv {c : Crypto} {uid : Party → Uid} {made : Bytes dhBytes → Bytes dhBytes → Prop} {s : Meeting}
    (h : Reach (Start uid) (Honest made) (Meeting.step c) s) : Inv c uid made s :=
  h.inv (fun _ => start_inv) fun _ e hi ho => step_inv hi e ho

/-! ## Agreement -/

/-- A board that is done took the offer of some session of its peer, and that session
    took its own. -/
theorem done_taken {c : Crypto} {uid : Party → Uid} {made : Bytes dhBytes → Bytes dhBytes → Prop} {s : Meeting}
    (hi : Inv c uid made s) (hcol : NoCollision c s) {x y : Party} (hxy : x ≠ y)
    (hx : (s.pair x).state = .done) : ∃ o, (s.cur x).peer = some o ∧ o.uid = uid y ∧
      ∃ τ ∈ s.sessions, τ.party = y ∧ τ.own = o ∧ τ.peer = some (s.cur x).own := by
  have hp := hi.party x
  have hparty : ∀ z, uid z ≠ uid x → z = y := by
    intro z hz
    cases x <;> cases y <;> cases z <;> first | rfl | exact absurd rfl hxy | exact absurd rfl hz
  obtain ⟨o, shared, ho, hne, -, hd, hasked⟩ := hp.met (Or.inr hx)
  obtain ⟨o', τ, ho', hu, o2, shared2, hτ, hpeer, hasked2, htag⟩ := hp.done hx
  obtain rfl : o = o' := Option.some.inj (ho.symm.trans ho')
  have hown : (s.cur x).own.uid = uid x := by rw [hp.own]; exact hp.mine
  have hτu : τ.own.uid = uid τ.party := hi.owned τ hτ
  have hτy : τ.party = y := hparty _ (by rw [← hτu, hu]; exact hne)
  -- the tags agree, so the transcripts do
  rw [hd.expectConfirm] at htag
  have heq := congrArg Prod.snd (hcol _ hasked _ hasked2 htag)
  have htr := tagInfo_inj heq.symm
  have ho2 : o2.uid = uid x := by
    obtain ⟨h1, ρ, hρ, hρo⟩ := hi.known τ hτ o2 hpeer
    have hρu : o2.uid = uid ρ.party := by rw [← hρo]; exact hi.owned ρ hρ
    rw [hτy] at h1
    cases hρp : ρ.party <;> cases x <;> cases y <;> rw [hρp] at hρu <;>
      first | exact hρu | exact absurd rfl hxy | exact absurd hρu h1
  obtain ⟨h1, h2⟩ := transcript_inj (by rw [hown]; exact hne.symm) hu (ho2.trans hown.symm) htr
  exact ⟨o, ho, by rw [← hu, hτu, hτy], τ, hτ, hτy, h1, by rw [hpeer, h2]⟩

/-- Two boards that are both done have derived what they hold from one secret and from
    each other's offer. -/
theorem both_derived {c : Crypto} {made : Bytes dhBytes → Bytes dhBytes → Prop}
    (hdh : ∀ s p s' p', made s p → made s' p' → c.dhShared s p' = c.dhShared s' p) {uid : Party → Uid}
    {s : Meeting} (hi : Inv c uid made s) (hcol : NoCollision c s) (ha : (s.pair .a).state = .done)
    (hb : (s.pair .b).state = .done) :
    ∃ shared, c.dhShared (s.cur .a).secret (s.cur .b).own.publicKey = some shared ∧
      Derived c shared (s.cur .a).own (s.cur .b).own (s.pair .a) ∧
      Derived c shared (s.cur .b).own (s.cur .a).own (s.pair .b) := by
  have hpa := hi.party .a
  have hpb := hi.party .b
  obtain ⟨oa, hoa, hua, τ, hτ, hτp, hτo, hτpeer⟩ := done_taken hi hcol (by decide : Party.a ≠ .b) ha
  obtain ⟨ob, hob, hub, ρ, hρ, hρp, hρo, hρpeer⟩ := done_taken hi hcol (by decide : Party.b ≠ .a) hb
  -- the two present sessions took each other's offers
  have hmutual : oa = (s.cur .b).own ∧ ob = (s.cur .a).own := by
    rcases mem_sessions hτ with ⟨z, rfl⟩ | hτpast
    · obtain rfl : z = .b := (hi.party z).party.symm.trans hτp
      exact ⟨hτo.symm, Option.some.inj (hob.symm.trans hτpeer)⟩
    rcases mem_sessions hρ with ⟨z, rfl⟩ | hρpast
    · obtain rfl : z = .a := (hi.party z).party.symm.trans hρp
      exact ⟨Option.some.inj (hoa.symm.trans hρpeer), hρo.symm⟩
    -- crossed: each of them would have begun before the other
    have h1 := hi.crossed τ hτpast _ hτpeer (s.cur .a) (mem_cur s .a) rfl
    have h2 := hi.crossed ρ hρpast _ hρpeer (s.cur .b) (mem_cur s .b) rfl
    rw [hτp] at h1
    rw [hρp] at h2
    omega
  obtain ⟨rfl, rfl⟩ := hmutual
  obtain ⟨o, ka, ho, hne, hsa, hda, -⟩ := hpa.met (Or.inr ha)
  obtain ⟨o', kb, ho', hne', hsb, hdb, -⟩ := hpb.met (Or.inr hb)
  obtain rfl : (s.cur .b).own = o := Option.some.inj (hoa.symm.trans ho)
  obtain rfl : (s.cur .a).own = o' := Option.some.inj (hob.symm.trans ho')
  have hshared : ka = kb := by
    have hcomm := hdh _ _ _ _ (hpa.begun (by rw [ha]; decide)) (hpb.begun (by rw [hb]; decide))
    rw [hsa, hsb] at hcomm
    exact Option.some.inj hcomm
  subst hshared
  exact ⟨ka, hsa, hda, hdb⟩

/-- The two boards see one transcript. -/
theorem one_transcript {c : Crypto} {made : Bytes dhBytes → Bytes dhBytes → Prop} {uid : Party → Uid}
    (huid : uid .a ≠ uid .b) {s : Meeting} (hi : Inv c uid made s) :
    transcript (s.cur .b).own (s.cur .a).own = transcript (s.cur .a).own (s.cur .b).own := by
  refine transcript_comm ?_
  rw [hi.owned _ (mem_cur s .a), hi.owned _ (mem_cur s .b), (hi.party .a).party, (hi.party .b).party]
  exact huid.symm

/-- Two boards that are both done hold the same key, and show the same string. -/
theorem key_agreement {c : Crypto} {made : Bytes dhBytes → Bytes dhBytes → Prop}
    (hdh : ∀ s p s' p', made s p → made s' p' → c.dhShared s p' = c.dhShared s' p) {uid : Party → Uid}
    (huid : uid .a ≠ uid .b) {s : Meeting} (h : Reach (Start uid) (Honest made) (Meeting.step c) s)
    (hcol : NoCollision c s) (ha : (s.pair .a).state = .done) (hb : (s.pair .b).state = .done) :
    (s.pair .a).chainKey = (s.pair .b).chainKey ∧ (s.pair .a).sas = (s.pair .b).sas := by
  have hi := meeting_inv h
  obtain ⟨shared, -, hda, hdb⟩ := both_derived hdh hi hcol ha hb
  have htr := one_transcript huid hi
  constructor
  · rw [hda.chainKey, hdb.chainKey, keyInfo, keyInfo, htr]
  · rw [hda.sas, hdb.sas, sasInfo, sasInfo, htr]

/-! ## Two boards that pair -/

/-- Adds the two keys for the exchange, and takes the end of the context for a key. -/
def plainCrypto : Crypto :=
  { dhShared := fun k p => some ⟨List.zipWith (· + ·) k.val p.val, by simp [k.property, p.property]⟩
    kdf := fun n k info => slice (info.reverse ++ k.val) 0 n }

theorem plainCrypto_comm (k p k' p' : Bytes dhBytes) (h : k = p) (h' : k' = p') :
    plainCrypto.dhShared k p' = plainCrypto.dhShared k' p := by
  subst h h'
  refine congrArg some (Subtype.ext ?_)
  exact List.zipWith_comm_of_comm (fun x y => UInt8.add_comm x y)

def plainFresh (n : Byte) : Fresh :=
  let key : Bytes dhBytes := ⟨List.replicate dhBytes n, List.length_replicate⟩
  ⟨key, key, ⟨List.replicate nonceBytes n, List.length_replicate⟩⟩

def plainUid : Party → Uid
  | .a => 0x1111
  | .b => 0x2222

def plainBegun (x : Party) (n : Byte) : Pair := pairBegin (pairInit (plainUid x)) 1000 30000 (plainFresh n)

/-- What each board has to say once it has heard the other's offer. -/
def plainConfirm (x : Party) (n : Byte) (offer : List Byte) : List Byte :=
  pairBuildConfirm plainCrypto (pairRx plainCrypto (plainBegun x n) offer 1000) 64

/-- Two boards that have only been powered on. -/
def plainStart : Meeting :=
  { pair := fun x => pairInit (plainUid x)
    cur := fun x => ⟨x, ownOffer (pairInit (plainUid x)), Bytes.zero _, none, 0⟩
    past := [], sent := [], asked := [], clock := 1 }

/-- Both begin, and hear each other's offer and confirmation. -/
def plainEvents : List Meeting.Event :=
  let offerA := pairBuildOffer (plainBegun .a 1) 64
  let offerB := pairBuildOffer (plainBegun .b 2) 64
  [.begin .a 1000 30000 (plainFresh 1), .begin .b 1000 30000 (plainFresh 2), .buildOffer .a 64, .buildOffer .b 64,
   .rx .b offerA 1000, .rx .a offerB 1000, .buildConfirm .a 64, .buildConfirm .b 64,
   .rx .a (plainConfirm .b 2 offerA) 1500, .rx .b (plainConfirm .a 1 offerB) 1500]

def plainMeeting : Meeting := plainEvents.foldl (Meeting.step plainCrypto) plainStart

theorem key_agreement_of_plain : (plainMeeting.pair .a).chainKey = (plainMeeting.pair .b).chainKey := by
  have h0 : Reach (Start plainUid) (Honest (· = ·)) (Meeting.step plainCrypto) plainStart := .init rfl
  have hr : Reach (Start plainUid) (Honest (· = ·)) (Meeting.step plainCrypto) plainMeeting :=
    h0.run plainEvents (by decide +kernel)
  have hcol : NoCollision plainCrypto plainMeeting := by
    unfold NoCollision
    decide +kernel
  exact (key_agreement plainCrypto_comm (by decide) hr hcol (by decide +kernel) (by decide +kernel)).1

end DeskHop.Trust
