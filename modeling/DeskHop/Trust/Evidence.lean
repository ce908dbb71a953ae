/-
  DeskHop.Trust.Evidence — no key without proof.

  A run is a pairing machine and whatever calls are made on it. Beside the machine it
  records what the last `pairBegin` drew, and the messages processed since (`Ledger`).

  Proved, for every run (`no_key_without_proof`): a key that the machine gives away is
  the one derived from an offer in the record, of another board, and a later message in
  the record is that board's confirmation, with the tag that the two offers and the
  shared secret require. A machine that never began is idle, and an aborted one holds
  neither key nor secret.
-/

import DeskHop.Lib.Reach
import DeskHop.Trust.Transcript

namespace DeskHop.Trust

open DeskHop.Lib DeskHop.Wire

structure Ledger where
  p : Pair
  /-- What the last `pairBegin` drew. -/
  drawn : Option Fresh
  /-- The messages processed since, in order. -/
  log : List (List Byte)

/-- What the board `uid` offers with what it drew. -/
def Fresh.offer (f : Fresh) (uid : Uid) : Offer := ⟨uid, f.publicKey, f.nonce⟩

/-- The messages prove the key: an offer of another board, and later that board's
    confirmation over both offers. -/
def Evidence (c : Crypto) (uid : Uid) (f : Fresh) (log : List (List Byte)) (key : Key) : Prop :=
  ∃ (pre mid post : List (List Byte)) (offer confirm : List Byte) (o : Offer) (shared : Bytes dhBytes),
    log = pre ++ offer :: (mid ++ confirm :: post) ∧ offerOf offer = some o ∧ o.uid ≠ uid ∧
    c.dhShared f.secret o.publicKey = some shared ∧
    Confirms confirm o.uid (c.kdf confirmBytes shared (tagInfo (f.offer uid) o o.uid)) ∧
    key = c.kdf 16 shared (keyInfo (f.offer uid) o)

theorem Evidence.snoc {c : Crypto} {uid : Uid} {f : Fresh} {log : List (List Byte)} {key : Key}
    (h : Evidence c uid f log key) (m : List Byte) : Evidence c uid f (log ++ [m]) key := by
  obtain ⟨pre, mid, post, offer, confirm, o, shared, rfl, hrest⟩ := h
  exact ⟨pre, mid, post ++ [m], offer, confirm, o, shared, by simp, hrest⟩

namespace Ledger

inductive Event where
  | begin (now : Time) (windowMs : UInt16) (fresh : Fresh)
  | rx (payload : List Byte) (now : Time)
  | tick (now : Time)
  | takeEvents

def step (c : Crypto) (t : Ledger) : Event → Ledger
  | .begin now windowMs fresh => ⟨pairBegin t.p now windowMs fresh, some fresh, []⟩
  | .rx payload now => { t with p := pairRx c t.p payload now, log := t.log ++ [payload] }
  | .tick now => { t with p := pairTick t.p now }
  | .takeEvents => { t with p := (pairTakeEvents t.p).2 }

def Started (uid : Uid) (t : Ledger) : Prop := t = ⟨pairInit uid, none, []⟩

/-! ## The invariant -/

/-- The peer of an exchange in progress, and what was derived with it. -/
def Met (c : Crypto) (uid : Uid) (f : Fresh) (t : Ledger) : Prop :=
  ∃ o shared, peerOffer t.p = some o ∧ o.uid ≠ uid ∧ (∃ m ∈ t.log, offerOf m = some o) ∧
    c.dhShared f.secret o.publicKey = some shared ∧ Derived c shared (f.offer uid) o t.p

structure Inv (c : Crypto) (uid : Uid) (t : Ledger) : Prop where
  mine : t.p.selfUid = uid
  unbegun : t.drawn = none → t.p.state = .idle
  begun : ∀ f, t.drawn = some f → ownOffer t.p = f.offer uid ∧ (t.p.state ≠ .aborted → t.p.secret = f.secret)
  met : t.p.state = .confirmWait → ∃ f, t.drawn = some f ∧ Met c uid f t
  done : t.p.state = .done → ∃ f, t.drawn = some f ∧ Evidence c uid f t.log t.p.chainKey
  wiped : t.p.state = .aborted → t.p.chainKey = Bytes.zero 16 ∧ t.p.secret = Bytes.zero _

variable {c : Crypto} {uid : Uid}

theorem started_inv {t : Ledger} (h : Started uid t) : Inv c uid t := by
  subst h
  exact ⟨rfl, fun _ => rfl, fun _ hf => (by cases hf), fun hs => (by cases hs), fun hs => (by cases hs),
    fun hs => (by cases hs)⟩

/-- The confirmation completes the evidence. -/
theorem Met.evidence {f : Fresh} {t : Ledger} (h : Met c uid f t) {o : Offer} (ho : peerOffer t.p = some o)
    {m : List Byte} (hm : Confirms m o.uid t.p.expectConfirm) : Evidence c uid f (t.log ++ [m]) t.p.chainKey := by
  obtain ⟨o', shared, ho', hne, ⟨offer, hmem, hoffer⟩, hs, hd⟩ := h
  obtain rfl : o = o' := Option.some.inj (ho.symm.trans ho')
  obtain ⟨pre, post, hlog⟩ := List.append_of_mem hmem
  rw [hd.expectConfirm] at hm
  exact ⟨pre, post, [], offer, m, o, shared, by simp [hlog], hoffer, hne, hs, hm, hd.chainKey⟩

theorem own_uid {p p' : Pair} (h : ownOffer p' = ownOffer p) : p'.selfUid = p.selfUid := congrArg Offer.uid h

theorem Inv.of_wiped {t : Ledger} (hi : Inv c uid t) (hidle : t.p.state ≠ .idle) {b : List Byte} {p' : Pair}
    (hw : Wiped t.p b p') (log : List (List Byte)) : Inv c uid ⟨p', t.drawn, log⟩ := by
  have hne : ∀ s, s ≠ PairState.aborted → p'.state ≠ s := fun s hs h => hs (h.symm.trans hw.state)
  refine ⟨(own_uid hw.own).trans hi.mine, fun h => absurd (hi.unbegun h) hidle, fun f hf => ?_,
    fun hs => absurd hs (hne _ (by decide)), fun hs => absurd hs (hne _ (by decide)), fun _ => ⟨hw.chainKey, hw.secret⟩⟩
  exact ⟨hw.own.trans (hi.begun f hf).1, fun h => absurd hw.state h⟩

theorem rx_inv {t : Ledger} (hi : Inv c uid t) (b : List Byte) (now : Time) : Inv c uid (t.step c (.rx b now)) := by
  show Inv c uid ⟨pairRx c t.p b now, t.drawn, t.log ++ [b]⟩
  have heff := pairRx_effect c t.p b now
  generalize pairRx c t.p b now = p' at heff
  cases heff with
  | rests hr hs =>
    refine ⟨(own_uid hr.own).trans hi.mine, fun h => hs.trans (hi.unbegun h), fun f hf => ?_, fun h => ?_, fun h => ?_,
      fun h => ?_⟩
    · exact ⟨hr.own.trans (hi.begun f hf).1, fun h => hr.secret.trans ((hi.begun f hf).2 fun h' => h (hs.trans h'))⟩
    · obtain ⟨f, hf, o, shared, ho, hne, ⟨m, hm, hmo⟩, hsh, hd⟩ := hi.met (hs.symm.trans h)
      exact ⟨f, hf, o, shared, hr.peer.trans ho, hne, ⟨m, List.mem_append_left _ hm, hmo⟩, hsh,
        hr.chainKey.trans hd.chainKey, hr.sas.trans hd.sas, hr.expectConfirm.trans hd.expectConfirm⟩
    · obtain ⟨f, hf, he⟩ := hi.done (hs.symm.trans h)
      exact ⟨f, hf, by rw [hr.chainKey]; exact he.snoc b⟩
    · rw [hr.chainKey, hr.secret]
      exact hi.wiped (hs.symm.trans h)
  | completes o hr hw hs ho hc =>
    have hne : ∀ s, s ≠ PairState.done → p'.state ≠ s := fun s hs' h => hs' (h.symm.trans hs)
    obtain ⟨f, hf, hmet⟩ := hi.met hw
    refine ⟨(own_uid hr.own).trans hi.mine, fun h => ?_, fun g hg => ?_, fun h => absurd h (hne _ (by decide)), fun _ => ?_,
      fun h => absurd h (hne _ (by decide))⟩
    · rw [hf] at h
      cases h
    · exact ⟨hr.own.trans (hi.begun g hg).1, fun _ => hr.secret.trans ((hi.begun g hg).2 (by rw [hw]; decide))⟩
    · exact ⟨f, hf, by rw [hr.chainKey]; exact hmet.evidence ho hc⟩
  | meets o shared ht hidle hab hs hown hsec hsh hd =>
    have hne : ∀ s, s ≠ PairState.confirmWait → p'.state ≠ s := fun s hs' h => hs' (h.symm.trans hs)
    obtain ⟨f, hf⟩ : ∃ f, t.drawn = some f := Option.ne_none_iff_exists'.mp fun h => hidle (hi.unbegun h)
    obtain ⟨hoffer, hsecret⟩ := hi.begun f hf
    refine ⟨(own_uid hown).trans hi.mine, fun h => absurd (hf.symm.trans h) (by simp), fun g hg => ?_, fun _ => ?_,
      fun h => absurd h (hne _ (by decide)), fun h => absurd h (hne _ (by decide))⟩
    · obtain rfl : f = g := Option.some.inj (hf.symm.trans hg)
      exact ⟨hown.trans hoffer, fun _ => hsec.trans (hsecret hab)⟩
    · rw [hoffer] at hd
      rw [hsecret hab] at hsh
      exact ⟨f, hf, o, shared, ht.peer, hi.mine ▸ ht.foreign, ⟨b, List.mem_append_right _ List.mem_cons_self, ht.offer⟩,
        hsh, hd⟩
  | aborts hidle hw => exact hi.of_wiped hidle hw _

theorem step_inv {t : Ledger} (hi : Inv c uid t) (e : Event) : Inv c uid (t.step c e) := by
  cases e with
  | begin now windowMs fresh =>
    refine ⟨hi.mine, fun h => (by cases h), fun f hf => ?_, fun h => (by cases h), fun h => (by cases h),
      fun h => (by cases h)⟩
    cases hf
    exact ⟨congrArg fresh.offer hi.mine, fun _ => rfl⟩
  | rx payload now => exact rx_inv hi payload now
  | tick now =>
    rcases pairTick_effect t.p now with h | ⟨hidle, hw⟩
    · have heq : t.step c (.tick now) = t := by show { t with p := pairTick t.p now } = t; rw [h]
      rw [heq]
      exact hi
    · exact hi.of_wiped hidle hw t.log
  | takeEvents =>
    refine ⟨hi.mine, hi.unbegun, hi.begun, fun hs => ?_, hi.done, hi.wiped⟩
    obtain ⟨f, hf, o, shared, ho, hne, hm, hsh, hd⟩ := hi.met hs
    exact ⟨f, hf, o, shared, ho, hne, hm, hsh, hd.chainKey, hd.sas, hd.expectConfirm⟩

end Ledger

open Ledger

theorem ledger_inv {c : Crypto} {uid : Uid} {t : Ledger}
    (h : Reach (Started uid) (fun _ _ => True) (Ledger.step c) t) : Inv c uid t :=
  h.inv (fun _ => started_inv) fun _ e hi _ => step_inv hi e

/-- A key that is given away is proved by the messages since the exchange began; without
    a beginning there is no exchange; an aborted one keeps neither key nor secret. -/
theorem no_key_without_proof {c : Crypto} {uid : Uid} {t : Ledger}
    (h : Reach (Started uid) (fun _ _ => True) (Ledger.step c) t) :
    (∀ key, pairChainKey t.p = some key → ∃ f, t.drawn = some f ∧ Evidence c uid f t.log key) ∧
      (t.drawn = none → t.p.state = .idle) ∧
      (t.p.state = .aborted → t.p.chainKey = Bytes.zero 16 ∧ t.p.secret = Bytes.zero dhBytes) := by
  have hi := ledger_inv h
  refine ⟨fun key hk => ?_, hi.unbegun, hi.wiped⟩
  unfold pairChainKey at hk
  split at hk
  · rename_i hs
    cases hk
    exact hi.done hs
  · cases hk

/-- A board that pairs with the board 0x2222. -/
def sampleLedger : Ledger :=
  [.begin 1000 30000 (mockFresh 1), .rx (sampleOffer 0x2222 2) 1000,
   .rx (sampleConfirm 0x2222 2 (sampleOffer 0x1111 1)) 1500].foldl (Ledger.step mockCrypto) ⟨pairInit 0x1111, none, []⟩

theorem no_key_without_proof_of_sample :
    ∃ f key, sampleLedger.drawn = some f ∧ Evidence mockCrypto 0x1111 f sampleLedger.log key := by
  have h0 : Reach (Started 0x1111) (fun _ _ => True) (Ledger.step mockCrypto) ⟨pairInit 0x1111, none, []⟩ := .init rfl
  have hr : Reach (Started 0x1111) (fun _ _ => True) (Ledger.step mockCrypto) sampleLedger :=
    h0.run_free (fun _ _ => trivial) _
  obtain ⟨key, hk⟩ : ∃ key, pairChainKey sampleLedger.p = some key :=
    Option.isSome_iff_exists.mp (by decide +kernel)
  obtain ⟨f, hf, he⟩ := (no_key_without_proof hr).1 key hk
  exact ⟨f, key, hf, he⟩

end DeskHop.Trust
