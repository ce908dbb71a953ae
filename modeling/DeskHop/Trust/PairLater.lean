/-
  DeskHop.Trust.PairLater — pairing, by a clock that is later by a constant.

  When the pairing button was pressed is looked at only once it has been (`Pair.Later`).
-/

import DeskHop.Core.Later
import DeskHop.Lib.Outputs
import DeskHop.Trust.Pair

namespace DeskHop.Trust

inductive PairOp where
  | begin (now : Time) (windowMs : UInt16) (fresh : Fresh)
  | rx (payload : List Byte) (now : Time)
  | tick (now : Time)
  | takeEvents
  | buildOffer (cap : Nat)
  | buildConfirm (cap : Nat)
  | buildAbort (cap : Nat)
  | chainKey
  | sasString

def PairOp.later (c : Time) : PairOp → PairOp
  | .begin now windowMs fresh => .begin (now + c) windowMs fresh
  | .rx payload now => .rx payload (now + c)
  | .tick now => .tick (now + c)
  | o => o

/-- What an operation returns. -/
inductive PairReply where
  | nothing
  | events (ev : PairEvents)
  | payload (bytes : List Byte)
  | key (key : Option Key)
  | sas (s : String)

namespace Pair

def untimed (p : Pair) : Pair := { p with tStarted := 0 }

section

variable (k : Crypto)

def perform (p : Pair) : PairOp → Pair × PairReply
  | .begin now windowMs fresh => (pairBegin p now windowMs fresh, .nothing)
  | .rx payload now => (pairRx k p payload now, .nothing)
  | .tick now => (pairTick p now, .nothing)
  | .takeEvents => ((pairTakeEvents p).2, .events (pairTakeEvents p).1)
  | .buildOffer cap => (p, .payload (pairBuildOffer p cap))
  | .buildConfirm cap => (p, .payload (pairBuildConfirm k p cap))
  | .buildAbort cap => (p, .payload (pairBuildAbort p cap))
  | .chainKey => (p, .key (pairChainKey p))
  | .sasString => (p, .sas (pairSasString p))

/-- One operation, and what it returns and leaves. -/
def respond (p : Pair) (o : PairOp) : Pair × PairReply × Pair :=
  ((p.perform k o).1, (p.perform k o).2, (p.perform k o).1.untimed)

end

/-- `q` is `p`, and its start, once there is one, is later by `c`. -/
def Later (c : Time) (p q : Pair) : Prop :=
  ∃ t, q = { p with tStarted := t } ∧ (p.state ≠ .idle → t = p.tStarted + c)

variable {k : Crypto} {c : Time} {p q : Pair}

theorem Later.untimed (h : Later c p q) : q.untimed = p.untimed := by
  obtain ⟨t, rfl, -⟩ := h
  rfl

/-- Started already, and the same but for when. -/
theorem Later.started {t : Time} (ht : t = p.tStarted + c) : Later c p { p with tStarted := t } := ⟨t, rfl, fun _ => ht⟩

theorem Later.abort {t : Time} (ht : t = p.tStarted + c) (why : PairAbort) :
    Later c (abortWith p why) (abortWith { p with tStarted := t } why) := by
  unfold abortWith
  dsimp only
  split
  · exact .started ht
  · exact ⟨t, rfl, fun _ => ht⟩

theorem Later.rxOffer {t : Time} (ht : t = p.tStarted + c) (b : List Byte) :
    Later c (rxOffer k p b) (rxOffer k { p with tStarted := t } b) := by
  unfold Trust.rxOffer
  dsimp only
  split
  · exact .started ht
  split
  · exact .started ht
  split
  · split
    · exact ⟨t, rfl, fun _ => ht⟩
    · exact .started ht
  split
  · exact @Later.abort c { p with offersSeen := p.offersSeen + 1 } t ht .thirdParty
  · have hd : derive k (storePeer { p with tStarted := t } b) =
        (derive k (storePeer p b)).map fun d => { d with tStarted := t } := by
      unfold derive storePeer buildTranscript
      dsimp only
      cases k.dhShared p.secret (slice b 9 dhBytes) <;> rfl
    rw [hd]
    cases he : derive k (storePeer p b) with
    | none => exact @Later.abort c (storePeer p b) t ht .badKey
    | some d =>
      have hdt : d.tStarted = p.tStarted := by
        obtain ⟨shared, -, rfl⟩ := Option.map_eq_some_iff.mp he
        rfl
      exact ⟨t, rfl, fun _ => ht.trans (congrArg (· + c) hdt.symm)⟩

theorem Later.rxConfirm {t : Time} (ht : t = p.tStarted + c) (b : List Byte) :
    Later c (rxConfirm p b) (rxConfirm { p with tStarted := t } b) := by
  unfold Trust.rxConfirm
  dsimp only
  split
  · exact .started ht
  split
  · exact .started ht
  split
  · exact .abort ht .badConfirm
  split
  · exact ⟨t, rfl, fun _ => ht⟩
  · exact ⟨t, rfl, fun _ => ht⟩

theorem windowOpen_later {t : Time} (ht : t = p.tStarted + c) (now : Time) :
    windowOpen { p with tStarted := t } (now + c) = windowOpen p now := by
  subst ht
  unfold windowOpen
  rw [timeAfter_add]

theorem Later.rx (h : Later c p q) (payload : List Byte) (now : Time) :
    Later c (pairRx k p payload now) (pairRx k q payload (now + c)) := by
  obtain ⟨t, rfl, ht⟩ := h
  by_cases hi : p.state = .idle
  · have hdrop : ∀ (p : Pair) (now : Time), p.state = .idle → pairRx k p payload now = p := by
      intro p now hp
      exact if_pos (by simp [hp])
    rw [hdrop p now hi, hdrop { p with tStarted := t } (now + c) hi]
    exact ⟨t, rfl, ht⟩
  · have ht := ht hi
    unfold pairRx
    rw [windowOpen_later ht]
    dsimp only
    split
    · exact .started ht
    split
    · split
      · split
        · exact .abort ht .thirdParty
        · exact .started ht
      · exact .rxOffer ht payload
    split
    · exact .rxConfirm ht payload
    split
    · exact .abort ht .peer
    · exact .started ht

theorem Later.tick (h : Later c p q) (now : Time) : Later c (pairTick p now) (pairTick q (now + c)) := by
  obtain ⟨t, rfl, ht⟩ := h
  unfold pairTick
  dsimp only
  split
  · exact ⟨t, rfl, ht⟩
  · rename_i hs
    have ht := ht fun hi => hs ⟨by rw [hi]; decide, by rw [hi]; decide⟩
    rw [windowOpen_later ht]
    split
    · exact .abort ht .timeout
    · exact .started ht

theorem Later.perform (h : Later c p q) (o : PairOp) :
    Later c (p.perform k o).1 (q.perform k (o.later c)).1 ∧ (q.perform k (o.later c)).2 = (p.perform k o).2 := by
  cases o with
  | begin now windowMs fresh =>
    obtain ⟨t, rfl, -⟩ := h
    exact ⟨⟨now + c, rfl, fun _ => rfl⟩, rfl⟩
  | rx payload now => exact ⟨h.rx payload now, rfl⟩
  | tick now => exact ⟨h.tick now, rfl⟩
  | takeEvents =>
    obtain ⟨t, rfl, ht⟩ := h
    exact ⟨⟨t, rfl, ht⟩, rfl⟩
  | buildOffer cap | buildConfirm cap | buildAbort cap | chainKey | sasString =>
    obtain ⟨t, rfl, ht⟩ := h
    exact ⟨⟨t, rfl, ht⟩, rfl⟩

theorem Later.respond (h : Later c p q) (o : PairOp) :
    Later c (p.respond k o).1 (q.respond k (o.later c)).1 ∧ (q.respond k (o.later c)).2 = (p.respond k o).2 := by
  obtain ⟨hkept, hreply⟩ := h.perform (k := k) o
  exact ⟨hkept, Prod.ext hreply hkept.untimed⟩

theorem later_init (uid : Uid) : Later c (pairInit uid) (pairInit uid) := ⟨0, rfl, fun h => absurd rfl h⟩

end Pair

end DeskHop.Trust
