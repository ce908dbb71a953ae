/-
  DeskHop.Client.Payloads — every payload there is, written and read back
  (`core/src/msg.c`, `core/src/local.c`, `core/src/auth.c`).

  The chain's own payloads are fields at fixed places and nothing else. The two between a
  board and its client begin with a byte that tells them apart, and so do those of the
  pairing, which another board reads than the one that writes them.

  Proved: each format's writer and reader are inverse, whatever the values or the bytes,
  and a pairing message means to its reader just what its writer put there
  (`payloads_inverse`).
-/

import DeskHop.Client.Status
import DeskHop.Trust.Payloads

namespace DeskHop.Client

open DeskHop.Lib DeskHop.Trust

/-- The handling of an OFFER or a CONFIRM depends on it through those fields alone; a board
    that has no peer yet stores them. -/
theorem payloads_inverse :
    Codec helloBytes (fun _ => True) helloPack helloUnpack ∧
    Codec kbdBytes (fun _ => True) kbdPack kbdUnpack ∧
    Codec mouseBytes (fun _ => True) mousePack mouseUnpack ∧
    Codec focusBytes (fun _ => True) focusPack focusUnpack ∧
    Codec topoBytes (fun _ => True) topoPack topoUnpack ∧
    Codec localAttachBytes (fun b => byteAt b 0 = localAttach) localAttachPack localAttachUnpack ∧
    Codec localStatusBytes (fun b => byteAt b 0 = localStatus) localStatusPack localStatusUnpack ∧
    (∀ (c : Crypto) (p q : Pair) (cap : Nat) (now : Time), offerLen ≤ cap →
      pairRx c q (pairBuildOffer p cap) now = hearOffer c q ⟨p.selfUid, p.selfPublic, p.selfNonce⟩ now ∧
      (q.state = .waiting ∨ q.state = .confirmWait → q.havePeer = false → p.selfUid ≠ q.selfUid →
        peerOffer (pairRx c q (pairBuildOffer p cap) now) = some ⟨p.selfUid, p.selfPublic, p.selfNonce⟩)) ∧
    ∀ (c : Crypto) (p q : Pair) (tag : Bytes confirmBytes) (cap : Nat) (now : Time), confirmLen ≤ cap →
      p.havePeer = true → buildOwnConfirm c p = some tag →
        pairRx c q (pairBuildConfirm c p cap) now = hearConfirm q ⟨p.selfUid, tag⟩ := by
  refine ⟨hello_codec, kbd_codec, mouse_codec, focus_codec, topo_codec, localAttach_codec, localStatus_codec, ?_, ?_⟩
  · intro c p q cap now hcap
    have hheard := pairRx_buildOffer (c := c) hcap p q now
    refine ⟨hheard, fun hrun hpeer hown => ?_⟩
    rw [hheard]
    exact hearOffer_keeps hrun hpeer hown now
  · intro c p q tag cap now hcap hpeer htag
    exact pairRx_buildConfirm hcap hpeer htag q now

/-- Two boards that have just begun, and the first once it has the other's offer. -/
theorem payloads_inverse_of_two :
    let joined := pairRx mockCrypto (sample 1 1) (sampleOffer 2 2) 1000
    peerOffer (pairRx mockCrypto (sample 2 2) (sampleOffer 1 1) 1000) = some (ownOffer (sample 1 1)) ∧
      ∃ tag, buildOwnConfirm mockCrypto joined = some tag ∧
        pairRx mockCrypto (sample 2 2) (pairBuildConfirm mockCrypto joined 64) 1000 = hearConfirm (sample 2 2) ⟨1, tag⟩ := by
  intro joined
  obtain ⟨-, -, -, -, -, -, -, hoffer, hconfirm⟩ := payloads_inverse
  have hstored := (hoffer mockCrypto (sample 1 1) (sample 2 2) 64 1000 (by decide)).2 (Or.inl rfl) rfl (by decide)
  have hsome : (buildOwnConfirm mockCrypto joined).isSome = true := by decide +kernel
  have hpeer : joined.havePeer = true := by decide +kernel
  have hself : joined.selfUid = 1 := by decide +kernel
  have htag : buildOwnConfirm mockCrypto joined = some ((buildOwnConfirm mockCrypto joined).get hsome) :=
    (Option.some_get hsome).symm
  have hheard := hconfirm mockCrypto joined (sample 2 2) _ 64 1000 (by decide) hpeer htag
  rw [hself] at hheard
  exact ⟨hstored, _, htag, hheard⟩

end DeskHop.Client
