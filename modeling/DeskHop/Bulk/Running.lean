/-
  DeskHop.Bulk.Running — the receiver's running checksum (`core/src/data.c`: `rx_chunk`).

  At every stop of every run the word kept for a stream that comes in is the checksum of
  what the application has been handed of it (`running_of_delivered`), however that was
  cut into chunks: it can be compared with the sender's, of the whole.
-/

import DeskHop.Bulk.Checksum
import DeskHop.Bulk.Table

namespace DeskHop.Bulk

open DeskHop.Lib DeskHop.Wire

/-- The word kept for a stream that comes in is that of what has been handed over. -/
def Data.Tallied (d : Data) : Prop :=
  ∀ i, (d.s i).state ≠ .free → (d.s i).outbound = false → (d.s i).running = contentCrc (delivered i d.notes)

section turned

variable {d d' : Data} {i : Handle} {s : Stream} {msgs : List (Addr × List Byte)} {ns : List Note}

/-- What is logged about one stream leaves what another has been handed. -/
theorem Data.Tallied.wrote (h : d.Tallied) (hw : Wrote d i s msgs ns d') (hns : ∀ n ∈ ns, n.handle = i)
    (hi : s.state ≠ .free → s.outbound = false → s.running = contentCrc (delivered i (d.notes ++ ns))) : d'.Tallied := by
  intro j hj ho
  rw [hw.notes]
  by_cases hji : j = i
  · subst hji
    rw [hw.self] at hj ho ⊢
    exact hi hj ho
  · rw [hw.ne hji] at hj ho ⊢
    have hsame : delivered j (d.notes ++ ns) = delivered j d.notes := by
      clear hw hi
      induction ns using List.reverseRecOn with
      | nil => rw [List.append_nil]
      | append_singleton ns n ih =>
        have hn : n.handle ≠ j := fun hk => hji (hk.symm.trans (hns n (by simp)))
        rw [← List.append_assoc, delivered_other _ hn]
        exact ih fun n hn => hns n (List.mem_append_left _ hn)
    rw [hsame]
    exact h j hj ho

theorem Turned.tallied {m m' : Mid} (h : Turned m m') (hm : m.d.Tallied) : m'.d.Tallied := by
  cases h with
  | @goesOn i s msgs hs hrun _ hw =>
    refine hm.wrote hw (by simp) fun hu ho => ?_
    rw [hrun, List.append_nil]
    exact hm i (fun hf => hu (hs.free.mpr hf)) (hs.outbound.symm.trans ho)
  | @takes i s offset data hs hlive hrun hw =>
    refine hm.wrote hw (by simp [Note.handle]) fun _ ho => ?_
    have hused : (m.d.s i).state ≠ .free := fun hf => by rw [hlive] at hf; cases hf
    rw [hrun, hm i hused (hs.outbound.symm.trans ho), delivered_snoc, deliveredStep, if_pos rfl, contentCrc, adler_append]
    rfl
  | @ends i r msgs ns hns _ hw =>
    refine hm.wrote hw (fun n hn => ?_) fun hu => absurd rfl hu
    rcases hns with ⟨rfl, -⟩ | ⟨rfl, -⟩
    · rw [List.mem_singleton.mp hn, endNote_handle]
    · cases hn
  | endsAgain _ _ hw => exact hm.wrote hw (by simp [Note.handle]) fun hu => absurd rfl hu
  | begins _ hs hw =>
    refine hm.wrote hw (by simp [Note.handle]) fun _ ho => ?_
    rw [hs.2.1] at ho
    cases ho
  | opens _ _ hs hw =>
    refine hm.wrote hw (by simp [Note.handle]) fun _ _ => ?_
    rw [hs.2.2, delivered_snoc, deliveredStep, if_pos rfl]
    rfl

end turned

theorem Endpoint.Fresh.tallied {m : Endpoint} (h : m.Fresh) : m.d.Tallied := by
  obtain ⟨⟨hs, -⟩, -⟩ := h
  intro i hu
  rw [hs] at hu
  exact absurd rfl hu

theorem running_of_delivered {m : Endpoint} (h : Reach Endpoint.Fresh (fun _ _ => True) Endpoint.step m) {i : Handle}
    (hi : (m.d.s i).comesIn) : (m.d.s i).running = contentCrc (delivered i m.d.notes) := by
  have hkept : m.Sound ∧ m.d.Tallied := h.inv (I := fun m => m.Sound ∧ m.d.Tallied) (fun _ h0 => ⟨h0.sound, h0.tallied⟩)
    fun _ e hm _ => ⟨Endpoint.step_sound hm.1 e, turned_keeps (fun _ _ _ ht => ht.tallied) hm.1 e hm.2⟩
  have hused : (m.d.s i).state ≠ .free := by
    rcases hi with hi | hi <;> rw [hi] <;> decide
  exact hkept.2 i hused ((hkept.1.sorted i).inbound hi).1

/-- However a content is cut, and empty pieces count: the word folded over the pieces packs
    the two sums by definition, both below the modulus; no addition wraps, and no bit is
    lost when they are packed; it is the sender's word for the whole, and what the receiver
    has after the chunks it was handed is that word for them. -/
theorem adler32_by_definition (pieces : List (List Byte)) {m : Endpoint}
    (h : Reach Endpoint.Fresh (fun _ _ => True) Endpoint.step m) :
    pieces.foldl adler32Update adlerInit =
        UInt32.ofNat (adlerB pieces.flatten) <<< 16 ||| UInt32.ofNat (adlerA pieces.flatten) ∧
      adlerA pieces.flatten < 65521 ∧ adlerB pieces.flatten < 65521 ∧
      (∀ before piece after pre x post, pieces = before ++ piece :: after → piece = pre ++ x :: post →
        Unwrapped (pre.foldl adlerByte (unpacked (before.foldl adler32Update adlerInit))) x) ∧
      (pieces.foldl adler32Update adlerInit).toNat = adlerB pieces.flatten * 65536 + adlerA pieces.flatten ∧
      pieces.foldl adler32Update adlerInit = contentCrc pieces.flatten ∧
      ∀ i, (m.d.s i).comesIn → (m.d.s i).running = contentCrc (delivered i m.d.notes) := by
  obtain ⟨ha, hb⟩ := sums_eq pieces.flatten
  refine ⟨?_, adlerA_lt _, adlerB_lt _, ?_, ?_, adler_pieces pieces, fun i => running_of_delivered h⟩
  · rw [adler_pieces, contentCrc_eq, packed, ← ha, ← hb, UInt32.ofNat_toNat, UInt32.ofNat_toNat]
  · intro before piece after pre x post _ _
    rw [adler_pieces, contentCrc_eq, unpacked_packed (sums_reduced _)]
    exact ((sums_reduced _).bytes pre).unwrapped x
  · rw [adler_pieces, contentCrc_eq, (packed_toNat (sums_reduced _)).1, ha, hb]

/-- Three bytes, the second piece empty, and an endpoint that has received nothing. -/
theorem adler32_by_definition_of_three :
    [[1], [], [2, 3]].foldl adler32Update adlerInit = UInt32.ofNat 13 <<< 16 ||| UInt32.ofNat 7 :=
  (adler32_by_definition [[1], [], [2, 3]] (.init freshEndpoint_fresh)).1

end DeskHop.Bulk
