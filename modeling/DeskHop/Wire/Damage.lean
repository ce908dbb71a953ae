/-
  DeskHop.Wire.Damage — what the CRC finds (`core/src/crc16.c`; `core/src/frame.c`:
  `finish`).

  The register is a linear one that loses nothing (`Lib.Shift`): a byte, or two in a row,
  lead it to a state of their own, and what follows keeps the states apart. So where the CRC
  field matched, an error in one byte, the field's own included, or in two adjacent bytes
  before the field is found (`damage_found`). A body too short to be a frame is turned down
  before that (`short_body_not_checked`).
-/

import DeskHop.Lib.Shift
import DeskHop.Wire.Batch

namespace DeskHop.Wire

open DeskHop.Lib

/-! ## The register -/

theorem top_bit (crc : UInt16) : crc &&& 0x8000 = 0 ↔ crc.toBitVec.msb = false := by
  have hmask : ∀ j : Fin 16, (0x8000#16)[j.val] = decide (j.val = 15) := by decide
  have hlast : crc.toBitVec.msb = crc.toBitVec[15] := BitVec.msb_eq_getLsbD_last ..
  rw [← UInt16.toBitVec_inj, hlast]
  constructor
  · intro h
    have hbit := congrArg (·[15]) h
    simpa using hbit
  · intro h
    ext i hi
    have hi8 : (0x8000#16)[i] = decide (i = 15) := hmask ⟨i, hi⟩
    by_cases hi15 : i = 15
    · subst hi15
      simp [h]
    · simp [hi8, hi15]

theorem crc16Bit_toBitVec (crc : UInt16) : (crc16Bit crc).toBitVec = shift 0x1021#16 crc.toBitVec := by
  unfold crc16Bit shift
  cases h : crc.toBitVec.msb with
  | false =>
    rw [if_neg (not_not.mpr ((top_bit crc).mpr h))]
    rfl
  | true =>
    have htop : crc &&& 0x8000 ≠ 0 := by
      rw [Ne, top_bit, h]
      exact Bool.noConfusion
    rw [if_pos htop]
    rfl

theorem crc16Bit_iterate_toBitVec (k : Nat) (crc : UInt16) :
    (crc16Bit^[k] crc).toBitVec = (shift 0x1021#16)^[k] crc.toBitVec :=
  Function.Semiconj.iterate_right (f := UInt16.toBitVec) crc16Bit_toBitVec k crc

theorem crc16Bit_iterate_injective (k : Nat) : Function.Injective crc16Bit^[k] := by
  intro s t h
  have hbits := congrArg UInt16.toBitVec h
  rw [crc16Bit_iterate_toBitVec, crc16Bit_iterate_toBitVec] at hbits
  exact UInt16.toBitVec_inj.mp (shift_iterate_injective rfl k hbits)

theorem crc16Bit_iterate_xor (k : Nat) (s t : UInt16) :
    crc16Bit^[k] (s ^^^ t) = crc16Bit^[k] s ^^^ crc16Bit^[k] t := by
  apply UInt16.toBitVec_inj.mp
  rw [UInt16.toBitVec_xor, crc16Bit_iterate_toBitVec, crc16Bit_iterate_toBitVec, crc16Bit_iterate_toBitVec,
    UInt16.toBitVec_xor, shift_iterate_xor]

theorem xor_common (a b c : UInt16) : (a ^^^ b) ^^^ (a ^^^ c) = b ^^^ c := by
  rw [UInt16.xor_comm a b, UInt16.xor_assoc, ← UInt16.xor_assoc a a, UInt16.xor_self, UInt16.zero_xor]

theorem xor_swap {a b c d : UInt16} (h : a ^^^ b = c ^^^ d) : a ^^^ c = b ^^^ d := by
  refine UInt16.xor_eq_zero_iff.mp ?_
  rw [UInt16.xor_assoc, ← UInt16.xor_assoc c, UInt16.xor_comm c b, UInt16.xor_assoc b, ← UInt16.xor_assoc, h,
    UInt16.xor_self]

theorem crc16Byte_injective (b : Byte) : Function.Injective fun s => crc16Byte s b := by
  intro s t h
  have hin := crc16Bit_iterate_injective 8 h
  rw [UInt16.xor_comm s, UInt16.xor_comm t] at hin
  exact (UInt16.xor_right_inj _).mp hin

theorem crc16Update_injective (data : List Byte) : Function.Injective fun s => crc16Update s data :=
  foldl_injective crc16Byte_injective data

/-- A byte at the top of a register. -/
theorem top_eq {b c : Byte} (h : b.toUInt16 <<< 8 = c.toUInt16 <<< 8) : b = c := by
  apply UInt8.toBitVec_inj.mp
  ext i hi
  have hbit := congrArg (fun s : UInt16 => s.toBitVec.getLsbD (i + 8)) h
  simpa [hi, show i + 8 < 16 by omega, show i < 16 by omega, show ¬ i + 8 < 8 by omega] using hbit

theorem top_xor (b c : Byte) : (b ^^^ c).toUInt16 <<< 8 = b.toUInt16 <<< 8 ^^^ c.toUInt16 <<< 8 := by
  rw [UInt8.toUInt16_xor, UInt16.shiftLeft_xor]

theorem top_low (b : Byte) : b.toUInt16 <<< 8 &&& 0xFF = 0 := by
  have hmask : ∀ j : Fin 16, (0xFF#16)[j.val] = decide (j.val < 8) := by decide
  apply UInt16.toBitVec_inj.mp
  ext i hi
  have hi8 : (0xFF#16)[i] = decide (i < 8) := hmask ⟨i, hi⟩
  by_cases h : i < 8
  · simp [h]
  · simp [hi8, h]

/-- What only the top differs by shows at the bottom, eight turns later. -/
theorem crc16_top (e : Byte) (h : crc16Bit^[8] (e.toUInt16 <<< 8) &&& 0xFF = 0) : e = 0 := by
  have hall : ∀ n : Fin 256, crc16Bit^[8] ((UInt8.ofNat n.val).toUInt16 <<< 8) &&& 0xFF = 0 → UInt8.ofNat n.val = 0 := by
    decide +kernel
  have := hall ⟨e.toNat, e.toNat_lt⟩
  simp only [UInt8.ofNat_toNat] at this
  exact this h

theorem crc16Byte_ne {b x : Byte} (s : UInt16) (h : b ≠ x) : crc16Byte s b ≠ crc16Byte s x := fun heq =>
  h (top_eq ((UInt16.xor_right_inj _).mp (crc16Bit_iterate_injective 8 heq)))

theorem crc16Byte_pair {b c x y : Byte} {s : UInt16} (h : crc16Byte (crc16Byte s b) c = crc16Byte (crc16Byte s x) y) :
    b = x ∧ c = y := by
  have hin : crc16Byte s b ^^^ c.toUInt16 <<< 8 = crc16Byte s x ^^^ y.toUInt16 <<< 8 := crc16Bit_iterate_injective 8 h
  -- what the two states differ by comes from the first byte, and is all at the top
  have hdiff : crc16Bit^[8] ((b ^^^ x).toUInt16 <<< 8) = (c ^^^ y).toUInt16 <<< 8 := by
    calc crc16Bit^[8] ((b ^^^ x).toUInt16 <<< 8)
        = crc16Byte s b ^^^ crc16Byte s x := by
          rw [crc16Byte, crc16Byte, ← crc16Bit_iterate_xor, xor_common, top_xor]
      _ = (c ^^^ y).toUInt16 <<< 8 := by
          rw [top_xor]
          exact xor_swap hin
  have hbx : b = x := by
    have hzero : b ^^^ x = 0 := crc16_top _ (by rw [hdiff, top_low])
    exact UInt8.xor_eq_zero_iff.mp hzero
  subst hbx
  exact ⟨rfl, top_eq ((UInt16.xor_right_inj _).mp hin)⟩

/-! ## Damage -/

/-- The CRC field holds the CRC of what is before it. -/
def CrcMatches (body : List Byte) : Prop :=
  get16 body (body.length - crcBytes) = crc16 (body.take (body.length - crcBytes))

instance (body : List Byte) : Decidable (CrcMatches body) := by
  unfold CrcMatches
  infer_instance

/-- An error in one byte, or in two adjacent ones before the CRC field. -/
inductive Damaged : List Byte → List Byte → Prop
  | one (pre post : List Byte) {b x : Byte} (h : b ≠ x) : Damaged (pre ++ b :: post) (pre ++ x :: post)
  | two (pre post : List Byte) {b c x y : Byte} (hpost : crcBytes ≤ post.length) (h : b ≠ x ∨ c ≠ y) :
    Damaged (pre ++ b :: c :: post) (pre ++ x :: y :: post)

theorem Damaged.length_eq {body body' : List Byte} (h : Damaged body body') : body'.length = body.length := by
  cases h with
  | one pre post h => rw [List.length_append, List.length_append]; rfl
  | two pre post hpost h => rw [List.length_append, List.length_append]; rfl

theorem crc16_append (pre post : List Byte) : crc16 (pre ++ post) = crc16Update (crc16 pre) post := List.foldl_append

theorem crc16_one_ne (pre post : List Byte) {b x : Byte} (h : b ≠ x) :
    crc16 (pre ++ x :: post) ≠ crc16 (pre ++ b :: post) := by
  rw [crc16_append, crc16_append]
  exact fun heq => crc16Byte_ne _ h (crc16Update_injective post heq).symm

theorem crc16_two_ne (pre post : List Byte) {b c x y : Byte} (h : b ≠ x ∨ c ≠ y) :
    crc16 (pre ++ x :: y :: post) ≠ crc16 (pre ++ b :: c :: post) := by
  rw [crc16_append, crc16_append]
  intro heq
  obtain ⟨hb, hc⟩ := crc16Byte_pair (crc16Update_injective post heq).symm
  exact h.elim (· hb) (· hc)

/-- Damage before the field, or to it alone. -/
theorem Damaged.split {data field body' : List Byte} (h : Damaged (data ++ field) body') (hf : field.length = crcBytes) :
    ∃ data' field', body' = data' ++ field' ∧ field'.length = crcBytes ∧
      (crc16 data' ≠ crc16 data ∧ field' = field ∨ data' = data ∧ field' ≠ field) := by
  generalize hbody : data ++ field = body at h
  cases h with
  | one pre post h =>
    rename_i b x
    rcases List.append_eq_append_iff.mp hbody with ⟨bs, rfl, rfl⟩ | ⟨as, rfl, hpost⟩
    · refine ⟨data, bs ++ x :: post, List.append_assoc .., ?_, Or.inr ⟨rfl, fun heq => h ?_⟩⟩
      · rw [← hf, List.length_append, List.length_append]
        rfl
      · exact (List.cons.inj (List.append_cancel_left heq)).1.symm
    · cases as with
      | nil =>
        obtain rfl : b :: post = field := hpost
        exact ⟨pre, x :: post, rfl, hf, Or.inr ⟨(List.append_nil _).symm, fun heq => h (List.cons.inj heq).1.symm⟩⟩
      | cons a as =>
        obtain ⟨rfl, rfl⟩ := List.cons.inj hpost
        refine ⟨pre ++ x :: as, field, ?_, hf, Or.inl ⟨crc16_one_ne pre as h, rfl⟩⟩
        rw [List.append_assoc]
        rfl
  | two pre post hpost h =>
    rename_i b c x y
    have hcut : (pre ++ b :: c :: post.take (post.length - crcBytes)) ++ post.drop (post.length - crcBytes) =
        data ++ field := by
      rw [hbody, List.append_assoc]
      simp only [List.cons_append, List.take_append_drop]
    have hlen : (post.drop (post.length - crcBytes)).length = crcBytes := by
      rw [List.length_drop]
      omega
    obtain ⟨rfl, rfl⟩ := List.append_inj' hcut (hlen.trans hf.symm)
    refine ⟨pre ++ x :: y :: post.take (post.length - crcBytes), post.drop (post.length - crcBytes), ?_, hlen,
      Or.inl ⟨crc16_two_ne pre _ h, rfl⟩⟩
    rw [List.append_assoc]
    simp only [List.cons_append, List.take_append_drop]

theorem crcMatches_append {data field : List Byte} (hf : field.length = crcBytes) :
    CrcMatches (data ++ field) ↔ field = put16 (crc16 data) := by
  have hcut : (data ++ field).length - crcBytes = data.length := by
    rw [List.length_append, hf, Nat.add_sub_cancel]
  have hread : get16 (data ++ field) data.length = get16 field 0 := get16_append_add data field 0
  rw [CrcMatches, hcut, hread, List.take_left]
  constructor
  · intro h
    have hput : put16 (get16 field 0) = (field.drop 0).take 2 := field16.put_get hf.ge
    rw [h, List.drop_zero, List.take_of_length_le (show field.length ≤ 2 from hf.le)] at hput
    exact hput.symm
  · rintro rfl
    exact field16.get_last (crc16 data) []

theorem Damaged.not_crcMatches {body body' : List Byte} (h : Damaged body body') (hlong : crcBytes ≤ body.length)
    (hcrc : CrcMatches body) : ¬ CrcMatches body' := by
  have hcut : body = body.take (body.length - crcBytes) ++ body.drop (body.length - crcBytes) :=
    (List.take_append_drop ..).symm
  have hf : (body.drop (body.length - crcBytes)).length = crcBytes := by
    rw [List.length_drop]
    omega
  generalize body.take (body.length - crcBytes) = data at hcut
  generalize body.drop (body.length - crcBytes) = field at hcut hf
  subst hcut
  obtain ⟨data', field', rfl, hf', hwhere⟩ := h.split hf
  rw [crcMatches_append hf] at hcrc
  rw [crcMatches_append hf']
  intro hmatch
  rcases hwhere with ⟨hne, rfl⟩ | ⟨rfl, hne⟩
  · exact hne (field16.put_inj (hmatch.symm.trans hcrc))
  · exact hne (hmatch.trans hcrc.symm)

/-! ## What the check makes of it -/

theorem finish_crc {fr : Framer} (key : Option Key) (hlong : frameOverhead ≤ fr.body.length)
    (h : ¬ CrcMatches fr.body) : (finish fr key).2 = .error .crc := by
  unfold finish
  rw [if_neg (Nat.not_lt.mpr hlong)]
  exact congrArg Prod.snd (if_pos h)

/-- Where the CRC field matched, an error in a byte or in two adjacent ones is found. -/
theorem damage_found (fr : Framer) (key : Option Key) (body' : List Byte) (hcrc : CrcMatches fr.body)
    (h : Damaged fr.body body') :
    (finish { fr with body := body' } key).2 = .error (if frameOverhead ≤ body'.length then .crc else .trunc) := by
  by_cases hlong : frameOverhead ≤ body'.length
  · rw [if_pos hlong]
    refine finish_crc key hlong (h.not_crcMatches ?_ hcrc)
    rw [← h.length_eq]
    exact Nat.le_trans (by decide) hlong
  · rw [if_neg hlong]
    unfold finish
    rw [if_pos (Nat.not_le.mp hlong)]

/-- A frame with nothing in it, up to its CRC. -/
def bareBody : List Byte := [0x10, 20, 0, 1, 0, 2, 0, 1, 0, 0, 0, 0, 0]

theorem damage_found_in_a_frame :
    (finish { framerInit with body := 0x30 :: bareBody.drop 1 ++ put16 (crc16 bareBody) } none).2 = .error .crc :=
  damage_found { framerInit with body := bareBody ++ put16 (crc16 bareBody) } none _ ((crcMatches_append rfl).mpr rfl)
    (.one [] (bareBody.drop 1 ++ put16 (crc16 bareBody)) (by decide))

/-- Two bytes of CRC and nothing before them. -/
theorem short_body_not_checked : ¬ ∀ (fr : Framer) (key : Option Key) (body' : List Byte), CrcMatches fr.body →
    Damaged fr.body body' → (finish { fr with body := body' } key).2 = .error .crc := by
  intro h
  have hcrc := h { framerInit with body := [0xFF, 0xFF] } none [0xFE, 0xFF] (by decide) (.one [] [0xFF] (by decide))
  cases hcrc

end DeskHop.Wire
