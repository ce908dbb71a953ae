/-
  DeskHop.Device.KeyRecord — the chain key in the last flash sector
  (`firmware/rp2040/src/board.c`).

  Erasing sets every bit of a sector; programming clears bits, byte by byte from the start of
  a page. The power can fail after any byte. A record is a magic word, the key and a check
  word, and a key is loaded only from a record whose words agree.

  Proved: what is saved is loaded, and nothing after an erase (`load_save`, `load_erase`). A
  save that was cut short leaves no key, the key itself, or, where the check word is still
  erased, the first bytes of the key with ones behind them, and that only if all ones happen
  to be their check (`load_torn`, `key_of_whole`). A record of which a single word has changed is never loaded
  (`load_damaged`).
-/

import DeskHop.Core.Fields
import DeskHop.Wire.Integrity

namespace DeskHop.Device

open DeskHop.Lib DeskHop.Wire

/-! ## Flash -/

def flashSectorSize : Nat := 4096
def flashPageSize : Nat := 256

abbrev Sector := Bytes flashSectorSize

def flashErase : Sector := ⟨List.replicate flashSectorSize 0xFF, List.length_replicate⟩

/-- The bytes `bs` programmed at the start of the sector. -/
def flashProgram (s : Sector) (bs : List Byte) : Sector :=
  ⟨s.val.mapIdx fun i b => if i < bs.length then b &&& byteAt bs i else b, by rw [List.length_mapIdx, s.property]⟩

/-! ## The record -/

/-- "DHPK". -/
def keyMagic : UInt32 := 0x4448504B

/-- `key_record_t`. -/
structure KeyRecord where
  magic : UInt32
  key : Key
  check : UInt32
  deriving DecidableEq

def keyRecordBytes : Nat := 24

def keyRecordPut (r : KeyRecord) : List Byte := put32 r.magic ++ (r.key.val ++ put32 r.check)

def keyRecordAt (b : List Byte) : KeyRecord := ⟨get32 b 0, slice b 4 16, get32 b 20⟩

def keyCheck (key : Key) : UInt32 := (List.range 4).foldl (fun c i => c ^^^ get32 key.val (i * 4)) keyMagic

def boardKeyLoad (s : Sector) : Option Key :=
  let r := keyRecordAt s.val
  if r.magic ≠ keyMagic || r.check ≠ keyCheck r.key then none else some r.key

/-- The page `board_key_save` programs. -/
def keyPage (key : Key) : List Byte :=
  let bytes := keyRecordPut ⟨keyMagic, key, keyCheck key⟩
  bytes ++ List.replicate (flashPageSize - bytes.length) 0xFF

/-- `_s`: what was in the sector. -/
def boardKeySave (_s : Sector) (key : Key) : Sector := flashProgram flashErase (keyPage key)

def boardKeyErase (_s : Sector) : Sector := flashErase

/-- The power fails once `k` bytes have been programmed. -/
def tornSave (key : Key) (k : Nat) : Sector := flashProgram flashErase ((keyPage key).take k)

/-! ## Words -/

theorem put32_get32 (a b c d : Byte) (r : List Byte) : put32 (get32 (a :: b :: c :: d :: r) 0) = [a, b, c, d] := by
  have hbyte (i : Nat) (x : Byte)
      (hx : ∀ j (_ : j < 8), (get32 (a :: b :: c :: d :: r) 0 >>> (8 * UInt32.ofNat i)).toUInt8.toBitVec[j] = x.toBitVec[j]) :
      (get32 (a :: b :: c :: d :: r) 0 >>> (8 * UInt32.ofNat i)).toUInt8 = x := by
    apply UInt8.toBitVec_inj.mp
    ext j hj
    exact hx j hj
  have h0 := hbyte 0 a fun j hj => by simp [get32, byteAt, List.range_succ]
  have h1 := hbyte 1 b fun j hj => by
    simp [get32, byteAt, List.range_succ]
    grind
  have h2 := hbyte 2 c fun j hj => by
    simp [get32, byteAt, List.range_succ]
    grind
  have h3 := hbyte 3 d fun j hj => by
    simp [get32, byteAt, List.range_succ]
    grind
  simp only [put32, List.range_succ, List.range_zero, List.nil_append, List.map_append, List.map_cons, List.map_nil, h0,
    h1, h2, h3]
  rfl

theorem length_put32 (v : UInt32) : (put32 v).length = 4 := rfl

theorem field32 : Field 4 put32 get32 where
  length_put := length_put32
  get_put v l r := by
    rw [List.append_assoc]
    exact (get32_append_add l (put32 v ++ r) 0).trans (get32_put32 v r)
  put_get {b off} h := by
    have hfour : [byteAt b off, byteAt b (off + 1), byteAt b (off + 2), byteAt b (off + 3)] = (b.drop off).take 4 :=
      map_byteAt b off h
    have hread : get32 b off =
        get32 (byteAt b off :: byteAt b (off + 1) :: byteAt b (off + 2) :: byteAt b (off + 3) :: []) 0 := rfl
    rw [hread, put32_get32, hfour]

/-- The record is read as it is written, whatever follows it. -/
theorem keyRecordAt_put (r : KeyRecord) (more : List Byte) : keyRecordAt (keyRecordPut r ++ more) = r := by
  have hrecord := (field32.pair ((bytesField 16).pair field32)).get_put (r.magic, r.key, r.check) [] more
  rw [List.nil_append] at hrecord
  have h1 := congrArg Prod.fst hrecord
  have h2 := congrArg (fun p => p.2.1) hrecord
  have h3 := congrArg (fun p => p.2.2) hrecord
  rw [keyRecordAt, keyRecordPut]
  exact congrArg₂ (fun m (kc : Key × UInt32) => KeyRecord.mk m kc.1 kc.2) h1 (Prod.ext h2 h3)

/-! ## What is saved is loaded -/

theorem program_erase {bs : List Byte} (h : bs.length ≤ flashSectorSize) :
    (flashProgram flashErase bs).val = bs ++ List.replicate (flashSectorSize - bs.length) 0xFF := by
  refine List.ext_getElem ?_ fun i hi _ => ?_
  · rw [(flashProgram flashErase bs).property, List.length_append, List.length_replicate]
    omega
  · have hones : ∀ b : Byte, (0xFF : Byte) &&& b = b := by
      rintro ⟨⟨n⟩⟩
      revert n
      decide +kernel
    simp only [flashProgram, flashErase, List.getElem_mapIdx, List.getElem_replicate]
    by_cases hlt : i < bs.length
    · rw [if_pos hlt, List.getElem_append_left hlt, hones]
      simp [byteAt, List.getD_eq_getElem?_getD, hlt]
    · rw [if_neg hlt, List.getElem_append_right (Nat.not_lt.mp hlt), List.getElem_replicate]

theorem length_keyRecordPut (r : KeyRecord) : (keyRecordPut r).length = keyRecordBytes := by
  rw [keyRecordPut, List.length_append, List.length_append, r.key.property]
  rfl

theorem length_keyPage (key : Key) : (keyPage key).length = flashPageSize := by
  rw [keyPage, List.length_append, length_keyRecordPut, List.length_replicate]
  rfl

theorem load_eq_some {s : Sector} {key : Key} : boardKeyLoad s = some key ↔
    (keyRecordAt s.val).magic = keyMagic ∧ (keyRecordAt s.val).check = keyCheck key ∧ (keyRecordAt s.val).key = key := by
  unfold boardKeyLoad
  constructor
  · intro h
    by_cases hbad : (keyRecordAt s.val).magic ≠ keyMagic ∨ (keyRecordAt s.val).check ≠ keyCheck (keyRecordAt s.val).key
    · simp [hbad] at h
    · obtain ⟨hm, hc⟩ := not_or.mp hbad
      simp only [not_not.mp hm, not_not.mp hc, ne_eq, not_true_eq_false, decide_false, Bool.or_self, Bool.false_eq_true,
        if_false, Option.some.injEq] at h
      exact ⟨not_not.mp hm, by rw [not_not.mp hc, h], h⟩
  · rintro ⟨hm, hc, rfl⟩
    simp [hm, hc]

theorem load_save (s : Sector) (key : Key) : boardKeyLoad (boardKeySave s key) = some key := by
  have hpage := length_keyPage key
  have hval : (boardKeySave s key).val = keyPage key ++ List.replicate (flashSectorSize - (keyPage key).length) 0xFF :=
    program_erase (by rw [hpage]; decide)
  have hread := keyRecordAt_put ⟨keyMagic, key, keyCheck key⟩
    (List.replicate (flashPageSize - (keyRecordPut ⟨keyMagic, key, keyCheck key⟩).length) 0xFF ++
      List.replicate (flashSectorSize - (keyPage key).length) 0xFF)
  rw [load_eq_some, hval, keyPage, List.append_assoc, ← keyPage, hread]
  exact ⟨rfl, rfl, rfl⟩

theorem load_erase (s : Sector) : boardKeyLoad (boardKeyErase s) = none := by
  have hval : (boardKeyErase s).val = 0xFF :: 0xFF :: 0xFF :: 0xFF :: List.replicate (flashSectorSize - 4) 0xFF := rfl
  have hmagic : (keyRecordAt (boardKeyErase s).val).magic ≠ keyMagic := by
    rw [hval]
    exact by decide
  cases h : boardKeyLoad (boardKeyErase s) with
  | none => rfl
  | some key => exact absurd (load_eq_some.mp h).1 hmagic

/-! ## A save that is cut short -/

/-- The first `n` of these bytes, and erased ones for the others. -/
def partly (n : Nat) (bs : List Byte) : List Byte := bs.mapIdx fun i b => if i < n then b else 0xFF

/-- The first `n` bytes of the key, and ones for the others. -/
def keyTorn (key : Key) (n : Nat) : Key := ⟨partly n key.val, by rw [partly, List.length_mapIdx, key.property]⟩

theorem length_partly (n : Nat) (bs : List Byte) : (partly n bs).length = bs.length := List.length_mapIdx

theorem partly_append (n : Nat) (xs ys : List Byte) :
    partly n (xs ++ ys) = partly n xs ++ partly (n - xs.length) ys := by
  have hlater (i : Nat) : i + xs.length < n ↔ i < n - xs.length := by omega
  simp only [partly, List.mapIdx_append, hlater]

theorem partly_all {n : Nat} {bs : List Byte} (h : bs.length ≤ n) : partly n bs = bs := by
  refine List.ext_getElem (length_partly n bs) fun i hi hi' => ?_
  simp only [partly, List.getElem_mapIdx, if_pos (Nat.lt_of_lt_of_le hi' h)]

theorem partly_zero (bs : List Byte) : partly 0 bs = List.replicate bs.length 0xFF := by
  refine List.ext_getElem ((length_partly 0 bs).trans List.length_replicate.symm) fun i hi hi' => ?_
  simp only [partly, List.getElem_mapIdx, List.getElem_replicate, Nat.not_lt_zero, if_false]

theorem torn_val (key : Key) (k : Nat) :
    (tornSave key k).val = partly k (keyPage key) ++ List.replicate (flashSectorSize - flashPageSize) 0xFF := by
  have hpage := length_keyPage key
  have hsize : flashPageSize ≤ flashSectorSize := by decide
  have hfit : ((keyPage key).take k).length ≤ flashSectorSize := by
    rw [List.length_take, hpage]
    omega
  rw [tornSave, program_erase hfit]
  refine List.ext_getElem ?_ fun i hi hi' => ?_
  · simp only [List.length_append, List.length_take, List.length_replicate, length_partly, hpage]
    omega
  · simp only [List.length_append, List.length_take, List.length_replicate, hpage] at hi
    simp only [List.getElem_append, List.getElem_take, List.getElem_replicate, List.length_take, hpage, partly,
      List.getElem_mapIdx]
    by_cases h1 : i < flashPageSize <;> by_cases h2 : i < k <;> simp [h1, h2] <;> omega

/-- Four bytes are the word they are read as. -/
theorem four_bytes {w : List Byte} (h : w.length = 4) : put32 (get32 w 0) = w := by
  have hread : put32 (get32 w 0) = _ := field32.put_get (show 0 + 4 ≤ w.length by omega)
  rw [hread, List.drop_zero, List.take_of_length_le (by omega)]

/-- The record in a sector whose programming was cut short. -/
theorem torn_record (key : Key) (k : Nat) : keyRecordAt (tornSave key k).val =
    ⟨get32 (partly k (put32 keyMagic)) 0, keyTorn key (k - 4), get32 (partly (k - 20) (put32 (keyCheck key))) 0⟩ := by
  let r : KeyRecord :=
    ⟨get32 (partly k (put32 keyMagic)) 0, keyTorn key (k - 4), get32 (partly (k - 20) (put32 (keyCheck key))) 0⟩
  have hmagic := four_bytes (w := partly k (put32 keyMagic)) (length_partly _ _)
  have hcheck := four_bytes (w := partly (k - 20) (put32 (keyCheck key))) (length_partly _ _)
  have hput : partly k (keyRecordPut ⟨keyMagic, key, keyCheck key⟩) = keyRecordPut r := by
    have hlen : (put32 keyMagic).length = 4 := rfl
    have hfour : k - 4 - 16 = k - 20 := by omega
    rw [keyRecordPut, partly_append, partly_append, hlen, key.property, hfour, ← hmagic, ← hcheck]
    rfl
  rw [torn_val, keyPage, partly_append, hput, List.append_assoc]
  exact keyRecordAt_put r _

theorem torn_magic : ∀ k < 4, get32 (partly k (put32 keyMagic)) 0 ≠ keyMagic := by decide

/-- A save that lost its power leaves the key or none, unless the key happens to fit a record
    that was not written to its end. -/
theorem load_torn {key key' : Key} {k : Nat} (h : boardKeyLoad (tornSave key k) = some key') :
    key' = key ∨ (4 ≤ k ∧ k < 20 ∧ key' = keyTorn key (k - 4) ∧ keyCheck key' = 0xFFFFFFFF) := by
  obtain ⟨hmagic, hcheck, hkey⟩ := load_eq_some.mp h
  rw [torn_record] at hmagic hcheck hkey
  by_cases hall : 20 ≤ k
  · refine Or.inl (hkey.symm.trans (Subtype.ext (partly_all ?_)))
    rw [key.property]
    omega
  · refine Or.inr ⟨?_, by omega, hkey.symm, ?_⟩
    · by_contra hlt
      exact torn_magic k (by omega) hmagic
    · have hones : get32 (partly (k - 20) (put32 (keyCheck key))) 0 = 0xFFFFFFFF := by
        have hzero : k - 20 = 0 := by omega
        rw [hzero, partly_zero, length_put32]
        decide
      exact hcheck.symm.trans hones

/-- A save of which the whole record was programmed. -/
theorem key_of_whole {key : Key} {k : Nat} (h : keyRecordBytes ≤ k) : boardKeyLoad (tornSave key k) = some key := by
  have h24 : 24 ≤ k := h
  have hmagic : partly k (put32 keyMagic) = put32 keyMagic := partly_all (by rw [length_put32]; omega)
  have hcheck : partly (k - 20) (put32 (keyCheck key)) = put32 (keyCheck key) := partly_all (by rw [length_put32]; omega)
  have hkey : keyTorn key (k - 4) = key := Subtype.ext (partly_all (by rw [key.property]; omega))
  have hfour (v : UInt32) : get32 (put32 v) 0 = v := by simpa using field32.get_put v [] []
  rw [load_eq_some, torn_record, hmagic, hcheck, hkey]
  exact ⟨hfour _, hfour _, rfl⟩

/-! ## A record that is damaged -/

/-- One of the six words of the record in a sector. -/
def word (s : Sector) (i : Nat) : UInt32 := get32 s.val (4 * i)

/-- The check of the key is made of the words of the record. -/
theorem keyCheck_words (s : Sector) :
    keyCheck (slice s.val 4 16) = keyMagic ^^^ word s 1 ^^^ word s 2 ^^^ word s 3 ^^^ word s 4 := by
  have hbyte (i : Nat) (hi : i < 16) : byteAt (slice s.val 4 16).val i = byteAt s.val (4 + i) := by
    rw [slice, byteAt_takeD _ _ _ hi]
    simp [byteAt, List.getD_eq_getElem?_getD]
  have hword (i : Nat) (hi : i < 4) : get32 (slice s.val 4 16).val (i * 4) = word s (i + 1) := by
    have h4 : 4 * (i + 1) = 4 + i * 4 := by omega
    simp only [word, get32, List.range_succ, List.range_zero, List.nil_append, List.foldl_append, List.foldl_cons,
      List.foldl_nil, h4, Nat.add_assoc]
    rw [hbyte _ (by omega), hbyte _ (by omega), hbyte _ (by omega), hbyte _ (by omega)]
  simp only [keyCheck, List.range_succ, List.range_zero, List.nil_append, List.foldl_append, List.foldl_cons,
    List.foldl_nil]
  rw [hword 0 (by omega), hword 1 (by omega), hword 2 (by omega), hword 3 (by omega)]

theorem load_isSome_iff (s : Sector) : (boardKeyLoad s).isSome = true ↔
    word s 0 = keyMagic ∧ word s 5 = keyMagic ^^^ word s 1 ^^^ word s 2 ^^^ word s 3 ^^^ word s 4 := by
  rw [Option.isSome_iff_exists, ← keyCheck_words]
  constructor
  · rintro ⟨key, h⟩
    obtain ⟨hm, hc, rfl⟩ := load_eq_some.mp h
    exact ⟨hm, hc⟩
  · rintro ⟨hm, hc⟩
    exact ⟨slice s.val 4 16, load_eq_some.mpr ⟨hm, hc, rfl⟩⟩

/-- A change of any one word is noticed. -/
theorem load_damaged {s s' : Sector} {j : Nat} (hj : j < 6) (hload : (boardKeyLoad s).isSome = true)
    (hsame : ∀ i < 6, i ≠ j → word s' i = word s i) (hdiff : word s' j ≠ word s j) : boardKeyLoad s' = none := by
  obtain ⟨h0, h5⟩ := (load_isSome_iff s).mp hload
  rw [← Option.not_isSome_iff_eq_none, load_isSome_iff]
  rintro ⟨h0', h5'⟩
  have hxor {a b c : UInt32} (h : a ^^^ b = a ^^^ c) : b = c := by
    have := congrArg (a ^^^ ·) h
    simpa [← UInt32.xor_assoc] using this
  have hxor' {a b c : UInt32} (h : b ^^^ a = c ^^^ a) : b = c := by
    rw [UInt32.xor_comm b, UInt32.xor_comm c] at h
    exact hxor h
  obtain rfl | rfl | rfl | rfl | rfl | rfl : j = 0 ∨ j = 1 ∨ j = 2 ∨ j = 3 ∨ j = 4 ∨ j = 5 := by omega
  · exact hdiff (h0'.trans h0.symm)
  · rw [hsame 5 (by omega) (by omega), hsame 2 (by omega) (by omega), hsame 3 (by omega) (by omega),
      hsame 4 (by omega) (by omega), h5] at h5'
    exact hdiff (hxor (hxor' (hxor' (hxor' h5')))).symm
  · rw [hsame 5 (by omega) (by omega), hsame 1 (by omega) (by omega), hsame 3 (by omega) (by omega),
      hsame 4 (by omega) (by omega), h5] at h5'
    exact hdiff (hxor (hxor' (hxor' h5'))).symm
  · rw [hsame 5 (by omega) (by omega), hsame 1 (by omega) (by omega), hsame 2 (by omega) (by omega),
      hsame 4 (by omega) (by omega), h5] at h5'
    exact hdiff (hxor (hxor' h5')).symm
  · rw [hsame 5 (by omega) (by omega), hsame 1 (by omega) (by omega), hsame 2 (by omega) (by omega),
      hsame 3 (by omega) (by omega), h5] at h5'
    exact hdiff (hxor h5').symm
  · rw [hsame 1 (by omega) (by omega), hsame 2 (by omega) (by omega), hsame 3 (by omega) (by omega),
      hsame 4 (by omega) (by omega), ← h5] at h5'
    exact hdiff h5'

/-- The key 0, 1, 2, …. -/
def countingKey : Key := ⟨(List.range' 0 16).map UInt8.ofNat, rfl⟩

/-- A sector that begins with a record. -/
def sectorOf (r : KeyRecord) : Sector := ⟨keyRecordPut r ++ List.replicate (flashSectorSize - keyRecordBytes) 0xFF, by
  rw [List.length_append, length_keyRecordPut, List.length_replicate]
  rfl⟩

/-- The key 0, 2, 2, …: another first word. -/
def flippedKey : Key := ⟨countingKey.val.set 1 2, rfl⟩

theorem load_damaged_of_flipped : boardKeyLoad (sectorOf ⟨keyMagic, flippedKey, keyCheck countingKey⟩) = none :=
  load_damaged (s := sectorOf ⟨keyMagic, countingKey, keyCheck countingKey⟩) (j := 1) (by decide) (by decide +kernel)
    (by decide +kernel) (by decide +kernel)

end DeskHop.Device
