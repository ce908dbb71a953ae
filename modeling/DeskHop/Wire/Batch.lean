/-
  DeskHop.Wire.Batch — the streaming decoder against the stream taken as a whole.

  `batch` says what a stream holds without a machine: cut it at the flags, forget the
  piece before the first, unstuff each piece that a flag closes (`unstuff` looks at a
  byte and the one before it) and judge what comes out (`outcome`). The decoder that
  takes the stream byte by byte is `feed`.

  Proved: inside a piece the decoder holds what the piece has come to so far (`Within`,
  one byte: `push_within`), so that on every stream it returns what `batch` does
  (`framer_batch`), and what it accepts is encoded as it stood on the wire
  (`frameEncode_frameOfBody`).
-/

import DeskHop.Wire.RoundTrip

namespace DeskHop.Wire

/-! ## What a stream holds -/

/-- What a byte stands for after `prev`: an escape for nothing, what follows one for
    itself flipped back. -/
def unstuffByte (prev b : Byte) : List Byte := if b = esc then [] else [if prev = esc then b ^^^ escXor else b]

/-- A piece of a stream, unstuffed, where `prev` is the byte before it. -/
def unstuff (prev : Byte) (seg : List Byte) : List Byte := (List.zipWith unstuffByte (prev :: seg) seg).flatten

-- a doubled escape is one, and a trailing one is none
example : unstuff flag [esc, esc, 0x5E, 1, esc] = [flag, 1] := by decide

/-- A body that is taken for a frame. -/
structure WellFormed (key : Option Key) (body : List Byte) : Prop where
  long : frameOverhead ≤ body.length
  fits : body.length ≤ bodyMax
  crc : get16 body (body.length - crcBytes) = crc16 (body.take (body.length - crcBytes))
  len : hdrBytes + (byteAt body offLen).toNat + macBytes + crcBytes = body.length
  version : byteAt body offVerType >>> 4 = protoVersion
  mac : key.all (frameMacValid body) = true

instance (key : Option Key) (body : List Byte) : Decidable (WellFormed key body) :=
  decidable_of_iff (frameOverhead ≤ body.length ∧ body.length ≤ bodyMax ∧
      get16 body (body.length - crcBytes) = crc16 (body.take (body.length - crcBytes)) ∧
      hdrBytes + (byteAt body offLen).toNat + macBytes + crcBytes = body.length ∧
      byteAt body offVerType >>> 4 = protoVersion ∧ key.all (frameMacValid body) = true)
    ⟨fun ⟨h1, h2, h3, h4, h5, h6⟩ => ⟨h1, h2, h3, h4, h5, h6⟩, fun h => ⟨h.long, h.fits, h.crc, h.len, h.version, h.mac⟩⟩

/-- Why a body that is not too long is not taken: the first of the checks that fails. -/
def fault (body : List Byte) : Result :=
  if body.length < frameOverhead then .trunc
  else if get16 body (body.length - crcBytes) ≠ crc16 (body.take (body.length - crcBytes)) then .crc
  else if hdrBytes + (byteAt body offLen).toNat + macBytes + crcBytes ≠ body.length then .trunc
  else if byteAt body offVerType >>> 4 ≠ protoVersion then .version
  else .auth

/-- What the flag that closes a body brings out. -/
def outcome (key : Option Key) (body : List Byte) : Except Result Frame :=
  if body = [] ∨ bodyMax < body.length then .error .again
  else if WellFormed key body then .ok (frameOfBody body)
  else .error (fault body)

/-- The results for pieces each of which a flag opened; the last one is still open. -/
def segmentResults (key : Option Key) : List (List Byte) → List (Except Result Frame)
  | [] => []
  | [seg] => List.replicate seg.length (.error .again)
  | seg :: next :: segs =>
    List.replicate seg.length (.error .again) ++ outcome key (unstuff flag seg) :: segmentResults key (next :: segs)

/-- One result for each byte of the stream. -/
def batch (key : Option Key) (stream : List Byte) : List (Except Result Frame) :=
  match stream.splitOn flag with
  | [] => []
  | [noise] => List.replicate noise.length (.error .again)
  | noise :: seg :: segs =>
    List.replicate noise.length (.error .again) ++ .error .again :: segmentResults key (seg :: segs)

/-- The pieces that a flag opens and a flag closes. -/
def closedSegments (stream : List Byte) : List (List Byte) := (stream.splitOn flag).tail.dropLast

/-! ## Cutting at flags -/

theorem ne_flag_of_mem {seg : List Byte} (h : flag ∉ seg) : ∀ b ∈ seg, (b == flag) = false := by
  intro b hb
  rw [beq_eq_false_iff_ne]
  rintro rfl
  exact h hb

theorem splitOn_of_not_mem {seg : List Byte} (h : flag ∉ seg) : seg.splitOn flag = [seg] :=
  List.splitOnP_eq_singleton (ne_flag_of_mem h)

theorem splitOn_flag {seg : List Byte} (h : flag ∉ seg) (rest : List Byte) :
    (seg ++ flag :: rest).splitOn flag = seg :: rest.splitOn flag :=
  List.splitOnP_append_cons_of_forall_mem (ne_flag_of_mem h) flag (beq_self_eq_true flag) rest

theorem splitOn_eq_cons (stream : List Byte) : ∃ seg segs, stream.splitOn flag = seg :: segs :=
  List.exists_cons_of_ne_nil (List.splitOnP_ne_nil _ stream)

/-- A stream without a flag, or one up to its first flag and what follows. -/
theorem cut (stream : List Byte) :
    flag ∉ stream ∨ ∃ seg rest, stream = seg ++ flag :: rest ∧ flag ∉ seg := by
  by_cases h : flag ∈ stream
  · exact Or.inr (List.eq_append_cons_of_mem h)
  · exact Or.inl h

/-! ## One byte -/

/-- In a piece that has come to `body`, with `prev` its last byte. -/
structure Within (fr : Framer) (body : List Byte) (prev : Byte) : Prop where
  inFrame : fr.inFrame = true
  overflow : fr.overflow = decide (bodyMax < body.length)
  escaped : body.length ≤ bodyMax → fr.escaped = decide (prev = esc)
  body : body.length ≤ bodyMax → fr.body = body

theorem within_nil {fr : Framer} (h : Collecting fr []) : Within fr [] flag :=
  ⟨h.inFrame, h.overflow, fun _ => h.escaped, fun _ => h.body⟩

theorem push_within {fr : Framer} {body : List Byte} {prev b : Byte} (key : Option Key) (h : Within fr body prev)
    (hb : b ≠ flag) : Within (framerPush fr b key).1 (body ++ unstuffByte prev b) b ∧
      (framerPush fr b key).2 = .error .again ∧ (framerPush fr b key).1.nOverflow = fr.nOverflow := by
  by_cases hlong : bodyMax < body.length
  · -- runaway: nothing changes until the next flag
    have hover : fr.overflow = true := by
      rw [h.overflow]
      exact decide_eq_true hlong
    have hstep : framerPush fr b key = (fr, .error .again) := by
      unfold framerPush
      rw [if_neg hb, if_pos (by simp [hover])]
    have hlonger : bodyMax < (body ++ unstuffByte prev b).length := by
      rw [List.length_append]
      omega
    rw [hstep]
    refine ⟨⟨h.inFrame, ?_, fun hle => ?_, fun hle => ?_⟩, rfl, rfl⟩
    · rw [hover]
      exact (decide_eq_true hlonger).symm
    · omega
    · omega
  have hover : fr.overflow = false := by
    rw [h.overflow]
    exact decide_eq_false hlong
  have hbody := h.body (by omega)
  have hesc := h.escaped (by omega)
  unfold framerPush
  rw [if_neg hb, if_neg (by simp [h.inFrame, hover])]
  by_cases he : b = esc
  · rw [if_pos he, unstuffByte, if_pos he, List.append_nil]
    exact ⟨⟨h.inFrame, h.overflow, fun _ => (decide_eq_true he).symm, h.body⟩, rfl, rfl⟩
  rw [if_neg he, unstuffByte, if_neg he]
  simp only [hesc, decide_eq_true_eq, hbody]
  by_cases hfull : body.length ≥ bodyMax
  · rw [if_pos hfull]
    have hover' : bodyMax < (body ++ [if prev = esc then b ^^^ escXor else b]).length := by
      rw [List.length_append, List.length_singleton]
      omega
    refine ⟨⟨h.inFrame, (decide_eq_true hover').symm, fun hle => ?_, fun hle => ?_⟩, rfl, rfl⟩
    · omega
    · omega
  · rw [if_neg hfull]
    have hroom : ¬ bodyMax < (body ++ [if prev = esc then b ^^^ escXor else b]).length := by
      rw [List.length_append, List.length_singleton]
      omega
    exact ⟨⟨h.inFrame, hover.trans (decide_eq_false hroom).symm, fun _ => (decide_eq_false he).symm, fun _ => rfl⟩,
      rfl, rfl⟩

/-- A piece without a flag is collected, unstuffed. -/
theorem feed_within {fr : Framer} {body : List Byte} {prev : Byte} (key : Option Key) (h : Within fr body prev)
    {seg : List Byte} (hseg : flag ∉ seg) :
    (∃ last, Within (feed key fr seg).1 (body ++ unstuff prev seg) last) ∧
      (feed key fr seg).2 = List.replicate seg.length (.error .again) ∧
      (feed key fr seg).1.nOverflow = fr.nOverflow := by
  induction seg generalizing fr body prev with
  | nil =>
    refine ⟨⟨prev, ?_⟩, rfl, rfl⟩
    show Within fr (body ++ []) prev
    rw [List.append_nil]
    exact h
  | cons b seg ih =>
    obtain ⟨hb, hseg⟩ := List.ne_and_not_mem_of_not_mem_cons hseg
    obtain ⟨h1, h2, h3⟩ := push_within key h (Ne.symm hb)
    obtain ⟨⟨last, h4⟩, h5, h6⟩ := ih h1 hseg
    refine ⟨⟨last, ?_⟩, ?_, h6.trans h3⟩
    · have hcons : unstuff prev (b :: seg) = unstuffByte prev b ++ unstuff b seg := rfl
      rw [hcons, ← List.append_assoc]
      exact h4
    · show (framerPush fr b key).2 :: (feed key (framerPush fr b key).1 seg).2 = _
      rw [h2, h5]
      rfl

/-- Before the first flag nothing is collected. -/
theorem feed_noise {fr : Framer} (key : Option Key) (h : fr.inFrame = false) {seg : List Byte} (hseg : flag ∉ seg) :
    feed key fr seg = (fr, List.replicate seg.length (.error .again)) := by
  induction seg with
  | nil => rfl
  | cons b seg ih =>
    obtain ⟨hb, hseg⟩ := List.ne_and_not_mem_of_not_mem_cons hseg
    have hstep : framerPush fr b key = (fr, .error .again) := by
      unfold framerPush
      rw [if_neg (Ne.symm hb), if_pos (by simp [h])]
    rw [feed, hstep, ih hseg]
    rfl

/-! ## The closing flag -/

theorem finish_nOverflow (fr : Framer) (key : Option Key) : (finish fr key).1.nOverflow = fr.nOverflow := by
  unfold finish
  simp only
  repeat' split
  all_goals rfl

/-- A body of at most 79 bytes is judged as the specification judges it. -/
theorem finish_outcome {fr : Framer} (key : Option Key) (h : fr.body.length ≤ bodyMax) :
    (finish fr key).2 = if WellFormed key fr.body then .ok (frameOfBody fr.body) else .error (fault fr.body) := by
  unfold finish fault
  simp only
  by_cases h1 : fr.body.length < frameOverhead
  · rw [if_pos h1, if_pos h1, if_neg fun hw => ?_]
    exact Nat.not_lt.mpr hw.long h1
  rw [if_neg h1, if_neg h1]
  by_cases h2 : get16 fr.body (fr.body.length - crcBytes) = crc16 (fr.body.take (fr.body.length - crcBytes))
  · rw [if_neg (not_not.mpr h2), if_neg (not_not.mpr h2)]
    by_cases h3 : hdrBytes + (byteAt fr.body offLen).toNat + macBytes + crcBytes = fr.body.length
    · -- a length field that fits the size is within the payload limit
      have hpay : (byteAt fr.body offLen).toNat ≤ maxPayload := by
        rw [← h3] at h
        simp only [bodyMax, frameOverhead] at h
        omega
      rw [if_neg (not_not.mpr h3), if_neg (by simp [h3, hpay])]
      by_cases h4 : byteAt fr.body offVerType >>> 4 = protoVersion
      · rw [if_neg (not_not.mpr h4), if_neg (not_not.mpr h4)]
        cases h5 : key.all (frameMacValid fr.body) with
        | true =>
          have hany : (key.any fun k => !frameMacValid fr.body k) = false := by
            cases key with
            | none => rfl
            | some k => exact congrArg Bool.not h5
          rw [hany, if_neg Bool.false_ne_true, if_pos ⟨Nat.not_lt.mp h1, h, h2, h3, h4, h5⟩]
        | false =>
          have hany : (key.any fun k => !frameMacValid fr.body k) = true := by
            cases key with
            | none => cases h5
            | some k => exact congrArg Bool.not h5
          rw [hany, if_pos rfl, if_neg fun hw => ?_]
          rw [hw.mac] at h5
          cases h5
      · rw [if_pos h4, if_pos h4, if_neg fun hw => h4 hw.version]
    · rw [if_pos h3, if_pos (by simp [h3]), if_neg fun hw => h3 hw.len]
  · rw [if_pos h2, if_pos h2, if_neg fun hw => h2 hw.crc]

theorem push_flag_within {fr : Framer} {body : List Byte} {last : Byte} (key : Option Key) (h : Within fr body last) :
    (framerPush fr flag key).2 = outcome key body ∧ (framerPush fr flag key).1.nOverflow =
      fr.nOverflow + if bodyMax < body.length then 1 else 0 := by
  unfold framerPush outcome
  rw [if_pos rfl]
  by_cases hlong : bodyMax < body.length
  · have hover : fr.overflow = true := by
      rw [h.overflow]
      exact decide_eq_true hlong
    simp [hover, hlong]
  have hover : fr.overflow = false := by
    rw [h.overflow]
    exact decide_eq_false hlong
  have hbody := h.body (by omega)
  by_cases hnil : body = []
  · simp [hover, hbody, hnil, bodyMax]
  · have hjudged := finish_outcome key (show fr.body.length ≤ bodyMax by rw [hbody]; omega)
    rw [hbody] at hjudged
    simp [hover, hbody, hnil, hlong, h.inFrame, hjudged, finish_nOverflow]

/-! ## A whole stream -/

theorem feed_cons (key : Option Key) (fr : Framer) (b : Byte) (bs : List Byte) : feed key fr (b :: bs) =
    ((feed key (framerPush fr b key).1 bs).1, (framerPush fr b key).2 :: (feed key (framerPush fr b key).1 bs).2) := rfl

/-- From an opening flag on. -/
theorem feed_segments (key : Option Key) : ∀ (n : Nat) (stream : List Byte), stream.length ≤ n → ∀ fr : Framer,
    Collecting fr [] → (feed key fr stream).2 = segmentResults key (stream.splitOn flag) ∧
      (feed key fr stream).1.nOverflow = fr.nOverflow +
        UInt32.ofNat ((stream.splitOn flag).dropLast.countP fun seg => bodyMax < (unstuff flag seg).length) := by
  intro n
  induction n with
  | zero =>
    intro stream hn fr _
    have hnil : stream = [] := List.eq_nil_of_length_eq_zero (Nat.le_zero.mp hn)
    subst hnil
    exact ⟨rfl, (UInt32.add_zero _).symm⟩
  | succ n ih =>
    intro stream hn fr h
    rcases cut stream with hno | ⟨seg, rest, rfl, hseg⟩
    · obtain ⟨-, hres, hover⟩ := feed_within key (within_nil h) hno
      rw [splitOn_of_not_mem hno, hres, hover]
      exact ⟨rfl, (UInt32.add_zero _).symm⟩
    obtain ⟨⟨last, hend⟩, hres, hover⟩ := feed_within key (within_nil h) hseg
    obtain ⟨hout, hcount⟩ := push_flag_within key hend
    have hrest : rest.length ≤ n := by
      rw [List.length_append, List.length_cons] at hn
      omega
    obtain ⟨ih1, ih2⟩ := ih rest hrest _ (push_flag (feed key fr seg).1 key)
    obtain ⟨next, segs, hcut⟩ := splitOn_eq_cons rest
    rw [splitOn_flag hseg, feed_append, feed_cons, hres, hout, ih1, ih2, hcut]
    refine ⟨rfl, ?_⟩
    rw [hcount, hover, List.nil_append, List.dropLast_cons_of_ne_nil (List.cons_ne_nil next segs), List.countP_cons]
    by_cases hlong : bodyMax < (unstuff flag seg).length
    · simp only [hlong, if_true, decide_true, UInt32.ofNat_add]
      rw [UInt32.add_assoc, UInt32.add_comm 1]
      rfl
    · simp only [hlong, if_false, decide_false, UInt32.add_zero]
      rfl

/-- From the start, where everything up to the first flag is noise. -/
theorem feed_init (key : Option Key) (stream : List Byte) : (feed key framerInit stream).2 = batch key stream ∧
    (feed key framerInit stream).1.nOverflow =
      UInt32.ofNat ((closedSegments stream).countP fun seg => bodyMax < (unstuff flag seg).length) := by
  unfold batch closedSegments
  rcases cut stream with hno | ⟨noise, rest, rfl, hnoise⟩
  · rw [splitOn_of_not_mem hno, feed_noise key rfl hno]
    exact ⟨rfl, rfl⟩
  have hagain : (framerPush framerInit flag key).2 = .error .again := push_flag_of_closed key rfl
  obtain ⟨h1, h2⟩ := feed_segments key rest.length rest (Nat.le_refl _) _ (push_flag framerInit key)
  obtain ⟨seg, segs, hcut⟩ := splitOn_eq_cons rest
  rw [splitOn_flag hnoise, feed_append, feed_noise key rfl hnoise, feed_cons, hagain, h1, h2, hcut]
  exact ⟨rfl, UInt32.zero_add _⟩

/-! ## Encoding what was accepted -/

theorem type_version (b : Byte) (h : b >>> 4 = protoVersion) : protoVersion <<< 4 ||| (b &&& 0x0F) = b := by
  have hall : ∀ n : Fin 256, UInt8.ofNat n.val >>> 4 = protoVersion →
      protoVersion <<< 4 ||| (UInt8.ofNat n.val &&& 0x0F) = UInt8.ofNat n.val := by decide +kernel
  have := hall ⟨b.toNat, b.toNat_lt⟩
  simp only [UInt8.ofNat_toNat] at this
  exact this h

section accepted

variable {key : Key} {body : List Byte} (h : WellFormed (some key) body)
include h

theorem length_payload : (frameOfBody body).payload.length = (byteAt body offLen).toNat := by
  have hlen := h.len
  simp only [frameOfBody, hdrBytes, macBytes, crcBytes, List.length_take, List.length_drop] at hlen ⊢
  omega

theorem payload_frameOfBody : (frameOfBody body).payload.length ≤ maxPayload := by
  have hlen := h.len
  have hfits := h.fits
  rw [length_payload h]
  simp only [bodyMax, frameOverhead] at hfits
  omega

/-- The header and the payload are put back as they stood. -/
theorem covered_frameOfBody (httl : (frameOfBody body).ttl ≠ 0) :
    covered (frameOfBody body) = body.take (hdrBytes + (byteAt body offLen).toNat) := by
  have hlong := h.long
  obtain ⟨b0, b1, b2, b3, b4, b5, b6, b7, b8, rest, hbody⟩ :
      ∃ b0 b1 b2 b3 b4 b5 b6 b7 b8 rest, body = b0 :: b1 :: b2 :: b3 :: b4 :: b5 :: b6 :: b7 :: b8 :: rest := by
    match body, hlong with
    | b0 :: b1 :: b2 :: b3 :: b4 :: b5 :: b6 :: b7 :: b8 :: rest, _ => exact ⟨b0, b1, b2, b3, b4, b5, b6, b7, b8, rest, rfl⟩
  have hver : byteAt body offVerType = b0 := by rw [hbody]; rfl
  have httl' : (frameOfBody body).ttl = b1 := by rw [frameOfBody, hbody]; rfl
  have htype : protoVersion <<< 4 ||| (frameOfBody body).type = b0 := hver ▸ type_version _ h.version
  have hsrc : put16 (frameOfBody body).src = [b2, b3] := by rw [frameOfBody, hbody]; exact put16_get16 b2 b3 []
  have hdst : put16 (frameOfBody body).dst = [b4, b5] := by rw [frameOfBody, hbody]; exact put16_get16 b4 b5 []
  have hseq : put16 (frameOfBody body).seq = [b6, b7] := by rw [frameOfBody, hbody]; exact put16_get16 b6 b7 []
  have hat : byteAt body offLen = b8 := by rw [hbody]; rfl
  have hlen : UInt8.ofNat (frameOfBody body).payload.length = b8 := by
    rw [length_payload h, hat]
    exact UInt8.ofNat_toNat
  have hpay : (frameOfBody body).payload = rest.take b8.toNat := by rw [frameOfBody, hat, hbody]; rfl
  have hsum : hdrBytes + b8.toNat = b8.toNat + 9 := Nat.add_comm 9 _
  unfold covered
  rw [if_pos httl, htype, httl', hsrc, hdst, hseq, hlen, hpay, hat, hsum, hbody]
  rfl

/-- What is encoded for an accepted body is the body. -/
theorem frameBody_frameOfBody (httl : (frameOfBody body).ttl ≠ 0) : frameBody (frameOfBody body) key = body := by
  have hlen := h.len
  have hcov := covered_frameOfBody h httl
  generalize hn : hdrBytes + (byteAt body offLen).toNat = n at hcov hlen
  have hn9 : hdrBytes ≤ n := by omega
  have hsize : (body.take n).length = n := List.length_take_of_le (by omega)
  have hmac : macField (macCompute (body.take n) n key) = (body.drop n).take macBytes := by
    have hvalid : frameMacValid body key = true := h.mac
    unfold frameMacValid at hvalid
    rw [if_neg (Nat.not_lt.mpr h.long)] at hvalid
    have hcut : body.length - macBytes - crcBytes = n := by omega
    rw [hcut, ctEqual_iff] at hvalid
    have hsame := macCompute_append (body.take n) (body.drop n) key (by rw [hsize]; simp only [hdrBytes] at hn9; omega)
    rw [List.take_append_drop, hsize] at hsame
    rw [← hsame]
    refine List.ext_getElem ?_ fun i hi hi' => ?_
    · simp only [macField, List.length_map, List.length_range, List.length_take, List.length_drop, macBytes, crcBytes] at hlen ⊢
      omega
    · have hi4 : i < macBytes := by simpa [macField] using hi
      have hat := hvalid i hi4
      have hi'' : i < (body.drop n).length := by
        rw [List.length_take] at hi'
        omega
      rw [byteAt, byteAt, List.getD_eq_getElem?_getD, List.getD_eq_getElem?_getD, List.getElem?_eq_getElem hi,
        List.getElem?_eq_getElem hi''] at hat
      rw [List.getElem_take]
      exact hat
  have hfield : body.take n ++ (body.drop n).take macBytes = body.take (n + macBytes) := List.take_add.symm
  have hoff : n + macBytes = body.length - crcBytes := by omega
  have hcrc : put16 (crc16 (body.take (n + macBytes))) = body.drop (n + macBytes) := by
    rw [hoff, ← h.crc, field16.put_get (by simp only [crcBytes]; simp only [crcBytes] at hlen; omega)]
    apply List.take_of_length_le
    rw [List.length_drop]
    simp only [crcBytes]
    omega
  show (covered (frameOfBody body) ++ macField (macCompute (covered (frameOfBody body)) (covered (frameOfBody body)).length key)) ++
    put16 (crc16 (covered (frameOfBody body) ++
      macField (macCompute (covered (frameOfBody body)) (covered (frameOfBody body)).length key))) = body
  rw [hcov, hsize, hmac, hfield, hcrc, List.take_append_drop]

/-- An accepted frame that has hops left is encoded as it stood on the wire. -/
theorem frameEncode_frameOfBody (httl : (frameOfBody body).ttl ≠ 0) :
    frameEncode (frameOfBody body) key wireMax = .ok (flag :: body.flatMap stuff ++ [flag]) := by
  have htype : (frameOfBody body).type ≤ 0x0F := UInt8.and_le_right
  rw [frameEncode_ok _ key (payload_frameOfBody h) htype, onWire, frameBody_frameOfBody h httl]

end accepted

/-! ## The decoder and the specification -/

theorem outcome_ok {key : Option Key} {body : List Byte} {f : Frame} (h : outcome key body = .ok f) :
    WellFormed key body ∧ f = frameOfBody body := by
  unfold outcome at h
  split at h
  · cases h
  split at h
  · rename_i hw
    cases h
    exact ⟨hw, rfl⟩
  · cases h

theorem not_mem_again (f : Frame) (n : Nat) : (.ok f : Except Result Frame) ∉ List.replicate n (.error .again) := by
  intro h
  cases List.eq_of_mem_replicate h

theorem segmentResults_ok {key : Option Key} {f : Frame} {segs : List (List Byte)} (h : .ok f ∈ segmentResults key segs) :
    ∃ seg ∈ segs.dropLast, outcome key (unstuff flag seg) = .ok f := by
  induction segs with
  | nil => cases h
  | cons seg segs ih =>
    cases segs with
    | nil => exact absurd h (not_mem_again f _)
    | cons next segs =>
      rcases List.mem_append.mp h with h | h
      · exact absurd h (not_mem_again f _)
      rcases List.mem_cons.mp h with h | h
      · exact ⟨seg, List.mem_cons_self, h.symm⟩
      · obtain ⟨other, hmem, hok⟩ := ih h
        exact ⟨other, List.mem_cons_of_mem _ hmem, hok⟩

theorem batch_ok {key : Option Key} {f : Frame} {stream : List Byte} (h : .ok f ∈ batch key stream) :
    ∃ seg ∈ closedSegments stream, outcome key (unstuff flag seg) = .ok f := by
  unfold batch at h
  unfold closedSegments
  split at h
  · cases h
  · exact absurd h (not_mem_again f _)
  · rename_i noise seg segs hcut
    rw [hcut]
    rcases List.mem_append.mp h with h | h
    · exact absurd h (not_mem_again f _)
    rcases List.mem_cons.mp h with h | h
    · cases h
    · exact segmentResults_ok h

/-- Byte by byte the decoder returns what the stream holds, and counts the pieces it
    dropped for their length; a frame it accepts is encoded as the piece it was. -/
theorem decoder_is_batch (key : Option Key) (stream : List Byte) :
    (feed key framerInit stream).2 = batch key stream ∧
      (feed key framerInit stream).1.nOverflow =
        UInt32.ofNat ((closedSegments stream).countP fun seg => bodyMax < (unstuff flag seg).length) ∧
      ∀ k f, key = some k → .ok f ∈ (feed key framerInit stream).2 → f.ttl ≠ 0 →
        (∃ seg ∈ closedSegments stream, f.body = unstuff flag seg) ∧
          frameEncode f k wireMax = .ok (flag :: f.body.flatMap stuff ++ [flag]) := by
  obtain ⟨hres, hover⟩ := feed_init key stream
  refine ⟨hres, hover, ?_⟩
  rintro k f rfl hf httl
  rw [hres] at hf
  obtain ⟨seg, hseg, hout⟩ := batch_ok hf
  obtain ⟨hw, rfl⟩ := outcome_ok hout
  exact ⟨⟨seg, hseg, rfl⟩, frameEncode_frameOfBody hw httl⟩

theorem decoder_is_batch_of_blank :
    frameEncode (decoded blankFrame blankKey) blankKey wireMax = .ok (onWire blankFrame blankKey) :=
  ((decoder_is_batch (some blankKey) (onWire blankFrame blankKey)).2.2 blankKey (decoded blankFrame blankKey) rfl
    (by decide +kernel) (by decide)).2

end DeskHop.Wire
