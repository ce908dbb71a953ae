/-
  DeskHop.Wire.Frame — link framing (`core/include/dhp/frame.h`, `core/src/frame.c`).

  A frame goes on the wire as a flag, its stuffed body and a flag. The decoder is fed
  one byte at a time; a flag closes the body collected so far and opens the next, so a
  decoder that joins in the middle is aligned at the next flag.

  Proved: the encoder succeeds exactly when the capacity holds the stuffed frame
  (`frameEncode_eq`), as the worst case on the wire does (`frameEncode_ok`); forwarding a body is encoding its frame with one hop less
  (`frameForwardPrepare_body`).
-/

import DeskHop.Core.Types
import DeskHop.Wire.Integrity

namespace DeskHop.Wire

def flag : Byte := 0x7E
def esc : Byte := 0x7D
def escXor : Byte := 0x20

def protoVersion : UInt8 := 1

def offVerType : Nat := 0
def offTtl : Nat := 1
def offSrc : Nat := 2
def offDst : Nat := 4
def offSeq : Nat := 6
def offLen : Nat := 8
def hdrBytes : Nat := 9
def macBytes : Nat := 4
def crcBytes : Nat := 2
def frameOverhead : Nat := hdrBytes + macBytes + crcBytes
def bodyMax : Nat := frameOverhead + maxPayload
def wireMax : Nat := 2 * bodyMax + 2

def ttlDefault : UInt8 := 20

/-- The length of the payload is `len`. -/
structure Frame where
  type : UInt8
  ttl : UInt8
  src : Addr
  dst : Addr
  seq : UInt16
  payload : List Byte
  /-- Decoder output only: the raw unstuffed body. -/
  body : List Byte
  deriving DecidableEq, Repr, Inhabited

/-! ## Encoding -/

/-- The MAC covers the body with the hop limit removed. -/
def macCompute (body : List Byte) (covered : Nat) (key : Key) : UInt64 :=
  siphash24 (byteAt body offVerType :: (body.drop offSrc).take (covered - (offTtl + 1))) key

/-- The MAC as it stands in a body: its low 32 bits. -/
def macField (mac : UInt64) : List Byte := (List.range macBytes).map fun i => (mac >>> (8 * UInt64.ofNat i)).toUInt8

def frameMacValid (body : List Byte) (key : Key) : Bool :=
  if body.length < frameOverhead then false
  else
    let covered := body.length - macBytes - crcBytes
    ctEqual (macField (macCompute body covered key)) (body.drop covered) macBytes

/-- One body byte, stuffed. -/
def stuff (b : Byte) : List Byte := if b = flag ∨ b = esc then [esc, b ^^^ escXor] else [b]

def emit (cap : Nat) (out : List Byte) (b : Byte) : Except Result (List Byte) :=
  if out.length + (stuff b).length > cap then .error .nospace else .ok (out ++ stuff b)

/-- The body of `f`, with its MAC under `key` and its CRC. -/
def frameBody (f : Frame) (key : Key) : List Byte :=
  let covered := [protoVersion <<< 4 ||| f.type, if f.ttl ≠ 0 then f.ttl else ttlDefault] ++ put16 f.src ++ put16 f.dst ++
    put16 f.seq ++ [UInt8.ofNat f.payload.length] ++ f.payload
  let body := covered ++ macField (macCompute covered covered.length key)
  body ++ put16 (crc16 body)

def frameEncode (f : Frame) (key : Key) (cap : Nat) : Except Result (List Byte) :=
  if f.payload.length > maxPayload then .error .inval
  else if f.type > 0x0F then .error .inval
  else if cap < 1 then .error .nospace
  else do
    let out ← (frameBody f key).foldlM (emit cap) [flag]
    if out.length + 1 > cap then .error .nospace else .ok (out ++ [flag])

/-! ## Decoding -/

structure Framer where
  body : List Byte
  /-- An opening flag has been seen. -/
  inFrame : Bool
  /-- The previous byte was `esc`. -/
  escaped : Bool
  /-- The body exceeded its maximum; discard until the next flag. -/
  overflow : Bool
  nOk : UInt32
  nCrcErr : UInt32
  nAuthErr : UInt32
  nOverflow : UInt32
  deriving DecidableEq, Repr

def framerInit : Framer := ⟨[], false, false, false, 0, 0, 0, 0⟩

/-- The frame a body carries. -/
def frameOfBody (body : List Byte) : Frame :=
  { type := byteAt body offVerType &&& 0x0F, ttl := byteAt body offTtl, src := get16 body offSrc, dst := get16 body offDst,
    seq := get16 body offSeq, payload := (body.drop hdrBytes).take (byteAt body offLen).toNat, body := body }

/-- Validate a completed body. Without a key the MAC is not checked. -/
def finish (fr : Framer) (key : Option Key) : Framer × Except Result Frame :=
  let body := fr.body
  if body.length < frameOverhead then (fr, .error .trunc)
  else
    let crcOff := body.length - crcBytes
    if get16 body crcOff ≠ crc16 (body.take crcOff) then ({ fr with nCrcErr := fr.nCrcErr + 1 }, .error .crc)
    else
      let len := (byteAt body offLen).toNat
      if len > maxPayload || hdrBytes + len + macBytes + crcBytes ≠ body.length then (fr, .error .trunc)
      else if byteAt body offVerType >>> 4 ≠ protoVersion then (fr, .error .version)
      else if key.any fun k => !frameMacValid body k then ({ fr with nAuthErr := fr.nAuthErr + 1 }, .error .auth)
      else ({ fr with nOk := fr.nOk + 1 }, .ok (frameOfBody body))

def framerPush (fr : Framer) (byte : Byte) (key : Option Key) : Framer × Except Result Frame :=
  if byte = flag then
    let (fr, r) :=
      if fr.inFrame && !fr.overflow && !fr.body.isEmpty then finish fr key
      else if fr.overflow then ({ fr with nOverflow := fr.nOverflow + 1 }, .error .again)
      else (fr, .error .again)
    ({ fr with inFrame := true, escaped := false, overflow := false, body := [] }, r)
  else if !fr.inFrame || fr.overflow then (fr, .error .again)
  else if byte = esc then ({ fr with escaped := true }, .error .again)
  else
    let byte := if fr.escaped then byte ^^^ escXor else byte
    let fr := { fr with escaped := false }
    if fr.body.length ≥ bodyMax then ({ fr with overflow := true }, .error .again)
    else ({ fr with body := fr.body ++ [byte] }, .error .again)

/-- Decrement the hop limit and repair the CRC. -/
def frameForwardPrepare (body : List Byte) : Except Result (List Byte) :=
  if body.length < frameOverhead then .error .trunc
  else if byteAt body offTtl = 0 then .error .ttl
  else
    let body := body.set offTtl (byteAt body offTtl - 1)
    if byteAt body offTtl = 0 then .error .ttl
    else
      let crcOff := body.length - crcBytes
      .ok (body.take crcOff ++ put16 (crc16 (body.take crcOff)))

/-! ## Lengths -/

theorem length_stuff_le (b : Byte) : (stuff b).length ≤ 2 := by
  unfold stuff
  split <;> simp

theorem length_stuffed_le (body : List Byte) : (body.flatMap stuff).length ≤ 2 * body.length := by
  induction body with
  | nil => exact Nat.le_refl 0
  | cons b bs ih =>
    have hb := length_stuff_le b
    rw [List.flatMap_cons, List.length_append, List.length_cons]
    omega

theorem foldlM_emit_fits (cap : Nat) (body out : List Byte) (h : out.length + (body.flatMap stuff).length ≤ cap) :
    body.foldlM (emit cap) out = .ok (out ++ body.flatMap stuff) := by
  induction body generalizing out with
  | nil => exact congrArg Except.ok (List.append_nil out).symm
  | cons b bs ih =>
    rw [List.flatMap_cons, List.length_append] at h
    have hstep : emit cap out b = .ok (out ++ stuff b) := if_neg (by omega)
    rw [List.foldlM_cons, hstep, List.flatMap_cons, ← List.append_assoc]
    exact ih (out ++ stuff b) (by rw [List.length_append]; omega)

theorem foldlM_emit_short (cap : Nat) (body out : List Byte) (h : cap < out.length + (body.flatMap stuff).length)
    (hout : out.length ≤ cap) : body.foldlM (emit cap) out = .error .nospace := by
  induction body generalizing out with
  | nil =>
    rw [List.flatMap_nil, List.length_nil] at h
    omega
  | cons b bs ih =>
    rw [List.flatMap_cons, List.length_append] at h
    rw [List.foldlM_cons]
    by_cases hb : out.length + (stuff b).length > cap
    · have hstep : emit cap out b = .error .nospace := if_pos hb
      rw [hstep]
      rfl
    · have hstep : emit cap out b = .ok (out ++ stuff b) := if_neg hb
      rw [hstep]
      refine ih (out ++ stuff b) ?_ ?_
      · rw [List.length_append]
        omega
      · rw [List.length_append]
        omega

theorem length_frameBody (f : Frame) (key : Key) : (frameBody f key).length = frameOverhead + f.payload.length := by
  simp [frameBody, put16, macField, frameOverhead, hdrBytes, macBytes, crcBytes]
  omega

/-- The bytes of a frame on the wire. -/
def onWire (f : Frame) (key : Key) : List Byte := flag :: (frameBody f key).flatMap stuff ++ [flag]

theorem length_onWire (f : Frame) (key : Key) : (onWire f key).length = ((frameBody f key).flatMap stuff).length + 2 := by
  simp [onWire]

/-- The encoder fits its output in, or runs out of space. -/
theorem frameEncode_eq (f : Frame) (key : Key) (cap : Nat) (hp : f.payload.length ≤ maxPayload) (ht : f.type ≤ 0x0F) :
    frameEncode f key cap = if (onWire f key).length ≤ cap then .ok (onWire f key) else .error .nospace := by
  have hlen := length_onWire f key
  unfold frameEncode
  rw [if_neg (by omega), if_neg (UInt8.not_lt.mpr ht)]
  by_cases hc : cap < 1
  · rw [if_pos hc, if_neg (by omega)]
  rw [if_neg hc]
  by_cases hfit : [flag].length + ((frameBody f key).flatMap stuff).length ≤ cap
  · rw [foldlM_emit_fits cap _ _ hfit]
    have hout : ([flag] ++ (frameBody f key).flatMap stuff).length + 1 = (onWire f key).length := by
      rw [hlen, List.length_append, List.length_singleton]
      omega
    show (if ([flag] ++ (frameBody f key).flatMap stuff).length + 1 > cap then _ else _) = _
    rw [hout]
    by_cases h : (onWire f key).length ≤ cap
    · rw [if_neg (by omega), if_pos h]
      rfl
    · rw [if_pos (by omega), if_neg h]
  · rw [foldlM_emit_short cap _ _ (by omega) (by rw [List.length_singleton]; omega), if_neg]
    · rfl
    · rw [List.length_singleton] at hfit
      omega

theorem length_onWire_le (f : Frame) (key : Key) (hp : f.payload.length ≤ maxPayload) :
    (onWire f key).length ≤ wireMax := by
  have hbody := length_frameBody f key
  have h := length_stuffed_le (frameBody f key)
  rw [length_onWire]
  simp only [wireMax, bodyMax]
  omega

/-- A frame that fits the limits fits the wire. -/
theorem frameEncode_ok (f : Frame) (key : Key) (hp : f.payload.length ≤ maxPayload) (ht : f.type ≤ 0x0F) :
    frameEncode f key wireMax = .ok (onWire f key) := by
  rw [frameEncode_eq f key wireMax hp ht, if_pos (length_onWire_le f key hp)]

/-- No byte of a stuffed body is a flag. -/
theorem flag_not_mem_stuffed (body : List Byte) : flag ∉ body.flatMap stuff := by
  intro h
  obtain ⟨b, _, hb⟩ := List.mem_flatMap.mp h
  unfold stuff at hb
  split at hb
  · rename_i he
    rcases he with rfl | rfl <;> revert hb <;> decide
  · rename_i he
    exact he (Or.inl (List.mem_singleton.mp hb).symm)

/-- What a decoder returns as a frame, the closing flag has judged. -/
theorem framerPush_finish {fr : Framer} {b : Byte} {key : Option Key} {f : Frame} (h : (framerPush fr b key).2 = .ok f) :
    (finish fr key).2 = .ok f := by
  unfold framerPush at h
  split at h
  · dsimp only at h
    split at h
    · exact h
    split at h <;> cases h
  split at h
  · cases h
  split at h
  · cases h
  dsimp only at h
  repeat' split at h
  all_goals cases h

/-- A frame completed under a key carries a MAC under it. -/
theorem framerPush_mac {fr : Framer} {b : Byte} {key : Key} {f : Frame} (h : (framerPush fr b (some key)).2 = .ok f) :
    frameMacValid f.body key = true := by
  have hfinish := framerPush_finish h
  unfold finish at hfinish
  dsimp only at hfinish
  repeat' split at hfinish
  all_goals try cases hfinish
  rename_i hmac
  show frameMacValid fr.body key = true
  simpa using hmac

/-! ## Forwarding -/

/-- A body is its first byte, the hop limit, and a rest that neither field nor MAC takes
    the hop limit into. -/
theorem frameBody_eq (f : Frame) (key : Key) : ∃ a rest, ∀ g : Frame,
    (g.type = f.type ∧ g.src = f.src ∧ g.dst = f.dst ∧ g.seq = f.seq ∧ g.payload = f.payload) → g.ttl ≠ 0 →
      frameBody g key = a :: g.ttl :: rest ++ put16 (crc16 (a :: g.ttl :: rest)) := by
  let tail := put16 f.src ++ put16 f.dst ++ put16 f.seq ++ [UInt8.ofNat f.payload.length] ++ f.payload
  let a := protoVersion <<< 4 ||| f.type
  refine ⟨a, tail ++ macField (macCompute (a :: f.ttl :: tail) (a :: f.ttl :: tail).length key), ?_⟩
  rintro g ⟨h1, h2, h3, h4, h5⟩ hg
  unfold frameBody
  rw [if_pos hg, h1, h2, h3, h4, h5]
  rfl

/-- One hop costs one off the hop limit, and repairs the CRC; the last hop forwards
    nothing. -/
theorem frameForwardPrepare_body (f : Frame) (key : Key) (ht : f.ttl ≠ 0) : frameForwardPrepare (frameBody f key) =
    if f.ttl = 1 then .error .ttl else .ok (frameBody { f with ttl := f.ttl - 1 } key) := by
  have hlen := length_frameBody f key
  obtain ⟨a, rest, hbody⟩ := frameBody_eq f key
  have hf := hbody f ⟨rfl, rfl, rfl, rfl, rfl⟩ ht
  rw [hf] at hlen ⊢
  have hne : f.ttl - 1 = 0 ↔ f.ttl = 1 := UInt8.sub_eq_iff_eq_add.trans (by rw [UInt8.zero_add])
  have hset : (a :: f.ttl :: rest ++ put16 (crc16 (a :: f.ttl :: rest))).set offTtl (f.ttl - 1) =
      a :: (f.ttl - 1) :: rest ++ put16 (crc16 (a :: f.ttl :: rest)) := rfl
  have hat : byteAt (a :: f.ttl :: rest ++ put16 (crc16 (a :: f.ttl :: rest))) offTtl = f.ttl := rfl
  have hat' : byteAt (a :: (f.ttl - 1) :: rest ++ put16 (crc16 (a :: f.ttl :: rest))) offTtl = f.ttl - 1 := rfl
  unfold frameForwardPrepare
  rw [if_neg (by omega), hat, if_neg ht]
  simp only [hset, hat']
  by_cases h1 : f.ttl = 1
  · rw [if_pos h1, if_pos (hne.mpr h1)]
  · have hg := hbody { f with ttl := f.ttl - 1 } ⟨rfl, rfl, rfl, rfl, rfl⟩ (fun h => h1 (hne.mp h))
    rw [if_neg h1, if_neg (fun h => h1 (hne.mp h)), hg]
    have hcut : (a :: (f.ttl - 1) :: rest ++ put16 (crc16 (a :: f.ttl :: rest))).length - crcBytes =
        (a :: (f.ttl - 1) :: rest).length := by
      rw [List.length_append]
      exact Nat.add_sub_cancel _ _
    rw [hcut, List.take_left]

end DeskHop.Wire
