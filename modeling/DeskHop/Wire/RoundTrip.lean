/-
  DeskHop.Wire.RoundTrip — what is encoded is what is decoded, wherever the decoder
  starts.

  `feed` pushes bytes into a decoder and collects what it returns for each. A decoder
  that has seen the opening flag of a frame collects the frame's body whatever it was
  doing before, so the frame comes out on the closing flag (`feed_onWire`).

  Proved: a decoder in any state returns the frame on the last byte and nothing between the first
  byte and the last. On the first byte it may return the frame that was open before:
  a flag closes one frame and opens the next.
-/

import DeskHop.Core.Fields
import DeskHop.Wire.Link

namespace DeskHop.Wire

/-! ## Feeding the decoder -/

/-- Push bytes, collecting what is returned for each. -/
def feed (key : Option Key) : Framer → List Byte → Framer × List (Except Result Frame)
  | fr, [] => (fr, [])
  | fr, b :: bs =>
    let r := framerPush fr b key
    let t := feed key r.1 bs
    (t.1, r.2 :: t.2)

theorem feed_append (key : Option Key) (fr : Framer) (xs ys : List Byte) :
    feed key fr (xs ++ ys) =
      ((feed key (feed key fr xs).1 ys).1, (feed key fr xs).2 ++ (feed key (feed key fr xs).1 ys).2) := by
  induction xs generalizing fr with
  | nil => rfl
  | cons b xs ih => simp only [List.cons_append, feed, ih]

/-- In a frame, with `body` collected so far. -/
structure Collecting (fr : Framer) (body : List Byte) : Prop where
  inFrame : fr.inFrame = true
  escaped : fr.escaped = false
  overflow : fr.overflow = false
  body : fr.body = body

/-- A flag opens a frame, whatever the decoder was doing. -/
theorem push_flag (fr : Framer) (key : Option Key) : Collecting (framerPush fr flag key).1 [] := by
  unfold framerPush
  rw [if_pos rfl]
  exact ⟨rfl, rfl, rfl, rfl⟩

/-- A byte of the body, stuffed, is collected. -/
theorem feed_stuff {fr : Framer} {body : List Byte} (key : Option Key) (b : Byte) (h : Collecting fr body)
    (hroom : body.length < bodyMax) :
    Collecting (feed key fr (stuff b)).1 (body ++ [b]) ∧
      (feed key fr (stuff b)).2 = List.replicate (stuff b).length (.error .again) := by
  have hlen : ¬ fr.body.length ≥ bodyMax := by
    rw [h.body]
    omega
  unfold stuff
  by_cases hb : b = flag ∨ b = esc
  · -- escaped: the mark first, then the byte it stands for
    have h1 : framerPush fr esc key = ({ fr with escaped := true }, .error .again) := by
      unfold framerPush
      rw [if_neg (by decide), if_neg (by simp [h.inFrame, h.overflow]), if_pos rfl]
    have hne : b ^^^ escXor ≠ flag ∧ b ^^^ escXor ≠ esc := by rcases hb with rfl | rfl <;> decide
    have hback : b ^^^ escXor ^^^ escXor = b := by rcases hb with rfl | rfl <;> decide
    have h2 : framerPush { fr with escaped := true } (b ^^^ escXor) key =
        ({ fr with escaped := false, body := fr.body ++ [b] }, .error .again) := by
      unfold framerPush
      rw [if_neg hne.1, if_neg (by simp [h.inFrame, h.overflow]), if_neg hne.2]
      simp only [if_true, if_neg hlen, hback]
    rw [if_pos hb]
    simp only [feed, h1, h2]
    exact ⟨⟨h.inFrame, rfl, h.overflow, by rw [h.body]⟩, rfl⟩
  · have hne : b ≠ flag ∧ b ≠ esc := not_or.mp hb
    have h1 : framerPush fr b key = ({ fr with escaped := false, body := fr.body ++ [b] }, .error .again) := by
      unfold framerPush
      rw [if_neg hne.1, if_neg (by simp [h.inFrame, h.overflow]), if_neg hne.2]
      simp only [h.escaped, Bool.false_eq_true, if_false, if_neg hlen]
    rw [if_neg hb]
    simp only [feed, h1]
    exact ⟨⟨h.inFrame, rfl, h.overflow, by rw [h.body]⟩, rfl⟩

theorem feed_stuffed {fr : Framer} {body : List Byte} (key : Option Key) (bs : List Byte) (h : Collecting fr body)
    (hroom : body.length + bs.length ≤ bodyMax) :
    Collecting (feed key fr (bs.flatMap stuff)).1 (body ++ bs) ∧
      (feed key fr (bs.flatMap stuff)).2 = List.replicate (bs.flatMap stuff).length (.error .again) := by
  induction bs generalizing fr body with
  | nil =>
    rw [List.append_nil]
    exact ⟨h, rfl⟩
  | cons b bs ih =>
    rw [List.length_cons] at hroom
    obtain ⟨h1, h2⟩ := feed_stuff key b h (by omega)
    obtain ⟨h3, h4⟩ := ih h1 (by rw [List.length_append, List.length_singleton]; omega)
    rw [List.flatMap_cons, feed_append]
    refine ⟨?_, ?_⟩
    · rw [← List.singleton_append, ← List.append_assoc]
      exact h3
    · rw [h2, h4, ← List.replicate_add, List.length_append]

/-! ## The closing flag -/

/-- The frame as the decoder returns it. -/
def decoded (f : Frame) (key : Key) : Frame :=
  { f with ttl := if f.ttl ≠ 0 then f.ttl else ttlDefault, body := frameBody f key }

/-- The part of the body that MAC and CRC follow. -/
def covered (f : Frame) : List Byte :=
  [protoVersion <<< 4 ||| f.type, if f.ttl ≠ 0 then f.ttl else ttlDefault] ++ put16 f.src ++ put16 f.dst ++
    put16 f.seq ++ [UInt8.ofNat f.payload.length] ++ f.payload

theorem length_covered (f : Frame) : (covered f).length = hdrBytes + f.payload.length := by
  simp [covered, put16, hdrBytes]
  omega

/-- What is hashed into the MAC is part of the covered bytes. -/
theorem macCompute_append (b r : List Byte) (key : Key) (hb : 2 ≤ b.length) :
    macCompute (b ++ r) b.length key = macCompute b b.length key := by
  obtain ⟨x, y, rest, rfl⟩ : ∃ x y rest, b = x :: y :: rest := by
    match b, hb with
    | x :: y :: rest, _ => exact ⟨x, y, rest, rfl⟩
  have htake : (rest ++ r).take ((x :: y :: rest).length - 2) = rest.take ((x :: y :: rest).length - 2) := by
    rw [List.take_append_of_le_length (by simp)]
  show siphash24 (x :: (rest ++ r).take ((x :: y :: rest).length - 2)) key = _
  rw [htake]
  rfl

theorem frameMacValid_body (f : Frame) (key : Key) : frameMacValid (frameBody f key) key = true := by
  have hlen := length_frameBody f key
  have hc := length_covered f
  have hcov : (frameBody f key).length - macBytes - crcBytes = (covered f).length := by
    rw [hlen, hc]
    simp only [frameOverhead, macBytes, crcBytes]
    omega
  let mac := macField (macCompute (covered f) (covered f).length key)
  have hbody : frameBody f key = covered f ++ (mac ++ put16 (crc16 (covered f ++ mac))) := List.append_assoc _ _ _
  unfold frameMacValid
  rw [if_neg (by omega)]
  simp only
  rw [hcov, hbody, macCompute_append _ _ _ (by rw [hc, hdrBytes]; omega), List.drop_left]
  rw [ctEqual_iff]
  intro i hi
  rw [byteAt, byteAt, List.getD_eq_getElem?_getD, List.getD_eq_getElem?_getD, List.getElem?_append_left]
  show i < (macField _).length
  rw [macField, List.length_map, List.length_range]
  exact hi

theorem version_type (t : UInt8) (ht : t ≤ 0x0F) :
    (protoVersion <<< 4 ||| t) >>> 4 = protoVersion ∧ (protoVersion <<< 4 ||| t) &&& 0x0F = t := by
  have hall : ∀ n : Fin 16, (protoVersion <<< 4 ||| UInt8.ofNat n.val) >>> 4 = protoVersion ∧
      (protoVersion <<< 4 ||| UInt8.ofNat n.val) &&& 0x0F = UInt8.ofNat n.val := by decide
  have hlt : t.toNat < 16 := Nat.lt_succ_of_le (UInt8.le_iff_toNat_le.mp ht)
  have h := hall ⟨t.toNat, hlt⟩
  rwa [UInt8.ofNat_toNat] at h

theorem length_byte {n : Nat} (h : n ≤ maxPayload) : (UInt8.ofNat n).toNat = n := by
  rw [UInt8.toNat_ofNat']
  simp only [maxPayload] at h
  omega

/-- The fields of a body are those of its frame. -/
theorem frameOfBody_body (f : Frame) (key : Key) (ht : f.type ≤ 0x0F) (hp : f.payload.length ≤ maxPayload) :
    frameOfBody (frameBody f key) = decoded f key := by
  let mac := macField (macCompute (covered f) (covered f).length key)
  let tail := f.payload ++ (mac ++ put16 (crc16 (covered f ++ mac)))
  have hbody : frameBody f key = covered f ++ (mac ++ put16 (crc16 (covered f ++ mac))) := List.append_assoc _ _ _
  have hsrc : get16 (frameBody f key) offSrc = f.src := by
    rw [hbody]
    exact get16_put16 f.src []
  have hdst : get16 (frameBody f key) offDst = f.dst := by
    rw [hbody]
    exact get16_put16 f.dst []
  have hseq : get16 (frameBody f key) offSeq = f.seq := by
    rw [hbody]
    exact get16_put16 f.seq []
  have hlen : (byteAt (frameBody f key) offLen).toNat = f.payload.length := length_byte hp
  have hpay : ((frameBody f key).drop hdrBytes).take f.payload.length = f.payload := by
    have hdrop : (frameBody f key).drop hdrBytes = tail := by
      rw [hbody]
      rfl
    rw [hdrop]
    exact List.take_left
  unfold frameOfBody
  rw [hsrc, hdst, hseq, hlen, hpay]
  show Frame.mk ((protoVersion <<< 4 ||| f.type) &&& 0x0F) _ _ _ _ _ _ = _
  rw [(version_type f.type ht).2]
  rfl

/-- The closing flag finds nothing wrong with the body of a frame. -/
theorem finish_body {fr : Framer} {f : Frame} {key : Key} (hb : fr.body = frameBody f key) (ht : f.type ≤ 0x0F)
    (hp : f.payload.length ≤ maxPayload) : (finish fr (some key)).2 = .ok (decoded f key) := by
  have hlen := length_frameBody f key
  let mac := macField (macCompute (covered f) (covered f).length key)
  have hbody : frameBody f key = (covered f ++ mac) ++ put16 (crc16 (covered f ++ mac)) := rfl
  have hoff : (frameBody f key).length - crcBytes = (covered f ++ mac).length := by
    rw [hbody, List.length_append]
    exact Nat.add_sub_cancel _ _
  have hcrc : get16 (frameBody f key) ((frameBody f key).length - crcBytes) =
      crc16 ((frameBody f key).take ((frameBody f key).length - crcBytes)) := by
    rw [hoff]
    rw [hbody, List.take_left]
    exact field16.get_last _ (covered f ++ mac)
  have hl : (byteAt (frameBody f key) offLen).toNat = f.payload.length := length_byte hp
  have hver : byteAt (frameBody f key) offVerType >>> 4 = protoVersion := (version_type f.type ht).1
  have hsum : hdrBytes + f.payload.length + macBytes + crcBytes = (frameBody f key).length := by
    rw [hlen]
    simp only [frameOverhead]
    omega
  unfold finish
  simp only [hb]
  rw [if_neg (by omega), if_neg (not_not.mpr hcrc)]
  simp only [hl]
  rw [if_neg (by simp [hsum]; exact hp), if_neg (not_not.mpr hver), if_neg (by simp [frameMacValid_body])]
  exact congrArg Except.ok (frameOfBody_body f key ht hp)

theorem push_flag_of_closed {fr : Framer} (key : Option Key)
    (h : (fr.inFrame && !fr.overflow && !fr.body.isEmpty) = false) : (framerPush fr flag key).2 = .error .again := by
  unfold framerPush
  rw [if_pos rfl]
  simp only [h, Bool.false_eq_true, if_false]
  split <;> rfl

theorem push_flag_of_open {fr : Framer} (key : Option Key)
    (h : (fr.inFrame && !fr.overflow && !fr.body.isEmpty) = true) : (framerPush fr flag key).2 = (finish fr key).2 := by
  unfold framerPush
  rw [if_pos rfl]
  simp only [h, if_true]

/-- A frame comes out on its closing flag, whatever the decoder was doing, and leaves it
    at the start of the next. -/
theorem feed_onWire (fr : Framer) {f : Frame} (key : Key) (ht : f.type ≤ 0x0F) (hp : f.payload.length ≤ maxPayload) :
    Collecting (feed (some key) fr (onWire f key)).1 [] ∧
      (feed (some key) fr (onWire f key)).2 = (framerPush fr flag (some key)).2 ::
        List.replicate ((onWire f key).length - 2) (.error .again) ++ [.ok (decoded f key)] := by
  have hlen := length_frameBody f key
  have hfit : ([] : List Byte).length + (frameBody f key).length ≤ bodyMax := by
    rw [hlen, List.length_nil, bodyMax]
    omega
  obtain ⟨hbody, hagain⟩ := feed_stuffed (some key) (frameBody f key) (push_flag fr (some key)) hfit
  rw [List.nil_append] at hbody
  generalize hmid : feed (some key) (framerPush fr flag (some key)).1 ((frameBody f key).flatMap stuff) = mid at hbody hagain
  have hne : frameBody f key ≠ [] := List.ne_nil_of_length_pos (by rw [hlen, frameOverhead, hdrBytes]; omega)
  have hopen : (mid.1.inFrame && !mid.1.overflow && !mid.1.body.isEmpty) = true := by
    simp [hbody.inFrame, hbody.overflow, hbody.body, hne]
  have hlast : (framerPush mid.1 flag (some key)).2 = .ok (decoded f key) :=
    (push_flag_of_open _ hopen).trans (finish_body hbody.body ht hp)
  have hfeed : feed (some key) fr (onWire f key) = ((framerPush mid.1 flag (some key)).1,
      (framerPush fr flag (some key)).2 :: (mid.2 ++ [(framerPush mid.1 flag (some key)).2])) := by
    show feed (some key) fr (flag :: ((frameBody f key).flatMap stuff ++ [flag])) = _
    rw [feed, feed_append, hmid]
    rfl
  have hcount : (onWire f key).length - 2 = ((frameBody f key).flatMap stuff).length := by
    rw [length_onWire, Nat.add_sub_cancel]
  rw [hfeed, hlast, hcount, ← hagain]
  exact ⟨push_flag _ _, rfl⟩

/-- The encoder's output decodes to the frame on its last byte, from any state of the
    decoder; only the first byte may return something else, the frame that it closes. -/
theorem frame_round_trip (f : Frame) (key : Key) (ht : f.type ≤ 0x0F) (hp : f.payload.length ≤ maxPayload) :
    (∀ cap, frameEncode f key cap = if (onWire f key).length ≤ cap then .ok (onWire f key) else .error .nospace) ∧
      frameEncode f key wireMax = .ok (onWire f key) ∧
      (∃ inner, onWire f key = flag :: inner ++ [flag] ∧ flag ∉ inner) ∧
      ∀ fr : Framer, ∃ first, (feed (some key) fr (onWire f key)).2 =
          first :: List.replicate ((onWire f key).length - 2) (.error .again) ++ [.ok (decoded f key)] ∧
        (first = .error .again ∨
          fr.inFrame = true ∧ fr.overflow = false ∧ fr.body ≠ [] ∧ first = (finish fr (some key)).2) := by
  refine ⟨fun cap => frameEncode_eq f key cap hp ht, frameEncode_ok f key hp ht,
    ⟨_, rfl, flag_not_mem_stuffed _⟩, fun fr => ⟨_, (feed_onWire fr key ht hp).2, ?_⟩⟩
  cases hopen : fr.inFrame && !fr.overflow && !fr.body.isEmpty with
  | false => exact Or.inl (push_flag_of_closed _ hopen)
  | true =>
    refine Or.inr ?_
    have h := hopen
    simp only [Bool.and_eq_true, Bool.not_eq_true', List.isEmpty_eq_false_iff] at h
    exact ⟨h.1.1, h.1.2, h.2, push_flag_of_open _ hopen⟩

/-- An empty frame. -/
def blankFrame : Frame := ⟨1, 3, 5, 7, 9, [], []⟩

def blankKey : Key := Bytes.zero 16

theorem frame_round_trip_of_blank :
    ∃ first, (feed (some blankKey) framerInit (onWire blankFrame blankKey)).2 =
      first :: List.replicate ((onWire blankFrame blankKey).length - 2) (.error .again) ++
        [.ok (decoded blankFrame blankKey)] := by
  obtain ⟨first, h, -⟩ := (frame_round_trip blankFrame blankKey (by decide) (by decide)).2.2.2 framerInit
  exact ⟨first, h⟩

/-- A decoder left before the closing flag of a frame returns it on the opening flag of
    the next, long before the last byte. -/
theorem first_byte_returns_frame :
    (feed (some blankKey) (feed (some blankKey) framerInit (onWire blankFrame blankKey).dropLast).1
        (onWire blankFrame blankKey)).2[0]? = some (.ok (decoded blankFrame blankKey)) ∧
      1 < (onWire blankFrame blankKey).length := by
  decide +kernel

end DeskHop.Wire
