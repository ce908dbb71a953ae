/-
  DeskHop.Wire.Cut — a stream in which frames are cut short.

  A `Piece` is what a stream has of one frame: its first bytes, and flags for padding after
  them. A flag closes what is open, so a piece without its own closing flag is closed by
  its padding or by the next piece.

  Proved: of a body that is cut short no decoder makes a frame (`outcome_cut`), wherever the
  cut is, between the two bytes of an escape pair too (`unstuff_take`). Pieces one after
  another, and a flag, carry just the frames that lack nothing or only the closing flag
  (`carries_pieces`). Where such a stream breaks off, it is one of shorter pieces
  (`take_pieces`).
-/

import DeskHop.Wire.Batch
import DeskHop.Wire.Idle

namespace DeskHop.Wire

/-! ## A body cut short -/

theorem unstuff_cons (prev b : Byte) (seg : List Byte) :
    unstuff prev (b :: seg) = unstuffByte prev b ++ unstuff b seg := by
  rw [unstuff, List.zipWith_cons_cons, List.flatten_cons]
  rfl

/-- A body byte is itself on the wire, or an escape and the byte flipped. -/
theorem stuff_cases (b : Byte) :
    (stuff b = [b] ∧ b ≠ esc) ∨ ∃ x, stuff b = [esc, x] ∧ x ≠ esc ∧ x ^^^ escXor = b := by
  unfold stuff
  split
  · rename_i h
    refine Or.inr ⟨b ^^^ escXor, rfl, ?_, ?_⟩
    · rcases h with rfl | rfl <;> decide
    · rcases h with rfl | rfl <;> decide
  · rename_i h
    exact Or.inl ⟨rfl, fun he => h (Or.inr he)⟩

/-- The first bytes of a stuffed body are the first bytes of the body, unstuffed. -/
theorem unstuff_take {prev : Byte} (hprev : prev ≠ esc) (body : List Byte) (n : Nat) :
    ∃ m, unstuff prev ((body.flatMap stuff).take n) = body.take m ∧
      (m < body.length ↔ n < (body.flatMap stuff).length) := by
  induction body generalizing prev n with
  | nil => exact ⟨0, by rw [List.flatMap_nil, List.take_nil, List.take_nil]; rfl, by simp⟩
  | cons b body ih =>
    rw [List.flatMap_cons]
    rcases stuff_cases b with ⟨hb, hne⟩ | ⟨x, hb, hne, hback⟩
    · rw [hb, List.singleton_append]
      cases n with
      | zero => exact ⟨0, rfl, by simp⟩
      | succ n =>
        obtain ⟨m, hm, hlt⟩ := ih hne n
        refine ⟨m + 1, ?_, by simpa using hlt⟩
        rw [List.take_succ_cons, List.take_succ_cons, unstuff_cons, hm, unstuffByte, if_neg hne, if_neg hprev]
        rfl
    · rw [hb, List.cons_append, List.singleton_append]
      have hmark : unstuffByte prev esc = [] := if_pos rfl
      cases n with
      | zero => exact ⟨0, rfl, by simp⟩
      | succ n =>
        cases n with
        | zero =>
          -- between the mark and the byte it is for
          refine ⟨0, ?_, by simp⟩
          rw [List.take_succ_cons, List.take_zero, List.take_zero, unstuff_cons, hmark]
          rfl
        | succ n =>
          obtain ⟨m, hm, hlt⟩ := ih hne n
          refine ⟨m + 1, ?_, by simpa using hlt⟩
          rw [List.take_succ_cons, List.take_succ_cons, List.take_succ_cons, unstuff_cons, unstuff_cons, hm, hmark,
            unstuffByte, if_neg hne, if_pos rfl, hback]
          rfl

/-- The encoder takes the frame. -/
def Sendable (f : Frame) : Prop := f.type ≤ 0x0F ∧ f.payload.length ≤ maxPayload

section body

variable {f : Frame} (key : Key) (h : Sendable f)
include h

/-- The length field tells that the end is missing. -/
theorem outcome_cut {m : Nat} (hm : m < (frameBody f key).length) :
    (outcome (some key) ((frameBody f key).take m)).toOption = none := by
  have hlen := length_frameBody f key
  have hnot : ¬ WellFormed (some key) ((frameBody f key).take m) := by
    intro hw
    have hsize : ((frameBody f key).take m).length = m := List.length_take_of_le (Nat.le_of_lt hm)
    have hlong := hw.long
    rw [hsize] at hlong
    have hfield : byteAt ((frameBody f key).take m) offLen = byteAt (frameBody f key) offLen := by
      rw [byteAt, byteAt, List.getD_eq_getElem?_getD, List.getD_eq_getElem?_getD, List.getElem?_take_of_lt]
      simp only [frameOverhead, hdrBytes] at hlong
      simp only [offLen]
      omega
    have hpay : (byteAt (frameBody f key) offLen).toNat = f.payload.length := length_byte h.2
    have hsum := hw.len
    rw [hfield, hpay, hsize] at hsum
    simp only [frameOverhead] at hlen
    omega
  by_cases hnone : (frameBody f key).take m = [] ∨ bodyMax < ((frameBody f key).take m).length
  · rw [outcome, if_pos hnone]
    rfl
  · rw [outcome, if_neg hnone, if_neg hnot]
    rfl

theorem outcome_whole : outcome (some key) (frameBody f key) = .ok (decoded f key) := by
  have hlen := length_frameBody f key
  have hfits : (frameBody f key).length ≤ bodyMax := by
    rw [hlen, bodyMax]
    exact Nat.add_le_add_left h.2 _
  have hne : frameBody f key ≠ [] := List.ne_nil_of_length_pos (by rw [hlen, frameOverhead, hdrBytes]; omega)
  let fr : Framer := { framerInit with body := frameBody f key }
  have hjudged : (finish fr (some key)).2 = _ := finish_outcome (some key) hfits
  have hbody : fr.body = frameBody f key := rfl
  rw [finish_body hbody h.1 h.2, hbody] at hjudged
  rw [outcome, if_neg (not_or.mpr ⟨hne, Nat.not_lt.mpr hfits⟩)]
  exact hjudged.symm

end body

/-! ## Pieces -/

structure Piece where
  frame : Frame
  /-- How many of its bytes there are. -/
  bytes : Nat
  /-- The flags after them. -/
  padding : Nat
  sendable : Sendable frame

namespace Piece

def onLine (key : Key) (p : Piece) : List Byte := (onWire p.frame key).take p.bytes ++ List.replicate p.padding flag

/-- Nothing is missing but the closing flag, if that. -/
def intact (key : Key) (p : Piece) : Bool := (onWire p.frame key).length ≤ p.bytes + 1

/-- What there is of it where the stream breaks off after `n` more bytes. -/
def cutAt (key : Key) (n : Nat) (p : Piece) : Piece :=
  { p with bytes := min n p.bytes, padding := min (n - ((onWire p.frame key).take p.bytes).length) p.padding }

theorem take_onLine (key : Key) (n : Nat) (p : Piece) : (p.onLine key).take n = (p.cutAt key n).onLine key := by
  rw [onLine, List.take_append, List.take_take, List.take_replicate]
  rfl

end Piece

/-- The pieces of the first `n` bytes. -/
def cutShort (key : Key) : Nat → List Piece → List Piece
  | _, [] => []
  | n, p :: ps => p.cutAt key n :: cutShort key (n - (p.onLine key).length) ps

theorem take_pieces (key : Key) (n : Nat) (ps : List Piece) :
    (ps.flatMap (·.onLine key)).take n = (cutShort key n ps).flatMap (·.onLine key) := by
  induction ps generalizing n with
  | nil => exact List.take_nil
  | cons p ps ih => rw [List.flatMap_cons, List.take_append, p.take_onLine, ih, cutShort, List.flatMap_cons]

/-! ## What is read of them -/

variable {key : Key} {fr : Framer} {bs : List Byte} {fs : List Frame}

/-- A flag opens a body, and a flag closes it. -/
theorem carries_closed (h : Carries key fr (bs ++ [flag]) fs) {seg : List Byte} (hseg : flag ∉ seg) {gs : List Frame}
    (hg : (outcome (some key) (unstuff flag seg)).toOption.toList = gs.map (decoded · key)) :
    Carries key fr (bs ++ [flag] ++ seg ++ [flag]) (fs ++ gs) := by
  have hopen : Within (feed (some key) fr (bs ++ [flag])).1 [] flag := by
    rw [feed_snoc]
    exact within_nil (push_flag _ _)
  obtain ⟨⟨last, hend⟩, hres, -⟩ := feed_within (some key) hopen hseg
  obtain ⟨hout, -⟩ := push_flag_within (some key) hend
  rw [List.nil_append] at hout
  have hfed : feed (some key) fr (bs ++ [flag] ++ seg) = ((feed (some key) (feed (some key) fr (bs ++ [flag])).1 seg).1,
      (feed (some key) fr (bs ++ [flag])).2 ++ List.replicate seg.length (.error .again)) := by
    rw [feed_append, hres]
  constructor
  · rw [feed_snoc]
    exact (push_flag _ _).closed
  · rw [feed_snoc, hfed, List.filterMap_append, List.filterMap_append, h.frames, toOption_again, List.append_nil,
      List.map_append, ← hg, hout]
    cases outcome (some key) (unstuff flag seg) <;> rfl

/-- What the flag after a piece brings out of it. -/
theorem outcome_piece (key : Key) (p : Piece) {n : Nat} (hn : p.bytes = n + 1) :
    (outcome (some key) (unstuff flag (((frameBody p.frame key).flatMap stuff).take n))).toOption.toList =
      (([p].filter (·.intact key)).map Piece.frame).map (decoded · key) := by
  have hwire := length_onWire p.frame key
  have hflag : flag ≠ esc := by decide
  obtain ⟨m, hm, hcut⟩ := unstuff_take hflag (frameBody p.frame key) n
  rw [hm, List.filter_singleton, Piece.intact, hwire, hn]
  by_cases hlt : m < (frameBody p.frame key).length
  · have := hcut.mp hlt
    rw [outcome_cut key p.sendable hlt, decide_eq_false (by omega)]
    rfl
  · have := mt hcut.mpr hlt
    rw [List.take_of_length_le (Nat.not_lt.mp hlt), outcome_whole key p.sendable, decide_eq_true (by omega)]
    rfl

/-- What a piece adds. -/
theorem carries_piece (h : Carries key fr (bs ++ [flag]) fs) (p : Piece) :
    Carries key fr (bs ++ p.onLine key ++ [flag]) (fs ++ ([p].filter (·.intact key)).map Piece.frame) := by
  cases hn : p.bytes with
  | zero =>
    have hnone : p.intact key = false := by
      rw [Piece.intact, length_onWire, hn]
      exact decide_eq_false (by omega)
    have hidle := h.idle p.padding
    rw [List.append_assoc, List.singleton_append, ← List.replicate_succ, List.replicate_succ', ← List.append_assoc]
      at hidle
    rw [Piece.onLine, hn, List.take_zero, List.nil_append, List.filter_singleton, hnone, cond_false, List.map_nil,
      List.append_nil]
    exact hidle
  | succ n =>
    let body := (frameBody p.frame key).flatMap stuff
    let k := min (n - body.length) 1
    have hseg : flag ∉ body.take n := fun hmem => flag_not_mem_stuffed _ (List.mem_of_mem_take hmem)
    have hidle := (carries_closed h hseg (outcome_piece key p hn)).idle (k + p.padding)
    -- of the closing flag and the padding, the first flag closes and the others are idle
    have hflags : [flag].take (n - body.length) ++ (List.replicate p.padding flag ++ [flag]) =
        flag :: List.replicate (k + p.padding) flag := by
      have hone : [flag].take (n - body.length) = List.replicate k flag := List.take_replicate (n := 1)
      rw [hone, ← List.replicate_succ', ← List.replicate_add]
      rfl
    have hbytes : bs ++ p.onLine key ++ [flag] =
        bs ++ [flag] ++ body.take n ++ [flag] ++ List.replicate (k + p.padding) flag := by
      have hwire : onWire p.frame key = flag :: (body ++ [flag]) := rfl
      rw [Piece.onLine, hn, hwire, List.take_succ_cons, List.take_append]
      simp only [List.append_assoc, List.cons_append, List.nil_append, hflags]
    rw [hbytes]
    exact hidle

/-- Pieces one after another, and a flag. -/
theorem carries_pieces (key : Key) (ps : List Piece) :
    Carries key framerInit (ps.flatMap (·.onLine key) ++ [flag]) ((ps.filter (·.intact key)).map Piece.frame) := by
  induction ps using List.reverseRecOn with
  | nil => exact ((carries_nil key rfl : Carries key framerInit [] [])).flag
  | append_singleton ps p ih =>
    rw [List.flatMap_append, List.filter_append, List.map_append, List.flatMap_singleton]
    exact carries_piece ih p

theorem carries_frames (h : Carries key fr bs fs) {gs : List Frame} (hg : ∀ f ∈ gs, Sendable f) :
    Carries key fr (bs ++ gs.flatMap (onWire · key)) (fs ++ gs) := by
  induction gs generalizing bs fs with
  | nil =>
    rw [List.flatMap_nil, List.append_nil, List.append_nil]
    exact h
  | cons f gs ih =>
    have hf := hg f List.mem_cons_self
    have hrest := ih (h.frame hf.1 hf.2) fun g hmem => hg g (List.mem_cons_of_mem _ hmem)
    rw [List.append_assoc, List.append_assoc] at hrest
    exact hrest

/-- Pieces of which nothing is missing need no flag after them. -/
theorem carries_whole (key : Key) {ps : List Piece} (h : ∀ p ∈ ps, p.bytes = (onWire p.frame key).length) :
    Carries key framerInit (ps.flatMap (·.onLine key)) (ps.map Piece.frame) := by
  induction ps using List.reverseRecOn with
  | nil => exact carries_nil key rfl
  | append_singleton ps p ih =>
    have hp := h p (List.mem_append_right _ List.mem_cons_self)
    have hbefore := ih fun q hq => h q (List.mem_append_left _ hq)
    rw [List.flatMap_append, List.map_append, List.flatMap_singleton, Piece.onLine, hp, List.take_length,
      ← List.append_assoc]
    exact (hbefore.frame p.sendable.1 p.sendable.2).idle p.padding

/-! ## The frames of a stream -/

/-- The frames a decoder makes of these bytes. -/
def decodes (key : Key) (bs : List Byte) : List Frame := (feed (some key) framerInit bs).2.filterMap Except.toOption

theorem decodes_begins (key : Key) {bs all : List Byte} (h : bs <+: all) : decodes key bs <+: decodes key all := by
  obtain ⟨more, rfl⟩ := h
  rw [decodes, decodes, feed_append, List.filterMap_append]
  exact List.prefix_append _ _

theorem decodes_frames (key : Key) {fs : List Frame} (hs : ∀ f ∈ fs, Sendable f) :
    decodes key (fs.flatMap (onWire · key)) = fs.map (decoded · key) :=
  (carries_frames (carries_nil key rfl : Carries key framerInit [] []) hs).frames

/-- Of the first bytes of some frames no decoder makes anything but the first of these frames. -/
theorem decodes_some (key : Key) {fs : List Frame} (hs : ∀ f ∈ fs, Sendable f) {bs : List Byte}
    (h : bs <+: fs.flatMap (onWire · key)) : decodes key bs <+: fs.map (decoded · key) :=
  decodes_frames key hs ▸ decodes_begins key h

end DeskHop.Wire
