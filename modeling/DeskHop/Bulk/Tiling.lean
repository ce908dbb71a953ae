/-
  DeskHop.Bulk.Tiling — what a stream reported sound has handed over, whatever the peer
  sends.

  The verdict goes by the checksum the offer declared and the number of chunks, offsets
  by sequence numbers; no one counts bytes. So a stream reported sound has been handed
  over from its start to its end, with no gap and no overlap, in every run in which each
  chunk but the last is full, no offer is taken that 65535 chunks cannot hold, no
  message ends an inbound stream with "sound" as its reason, and no stream is cancelled
  inside its own chunk hook (`sound_is_whole`). A chunk that stops short leaves a gap,
  and a checksum that the peer has made to fit it passes (`short_chunk_leaves_a_gap`).
-/

import DeskHop.Bulk.Hearing

namespace DeskHop.Bulk

open DeskHop.Lib DeskHop.Wire Relation

/-! ## Pieces of an interval -/

/-- The pieces lie one after another from `lo` to `hi`. -/
def Tiles : Nat → List (Nat × List Byte) → Nat → Prop
  | lo, [], hi => lo = hi
  | lo, (off, data) :: rest, hi => off = lo ∧ Tiles (lo + data.length) rest hi

theorem tiles_snoc {lo hi : Nat} {pieces : List (Nat × List Byte)} (h : Tiles lo pieces hi) (data : List Byte) :
    Tiles lo (pieces ++ [(hi, data)]) (hi + data.length) := by
  induction pieces generalizing lo with
  | nil =>
    cases h
    exact ⟨rfl, rfl⟩
  | cons x rest ih => exact ⟨h.1, ih h.2⟩

/-! ## Reading a log -/

/-- The total of the last offer on a handle. -/
def announcedStep (h : Handle) (acc : Option UInt32) : Note → Option UInt32
  | .offered h' _ _ _ total _ => if h' = h then some total else acc
  | _ => acc

def announced (h : Handle) (notes : List Note) : Option UInt32 := notes.foldl (announcedStep h) none

/-- The chunks on a handle since its last offer. -/
def piecesStep (h : Handle) (acc : List (Nat × List Byte)) : Note → List (Nat × List Byte)
  | .offered h' _ _ _ _ _ => if h' = h then [] else acc
  | .chunk h' off data => if h' = h then acc ++ [(off.toNat, data)] else acc
  | _ => acc

def pieces (h : Handle) (notes : List Note) : List (Nat × List Byte) := notes.foldl (piecesStep h) []

theorem announced_snoc (h : Handle) (notes : List Note) (n : Note) :
    announced h (notes ++ [n]) = announcedStep h (announced h notes) n := List.foldl_append

theorem pieces_snoc (h : Handle) (notes : List Note) (n : Note) :
    pieces h (notes ++ [n]) = piecesStep h (pieces h notes) n := List.foldl_append

/-- A stream reported sound has been handed over whole. -/
def Whole (pre : List Note) : Note → Prop
  | .received h r => r = dataOk → ∃ total, announced h pre = some total ∧ Tiles 0 (pieces h pre) total.toNat
  | _ => True

/-! ## One endpoint -/

/-- A turn of an endpoint, with whatever message arrives. -/
inductive Input where
  | app (script : Script) (now : Time)
  | tick (react : Handle → Script) (now : Time)
  | rx (f : Frame) (react : Fin 2 → Script) (now : Time)

def Data.step (d : Data) : Input → Data
  | .app script now => script.run now d
  | .tick react now => dataTick d now fun h => (react h).run now
  | .rx f react now => dataRx d f now fun k => (react k).run now

/-- What a conforming peer sends. -/
structure Orderly (d : Data) (src : Addr) (p : List Byte) : Prop where
  /-- A chunk is full, or ends the content. -/
  full : ∀ i, d.handsChunk src p = some i →
    ((p.drop 2).drop 2).length = min chunkBytes ((d.s i).total.toNat - chunkBytes * (d.s i).nextSeq.toNat)
  /-- An offer can be held by 65535 chunks, or is refused. -/
  fits : byteAt p 0 = opOffer → (get32 (p.drop 2) 1).toNat ≤ contentMax ∨ d.maxInbound < get32 (p.drop 2) 1
  /-- A refusal or an abort of a stream that comes in gives a reason. -/
  reason : byteAt p 0 = opReject ∨ byteAt p 0 = opAbort → ∀ i, d.slotFind src (byteAt p 1) false = some i →
    resultOf (p.drop 2) (defaultResult (byteAt p 0)) ≠ dataOk

/-- Such messages, to an application that lets its chunk hooks end. -/
def Data.Expects (d : Data) : Input → Prop
  | .rx f react _ => Orderly d f.src f.payload ∧
    ∀ i, d.handsChunk f.src f.payload = some i → (react ⟨0, Nat.two_pos⟩).all (fun c => !c.isCancel i) = true
  | _ => True

instance (d : Data) (src : Addr) (p : List Byte) : Decidable (Orderly d src p) :=
  decidable_of_iff (_ ∧ _ ∧ _) ⟨fun ⟨h1, h2, h3⟩ => ⟨h1, h2, h3⟩, fun h => ⟨h.full, h.fits, h.reason⟩⟩

instance (d : Data) (e : Input) : Decidable (d.Expects e) :=
  match e with
  | .app .. | .tick .. => isTrue trivial
  | .rx f react _ => inferInstanceAs (Decidable (Orderly d f.src f.payload ∧
      ∀ i, d.handsChunk f.src f.payload = some i → (react ⟨0, Nat.two_pos⟩).all (fun c => !c.isCancel i) = true))

/-! ## The invariant -/

/-- The first `n` chunks of a stream have been handed over. -/
structure HandedOver (notes : List Note) (i : Handle) (s : Stream) (n : Nat) : Prop where
  announced : announced i notes = some s.total
  fits : s.total.toNat ≤ contentMax
  tiles : Tiles 0 (pieces i notes) (min s.total.toNat (chunkBytes * n))
  more : s.nextSeq < chunksFor s.total

structure Covers (g : Given) (m : Mid) : Prop where
  sorted : m.d.Sorted
  slots : ∀ i, (m.held.map Prod.fst) ≠ some i → (m.d.s i).comesIn →
    HandedOver m.d.notes i (m.d.s i) (m.d.s i).nextSeq.toNat
  held : ∀ i s, m.held = some (i, s) → m.d.s i = s ∧ s.state = .receiving ∧ i ∈ Data.half false ∧
    HandedOver m.d.notes i s (s.nextSeq.toNat + 1)
  notes : Each Whole m.d.notes

/-- A log that says nothing new of what has been announced and handed over. -/
structure Mute (notes notes' : List Note) : Prop where
  announced : ∀ k ∈ Data.half false, announced k notes' = announced k notes
  pieces : ∀ k ∈ Data.half false, pieces k notes' = pieces k notes
  whole : Each Whole notes → Each Whole notes'

theorem mute_nil (notes : List Note) : Mute notes (notes ++ []) := by
  rw [List.append_nil]
  exact ⟨fun _ _ => rfl, fun _ _ => rfl, fun h => h⟩

theorem mute_end (notes : List Note) (s : Stream) (i : Handle) {r : Byte} (hr : s.outbound = true ∨ r ≠ dataOk) :
    Mute notes (notes ++ [endNote s i r]) := by
  unfold endNote
  split
  · refine ⟨fun k _ => ?_, fun k _ => ?_, fun h => each_snoc.mpr ⟨h, trivial⟩⟩
    · rw [announced_snoc]
      rfl
    · rw [pieces_snoc]
      rfl
  · rename_i hout
    refine ⟨fun k _ => ?_, fun k _ => ?_, fun h => each_snoc.mpr ⟨h, fun hok => ?_⟩⟩
    · rw [announced_snoc]
      rfl
    · rw [pieces_snoc]
      rfl
    · exact absurd hok (hr.resolve_left hout)

theorem HandedOver.mute {notes notes' : List Note} {i : Handle} {s s' : Stream} {n : Nat} (h : HandedOver notes i s n)
    (hi : i ∈ Data.half false) (hm : Mute notes notes') (htotal : s'.total = s.total) (hnext : s'.nextSeq = s.nextSeq) :
    HandedOver notes' i s' n := by
  refine ⟨?_, ?_, ?_, ?_⟩
  · rw [hm.announced i hi, htotal]
    exact h.announced
  · rw [htotal]
    exact h.fits
  · rw [hm.pieces i hi, htotal]
    exact h.tiles
  · rw [hnext, htotal]
    exact h.more

/-- A stream that comes in with as much of the same total handed over. -/
def Holds (s s' : Stream) : Prop := s'.comesIn → s.comesIn ∧ s'.total = s.total ∧ s'.nextSeq = s.nextSeq

theorem holds_zero (s : Stream) : Holds s .zero := fun h => absurd h not_comesIn_zero

section covers

variable {g : Given} {d d' : Data} {k : Option (Handle × Stream)} {i : Handle} {s : Stream}
  {msgs : List (Addr × List Byte)} {ns : List Note}

theorem slot_holds (hb : Becomes d i s msgs ns d') (hs : Holds (d.s i) s) (j : Handle) : Holds (d.s j) (d'.s j) := by
  by_cases hji : j = i
  · subst hji
    rw [hb.self]
    exact hs
  · rw [hb.ne hji]
    exact fun h => ⟨h, rfl, rfl⟩

theorem Covers.quiet (h : Covers g ⟨d, k⟩) (hsorted : d'.Sorted) (hslot : ∀ j, Holds (d.s j) (d'.s j))
    (hmute : Mute d.notes d'.notes) (hheld : ∀ i s, k = some (i, s) → d'.s i = s) : Covers g ⟨d', k⟩ := by
  refine ⟨hsorted, fun j hj hin => ?_, fun j s hk => ?_, hmute.whole h.notes⟩
  · obtain ⟨hin', htotal, hnext⟩ := hslot j hin
    rw [hnext]
    exact (h.slots j hj hin').mute ((h.sorted j).inbound hin').2 hmute htotal hnext
  · obtain ⟨-, hst, hhalf, hover⟩ := h.held j s hk
    exact ⟨hheld j s hk, hst, hhalf, hover.mute hhalf hmute rfl rfl⟩

theorem Covers.becomes (h : Covers g ⟨d, none⟩) (hb : Becomes d i s msgs ns d') (hsorted : d'.Sorted)
    (hs : Holds (d.s i) s) (hmute : Mute d.notes (d.notes ++ ns)) : Covers g ⟨d', none⟩ :=
  h.quiet hsorted (slot_holds hb hs) (hb.notes ▸ hmute) fun _ _ hk => by cases hk

theorem CallMove.mute {calm : Prop} {held : Option Handle} {now : Time} (hm : CallMove calm held now d d') :
    Mute d.notes d'.notes := by
  cases hm with
  | accept _ hb =>
    rw [hb.notes]
    exact mute_nil _
  | reject _ hb =>
    rw [hb.notes]
    exact mute_nil _
  | cancel _ _ hb =>
    rw [hb.notes]
    exact mute_end _ _ _ (Or.inr (by decide))
  | fail => exact ⟨fun _ _ => rfl, fun _ _ => rfl, fun h => h⟩
  | send _ _ _ hnotes =>
    rw [hnotes]
    refine ⟨fun k _ => ?_, fun k _ => ?_, fun h => each_snoc.mpr ⟨h, trivial⟩⟩
    · rw [announced_snoc]
      rfl
    · rw [pieces_snoc]
      rfl

theorem CallMove.holds {calm : Prop} {held : Option Handle} {now : Time} (hm : CallMove calm held now d d')
    (j : Handle) : Holds (d.s j) (d'.s j) := by
  cases hm with
  | accept hs hb => exact slot_holds hb (fun _ => ⟨Or.inl hs, rfl, rfl⟩) j
  | reject _ hb => exact slot_holds hb (holds_zero _) j
  | cancel _ _ hb => exact slot_holds hb (holds_zero _) j
  | fail => exact fun h => ⟨h, rfl, rfl⟩
  | @send _ i s _ hs hout =>
    rw [hout.1]
    by_cases hji : j = i
    · subst hji
      rw [Function.update_self]
      intro hin
      rw [Stream.comesIn, hs.1] at hin
      rcases hin with hin | hin <;> cases hin
    · rw [Function.update_of_ne hji]
      exact fun h => ⟨h, rfl, rfl⟩

/-- A calm application leaves the stream whose chunk it holds alone. -/
theorem CallMove.calm {now : Time} {held : Option Handle} {calm : Prop} (hcalm : calm)
    (hm : CallMove calm held now d d') (hk : held = some i) (hs : (d.s i).state = .receiving)
    (hi : i ∈ Data.half false) : d'.s i = d.s i := by
  cases hm with
  | @accept _ j hj hb =>
    refine hb.ne ?_
    rintro rfl
    rw [hs] at hj
    cases hj
  | @reject _ j hj hb =>
    refine hb.ne ?_
    rintro rfl
    rw [hs] at hj
    cases hj
  | @cancel _ j _ hne hb =>
    refine hb.ne ?_
    rintro rfl
    exact hne hcalm hk
  | fail => rfl
  | @send _ j s hfree _ hout =>
    rw [hout.1]
    refine Function.update_of_ne ?_ _ _
    rintro rfl
    exact half_disjoint hi (slotFree_half hfree)

theorem CallMove.covers (hcalm : g.calm) (hm : CallMove g.calm (k.map Prod.fst) g.now d d') (h : Covers g ⟨d, k⟩) :
    Covers g ⟨d', k⟩ := by
  refine h.quiet (hm.sorted h.sorted) hm.holds hm.mute fun i s hk => ?_
  obtain ⟨hs, hst, hhalf, -⟩ := h.held i s hk
  rw [hm.calm hcalm (by rw [hk]; rfl) (by rw [hs]; exact hst) hhalf]
  exact hs

/-- An offer announces its total, of which nothing has been handed over. -/
theorem Covers.opens (h : Covers g ⟨d, none⟩) {id : UInt8} {peer : Addr} {kind : UInt8} {name : List Byte}
    (hb : Becomes d i s [] [.offered i id peer kind s.total name] d') (hsorted : d'.Sorted) (hnext : s.nextSeq = 0)
    (hpos : s.total ≠ 0) (hfits : s.total.toNat ≤ contentMax) : Covers g ⟨d', none⟩ := by
  refine ⟨hsorted, fun j _ hin => ?_, (fun _ _ hk => by cases hk), ?_⟩
  · by_cases hji : j = i
    · subst hji
      rw [hb.self, hb.notes]
      refine ⟨?_, hfits, ?_, ?_⟩
      · rw [announced_snoc]
        exact if_pos rfl
      · rw [pieces_snoc, hnext]
        have hnil : piecesStep j (pieces j d.notes) (.offered j id peer kind s.total name) = [] := if_pos rfl
        rw [hnil]
        exact (Nat.min_eq_right (Nat.zero_le _)).symm
      · have h0 : s.total.toNat ≠ 0 := fun h0 => hpos (UInt32.toNat_inj.mp h0)
        rw [hnext, UInt16.lt_iff_toNat_lt, chunksFor_toNat hfits]
        have hz : (0 : UInt16).toNat = 0 := rfl
        omega
    · have hne : i ≠ j := Ne.symm hji
      rw [hb.ne hji] at hin ⊢
      have hj := h.slots j (fun hk => by cases hk) hin
      rw [hb.notes]
      refine ⟨?_, hj.fits, ?_, hj.more⟩
      · rw [announced_snoc]
        exact (if_neg hne).trans hj.announced
      · rw [pieces_snoc]
        have hsame : piecesStep j (pieces j d.notes) (.offered i id peer kind s.total name) = pieces j d.notes :=
          if_neg hne
        rw [hsame]
        exact hj.tiles
  · rw [hb.notes]
    exact each_snoc.mpr ⟨h.notes, trivial⟩

/-- A full chunk continues the tiling. -/
theorem HandedOver.chunk {notes : List Note} {n : UInt16} {data : List Byte} (h : HandedOver notes i s n.toNat)
    (hn : n = s.nextSeq) (hfull : data.length = min chunkBytes (s.total.toNat - chunkBytes * n.toNat)) :
    HandedOver (notes ++ [.chunk i (offsetOf n) data]) i s (n.toNat + 1) := by
  have hmore := h.more
  rw [← hn, UInt16.lt_iff_toNat_lt, chunksFor_toNat h.fits] at hmore
  have h60 : chunkBytes = 60 := rfl
  refine ⟨?_, h.fits, ?_, h.more⟩
  · rw [announced_snoc]
    exact h.announced
  · have hnext : piecesStep i (pieces i notes) (.chunk i (offsetOf n) data) =
        pieces i notes ++ [((offsetOf n).toNat, data)] := if_pos rfl
    have htiles := h.tiles
    rw [h60, Nat.min_eq_right (by omega)] at htiles
    rw [pieces_snoc, hnext, offsetOf_toNat]
    have hend : min s.total.toNat (chunkBytes * (n.toNat + 1)) = 60 * n.toNat + data.length := by
      rw [hfull, h60]
      omega
    rw [hend]
    exact tiles_snoc htiles data

theorem Covers.hand (h : Covers g ⟨d, none⟩) {data : List Byte} {running : UInt32}
    (hs : (d.s i).state = .receiving)
    (hfull : data.length = min chunkBytes ((d.s i).total.toNat - chunkBytes * (d.s i).nextSeq.toNat))
    (hb : Becomes d i { d.s i with running := running } [] [.chunk i (offsetOf (d.s i).nextSeq) data] d')
    (hsorted : d'.Sorted) : Covers g ⟨d', some (i, d'.s i)⟩ := by
  have hover := (h.slots i (fun hk => by cases hk) (Or.inr hs)).chunk rfl hfull
  refine ⟨hsorted, fun j hj hin => ?_, fun j s hk => ?_, ?_⟩
  · have hne : j ≠ i := fun hji => hj (congrArg some hji.symm)
    rw [hb.ne hne] at hin ⊢
    have hj := h.slots j (fun hk => by cases hk) hin
    have hsame : piecesStep j (pieces j d.notes) (.chunk i (offsetOf (d.s i).nextSeq) data) = pieces j d.notes :=
      if_neg hne.symm
    rw [hb.notes]
    refine ⟨?_, hj.fits, ?_, hj.more⟩
    · rw [announced_snoc]
      exact hj.announced
    · rw [pieces_snoc, hsame]
      exact hj.tiles
  · cases hk
    rw [hb.self, hb.notes]
    exact ⟨rfl, hs, ((h.sorted i).inbound (Or.inr hs)).2, hover.announced, hover.fits, hover.tiles, hover.more⟩
  · rw [hb.notes]
    exact each_snoc.mpr ⟨h.notes, trivial⟩

theorem Covers.count (h : Covers g ⟨d, some (i, s)⟩) (hmore : ¬ s.nextSeq + 1 ≥ chunksFor s.total) {acked : UInt16}
    (hb : Becomes d i { s with nextSeq := s.nextSeq + 1, acked := acked } [] [] d') (hsorted : d'.Sorted) :
    Covers g ⟨d', none⟩ := by
  obtain ⟨-, -, -, hover⟩ := h.held i s rfl
  have hnotes : d'.notes = d.notes := by rw [hb.notes, List.append_nil]
  have hlt := hover.more
  rw [UInt16.lt_iff_toNat_lt] at hlt
  have hnext : (s.nextSeq + 1).toNat = s.nextSeq.toNat + 1 := by
    have hbound := (chunksFor s.total).toNat_lt
    have h1 : (1 : UInt16).toNat = 1 := rfl
    rw [UInt16.toNat_add, h1]
    omega
  refine ⟨hsorted, fun j _ hin => ?_, (fun _ _ hk => by cases hk), ?_⟩
  · by_cases hji : j = i
    · subst hji
      rw [hb.self, hnotes]
      refine ⟨hover.announced, hover.fits, ?_, UInt16.not_le.mp hmore⟩
      show Tiles 0 _ (min s.total.toNat (chunkBytes * (s.nextSeq + 1).toNat))
      rw [hnext]
      exact hover.tiles
    · rw [hb.ne hji] at hin ⊢
      rw [hnotes]
      exact h.slots j (fun hk => hji (Option.some.inj hk).symm) hin
  · rw [hnotes]
    exact h.notes

/-- The last chunk ends the tiling at the total. -/
theorem HandedOver.whole {notes : List Note} (h : HandedOver notes i s (s.nextSeq.toNat + 1))
    (hlast : s.nextSeq + 1 ≥ chunksFor s.total) (hout : s.outbound = false) (v : Byte) :
    Whole notes (endNote s i v) := by
  rw [endNote, hout]
  refine fun _ => ⟨s.total, h.announced, ?_⟩
  have hmore := h.more
  rw [UInt16.lt_iff_toNat_lt] at hmore
  rw [ge_iff_le, UInt16.le_iff_toNat_le] at hlast
  have hnext : (s.nextSeq + 1).toNat ≤ s.nextSeq.toNat + 1 := by
    rw [UInt16.toNat_add]
    exact Nat.mod_le _ _
  rw [chunksFor_toNat h.fits] at hlast
  have h60 : chunkBytes = 60 := rfl
  have hend : min s.total.toNat (chunkBytes * (s.nextSeq.toNat + 1)) = s.total.toNat := by
    rw [h60]
    omega
  rw [← hend]
  exact h.tiles

theorem Covers.verdict (h : Covers g ⟨d, some (i, s)⟩) {v : Byte} (hlast : (d.s i).nextSeq + 1 ≥ chunksFor (d.s i).total)
    (hb : Becomes d i .zero msgs [endNote (d.s i) i v] d') (hsorted : d'.Sorted) : Covers g ⟨d', none⟩ := by
  obtain ⟨hs, hst, -, hover⟩ := h.held i s rfl
  rw [hs] at hlast hb
  have hout : s.outbound = false := by
    rw [← hs] at hst ⊢
    exact ((h.sorted i).inbound (Or.inr hst)).1
  refine ⟨hsorted, fun j _ hin => ?_, (fun _ _ hk => by cases hk), ?_⟩
  · have hne : j ≠ i := by
      rintro rfl
      rw [hb.self] at hin
      exact not_comesIn_zero hin
    rw [hb.ne hne] at hin ⊢
    have hj := h.slots j (fun hk => hne (Option.some.inj hk).symm) hin
    rw [hb.notes, endNote, hout]
    refine ⟨?_, hj.fits, ?_, hj.more⟩
    · rw [announced_snoc]
      exact hj.announced
    · rw [pieces_snoc]
      exact hj.tiles
  · rw [hb.notes]
    exact each_snoc.mpr ⟨h.notes, hover.whole hlast hout v⟩

/-- A message that ends a stream does not end one that comes in with "sound". -/
theorem told_reason (hsorted : d.Sorted) {src : Addr} {p : List Byte} {start : Data} (ho : Orderly start src p)
    (hop : byteAt p 0 = opReject ∨ byteAt p 0 = opDone ∨ byteAt p 0 = opAbort)
    (haddr : start.addressee src (byteAt p 1) (byteAt p 0) = some i) (hsame : Stamped (start.s i) (d.s i)) :
    (d.s i).outbound = true ∨ resultOf (p.drop 2) (defaultResult (byteAt p 0)) ≠ dataOk := by
  refine or_iff_not_imp_left.mpr fun hout => ?_
  rw [Bool.not_eq_true] at hout
  have hused : (d.s i).state ≠ .free := by
    obtain ⟨_, _, _, heq⟩ := hsame
    rw [heq]
    exact (start.addressee_some haddr).1
  have hnot : ¬ start.slotFind src (byteAt p 1) true = some i := by
    intro hfind
    have hin : i ∈ Data.half false := by
      cases hst : (d.s i).state with
      | free => exact absurd hst hused
      | offering => exact absurd ((hsorted i).outbound (Or.inl hst)).1 (by rw [hout]; decide)
      | sending => exact absurd ((hsorted i).outbound (Or.inr (Or.inl hst))).1 (by rw [hout]; decide)
      | draining => exact absurd ((hsorted i).outbound (Or.inr (Or.inr hst))).1 (by rw [hout]; decide)
      | offered => exact ((hsorted i).inbound (Or.inl hst)).2
      | receiving => exact ((hsorted i).inbound (Or.inr hst)).2
    exact half_disjoint hin (slotFind_half hfind)
  have hend (hop : byteAt p 0 = opReject ∨ byteAt p 0 = opAbort)
      (hor : (start.slotFind src (byteAt p 1) false).or (start.slotFind src (byteAt p 1) true) = some i) :
      resultOf (p.drop 2) (defaultResult (byteAt p 0)) ≠ dataOk := by
    rcases Option.or_eq_some_iff.mp hor with hfind | ⟨-, hfind⟩
    · exact ho.reason hop i hfind
    · exact absurd hfind hnot
  rcases hop with hop | hop | hop
  · rw [hop] at haddr
    exact hend (Or.inl hop) haddr
  · rw [hop] at haddr
    exact absurd haddr hnot
  · rw [hop] at haddr
    exact hend (Or.inr hop) haddr

end covers

/-! ## What every move keeps -/

section moves

variable {g : Given}

theorem holds_same {s s' : Stream} (hst : s'.state = s.state) (htotal : s'.total = s.total)
    (hnext : s'.nextSeq = s.nextSeq) : Holds s s' := by
  intro hin
  rw [Stream.comesIn, hst] at hin
  exact ⟨hin, htotal, hnext⟩

theorem holds_goesOut {s s' : Stream} (hst : s'.state = .offering ∨ s'.state = .sending ∨ s'.state = .draining) :
    Holds s s' := by
  rintro (hin | hin)
  · rcases hst with hst | hst | hst <;> rw [hst] at hin <;> cases hin
  · rcases hst with hst | hst | hst <;> rw [hst] at hin <;> cases hin

theorem Move.covers {m m' : Mid} (hm : Move g m m') (hcalm : g.calm)
    (ho : ∀ p, g.payload = some p → Orderly g.start g.src p) (h : Covers g m) : Covers g m' := by
  have hsorted := hm.sorted h.sorted
  cases hm with
  | call hm => exact hm.covers hcalm h
  | stamp _ hb => exact h.becomes hb hsorted (holds_same rfl rfl rfl) (mute_nil _)
  | decline _ _ hs _ hb =>
    refine h.becomes hb hsorted ?_ (mute_nil _)
    rcases hs with rfl | ⟨-, rfl⟩
    · exact holds_same rfl rfl rfl
    · exact holds_zero _
  | opened hp hop _ _ hs hfits hb =>
    have hle : _ ≤ contentMax ∨ _ := (ho _ hp).fits hop
    refine h.opens hb hsorted (by rw [hs]; rfl) hfits.1 ?_
    rcases hle with hle | hover
    · rw [hs]
      exact hle
    · rw [hs] at hfits
      exact absurd hfits.2 (UInt32.not_le.mpr hover)
  | ack _ hb => exact h.becomes hb hsorted (holds_same rfl rfl rfl) (mute_nil _)
  | hand hp hhand hsame hs _ hb =>
    refine h.hand hs ?_ hb hsorted
    have hfull := (ho _ hp).full _ hhand
    obtain ⟨_, _, _, heq⟩ := hsame
    rw [heq]
    exact hfull
  | count _ hmore hb => exact h.count hmore hb hsorted
  | verdict _ hlast hb => exact h.verdict hlast hb hsorted
  | quit _ hr _ hb => exact h.becomes hb hsorted (holds_zero _) (mute_end _ _ _ (Or.inr hr))
  | told hp hop haddr hsame hr hb =>
    refine h.becomes hb hsorted (holds_zero _) (mute_end _ _ _ ?_)
    rw [hr]
    exact told_reason h.sorted (ho _ hp) hop haddr hsame
  | steer _ hb => exact h.becomes hb hsorted (holds_goesOut (Or.inr (Or.inl rfl))) (mute_nil _)
  | push hs hb => exact h.becomes hb hsorted (holds_goesOut (Or.inr (Or.inl hs))) (mute_nil _)
  | drain _ hb => exact h.becomes hb hsorted (holds_goesOut (Or.inr (Or.inr rfl))) (mute_nil _)
  | offer _ hb => exact h.becomes hb hsorted (holds_same rfl rfl rfl) (mute_nil _)

/-! ## Every run -/

/-- An application that lets its chunk hooks end is calm in every one. -/
theorem calls_of_calm {held : Option Handle} {script : Script}
    (hs : ∀ i, held = some i → script.all (fun c => !c.isCancel i) = true) : Calls g held (script.run g.now) :=
  script_moves fun _ => hs

theorem calls_free (script : Script) : Calls g none (script.run g.now) :=
  calls_of_calm fun _ hk => by cases hk

end moves

/-- A turn is a chain of moves. -/
theorem step_moves {d : Data} (hsorted : d.Sorted) {e : Input} (he : d.Expects e) :
    ∃ g : Given, g.calm ∧ (∀ p, g.payload = some p → Orderly g.start g.src p) ∧ Moves g d (d.step e) := by
  cases e with
  | app script now =>
    exact ⟨⟨d, 0, none, True, now⟩, trivial, (fun _ hp => by cases hp), (calls_free script).moves d⟩
  | tick react now =>
    exact ⟨⟨d, 0, none, True, now⟩, trivial, (fun _ hp => by cases hp), dataTick_moves fun h => calls_free (react h)⟩
  | rx f react now =>
    refine ⟨⟨d, f.src, some f.payload, True, now⟩, trivial, fun p hp => ?_, ?_⟩
    · cases hp
      exact he.1
    · exact dataRx_moves (g := ⟨d, f.src, some f.payload, True, now⟩) hsorted rfl rfl (fun k => calls_free (react k))
        fun i hhand => calls_of_calm fun j hj => Option.some.inj hj ▸ he.2 i hhand

/-- Between turns no chunk is held. -/
structure Data.Covered (d : Data) : Prop where
  sorted : d.Sorted
  slots : ∀ i, (d.s i).comesIn → HandedOver d.notes i (d.s i) (d.s i).nextSeq.toNat
  notes : Each Whole d.notes

theorem Data.Covered.next {d : Data} (h : d.Covered) {e : Input} (he : d.Expects e) : (d.step e).Covered := by
  obtain ⟨g, hcalm, ho, hmoves⟩ := step_moves h.sorted he
  have hstart : Covers g ⟨d, none⟩ := ⟨h.sorted, fun i _ => h.slots i, (fun _ _ hk => by cases hk), h.notes⟩
  have hend := moves_keep hmoves (fun _ _ hm => hm.covers hcalm ho) hstart
  exact ⟨hend.sorted, fun i => hend.slots i (fun hk => by cases hk), hend.notes⟩

theorem covered_of_idle {d : Data} (h : Transfer.Idle d) : d.Covered := by
  obtain ⟨hs, -, -, -, hnotes⟩ := h
  have hzero (i : Handle) : d.s i = .zero := by
    rw [hs]
    rfl
  refine ⟨fun i => ?_, fun i hin => ?_, ?_⟩
  · rw [hzero]
    exact sided_zero i
  · rw [hzero] at hin
    exact absurd hin not_comesIn_zero
  · rw [hnotes]
    exact each_nil _

/-- Whatever messages arrive, as long as each is one that a conforming peer could send:
    a stream reported sound has been handed over from its start to its end. -/
theorem sound_is_whole {d : Data} (h : Reach Transfer.Idle Data.Expects Data.step d) : Each Whole d.notes :=
  (h.inv (fun _ => covered_of_idle) fun _ _ hd he => hd.next he).notes

/-! ## Two streams of 61 bytes -/

/-- An offer of 61 bytes, accepted, and its two chunks. -/
def offered61 (crc : UInt32) (first second : List Byte) : List Input :=
  let hear (payload : List Byte) (now : Time) : Input := .rx (dataFrame 2 1 payload) (fun _ => .done) now
  [hear (opOffer :: 1 :: offerExtra { Stream.zero with total := 61, crc := crc }) 1000,
    .app (.call (.accept 4) .done .done) 1001,
    hear (opChunk :: 1 :: (put16 0 ++ first)) 1002,
    hear (opChunk :: 1 :: (put16 1 ++ second)) 1003]

def fullThenRest : List Input := offered61 (contentCrc (List.replicate 61 7)) (List.replicate 60 7) [7]

theorem sound_is_whole_of_61 :
    Tiles 0 (pieces 4 ((fullThenRest.foldl Data.step dataInit).notes.dropLast)) 61 := by
  have hinit : Transfer.Idle dataInit := ⟨rfl, rfl, rfl, rfl, rfl⟩
  have hsplit : (fullThenRest.foldl Data.step dataInit).notes =
      (fullThenRest.foldl Data.step dataInit).notes.dropLast ++ .received 4 dataOk :: [] := by decide +kernel
  obtain ⟨total, htotal, htiles⟩ :=
    sound_is_whole (Reach.run (.init hinit) fullThenRest (by decide +kernel)) _ _ _ hsplit rfl
  have h61 : announced 4 ((fullThenRest.foldl Data.step dataInit).notes.dropLast) = some 61 := by decide +kernel
  rw [h61] at htotal
  cases htotal
  exact htiles

/-- Two chunks of one byte each. -/
def oneByteEach : List Input := offered61 (contentCrc [7, 7]) [7] [7]

/-- Reported sound, with bytes 1 to 59 never handed over. -/
theorem short_chunk_leaves_a_gap :
    ¬ ∀ d, Reach Transfer.Idle (fun _ _ => True) Data.step d → Each Whole d.notes := by
  intro h
  have hinit : Transfer.Idle dataInit := ⟨rfl, rfl, rfl, rfl, rfl⟩
  have hnotes : (oneByteEach.foldl Data.step dataInit).notes =
      [.offered 4 1 2 0 61 [], .chunk 4 0 [7], .chunk 4 60 [7]] ++ .received 4 dataOk :: [] := by decide +kernel
  obtain ⟨total, htotal, htiles⟩ :=
    h _ (Reach.run_free (fun _ _ => trivial) (.init hinit) oneByteEach) _ _ _ hnotes rfl
  exact absurd htiles.2.1 (by decide)

end DeskHop.Bulk
