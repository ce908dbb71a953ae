/-
  DeskHop.Chain.Display — the coordinator's frame buffer and its text
  (`coordinator/src/display.c`, `coordinator/src/font5x7.h`).

  The screen is eight pages of 128 columns of eight pixels. A character takes six columns, so 21
  of them fit on a page; the 22nd is begun and cut off.

  Over it, the screen as a reader has it: lines of characters, each plain or inverted.

  Proved: text is drawn where it is put and nowhere else, whatever was there (`dspText_place`), and
  what is drawn can be told from the pixels (`legible`).
-/

import DeskHop.Core.Bytes
import Mathlib.Logic.Function.Basic

namespace DeskHop.Chain

/-! ## The font -/

/-- From the space to the underscore. -/
def font5x7 : List (List Byte) :=
  [[0x00, 0x00, 0x00, 0x00, 0x00], [0x00, 0x00, 0x5F, 0x00, 0x00], [0x00, 0x07, 0x00, 0x07, 0x00],
  [0x14, 0x7F, 0x14, 0x7F, 0x14], [0x24, 0x2A, 0x7F, 0x2A, 0x12], [0x23, 0x13, 0x08, 0x64, 0x62],
  [0x36, 0x49, 0x55, 0x22, 0x50], [0x00, 0x05, 0x03, 0x00, 0x00], [0x00, 0x1C, 0x22, 0x41, 0x00],
  [0x00, 0x41, 0x22, 0x1C, 0x00], [0x14, 0x08, 0x3E, 0x08, 0x14], [0x08, 0x08, 0x3E, 0x08, 0x08],
  [0x00, 0x50, 0x30, 0x00, 0x00], [0x08, 0x08, 0x08, 0x08, 0x08], [0x00, 0x60, 0x60, 0x00, 0x00],
  [0x20, 0x10, 0x08, 0x04, 0x02], [0x3E, 0x51, 0x49, 0x45, 0x3E], [0x00, 0x42, 0x7F, 0x40, 0x00],
  [0x42, 0x61, 0x51, 0x49, 0x46], [0x21, 0x41, 0x45, 0x4B, 0x31], [0x18, 0x14, 0x12, 0x7F, 0x10],
  [0x27, 0x45, 0x45, 0x45, 0x39], [0x3C, 0x4A, 0x49, 0x49, 0x30], [0x01, 0x71, 0x09, 0x05, 0x03],
  [0x36, 0x49, 0x49, 0x49, 0x36], [0x06, 0x49, 0x49, 0x29, 0x1E], [0x00, 0x36, 0x36, 0x00, 0x00],
  [0x00, 0x56, 0x36, 0x00, 0x00], [0x08, 0x14, 0x22, 0x41, 0x00], [0x14, 0x14, 0x14, 0x14, 0x14],
  [0x00, 0x41, 0x22, 0x14, 0x08], [0x02, 0x01, 0x51, 0x09, 0x06], [0x32, 0x49, 0x79, 0x41, 0x3E],
  [0x7E, 0x11, 0x11, 0x11, 0x7E], [0x7F, 0x49, 0x49, 0x49, 0x36], [0x3E, 0x41, 0x41, 0x41, 0x22],
  [0x7F, 0x41, 0x41, 0x22, 0x1C], [0x7F, 0x49, 0x49, 0x49, 0x41], [0x7F, 0x09, 0x09, 0x09, 0x01],
  [0x3E, 0x41, 0x49, 0x49, 0x7A], [0x7F, 0x08, 0x08, 0x08, 0x7F], [0x00, 0x41, 0x7F, 0x41, 0x00],
  [0x20, 0x40, 0x41, 0x3F, 0x01], [0x7F, 0x08, 0x14, 0x22, 0x41], [0x7F, 0x40, 0x40, 0x40, 0x40],
  [0x7F, 0x02, 0x0C, 0x02, 0x7F], [0x7F, 0x04, 0x08, 0x10, 0x7F], [0x3E, 0x41, 0x41, 0x41, 0x3E],
  [0x7F, 0x09, 0x09, 0x09, 0x06], [0x3E, 0x41, 0x51, 0x21, 0x5E], [0x7F, 0x09, 0x19, 0x29, 0x46],
  [0x46, 0x49, 0x49, 0x49, 0x31], [0x01, 0x01, 0x7F, 0x01, 0x01], [0x3F, 0x40, 0x40, 0x40, 0x3F],
  [0x1F, 0x20, 0x40, 0x20, 0x1F], [0x3F, 0x40, 0x38, 0x40, 0x3F], [0x63, 0x14, 0x08, 0x14, 0x63],
  [0x07, 0x08, 0x70, 0x08, 0x07], [0x61, 0x51, 0x49, 0x45, 0x43], [0x00, 0x7F, 0x41, 0x41, 0x00],
  [0x02, 0x04, 0x08, 0x10, 0x20], [0x00, 0x41, 0x41, 0x7F, 0x00], [0x04, 0x02, 0x01, 0x02, 0x04],
  [0x40, 0x40, 0x40, 0x40, 0x40]]

/-- The character drawn for one: there is no lowercase. -/
def drawnAs (c : Byte) : Byte :=
  let c := if 97 ≤ c ∧ c ≤ 122 then c - 97 + 65 else c
  if c < 0x20 ∨ c > 0x5F then 63 else c

def glyph (c : Byte) : List Byte := font5x7.getD (drawnAs c - 0x20).toNat []

/-! ## The frame buffer -/

structure Dsp where
  px : Nat → Byte
  dirty : Bool

def dspClear (_d : Dsp) : Dsp := ⟨fun _ => 0, true⟩

def tone (invert : Bool) (bits : Byte) : Byte := if invert then ~~~bits else bits

def setCol (d : Dsp) (x page : Int) (bits : Byte) (invert : Bool) : Dsp :=
  if x < 0 ∨ x ≥ 128 ∨ page < 0 ∨ page ≥ 8 then d
  else { d with px := Function.update d.px (page * 128 + x).toNat (tone invert bits) }

/-- A glyph, and the gap after it. -/
def drawChar (d : Dsp) (x row : Int) (c : Byte) (invert : Bool) : Dsp :=
  let g := glyph c
  let d := (List.range 5).foldl (fun d (i : Nat) => setCol d (x + i) row (g.getD i 0) invert) d
  setCol d (x + 5) row 0 invert

def drawText (row : Int) (invert : Bool) : Dsp → Int → List Byte → Dsp
  | d, _, [] => d
  | d, x, c :: s => if x < 128 then drawText row invert (drawChar d x row c invert) (x + 6) s else d

/-- `s`: up to its terminator. -/
def dspText (d : Dsp) (col row : Int) (s : List Byte) (invert : Bool) : Dsp :=
  { drawText row invert d (col * 6) s with dirty := true }

/-- A line of pixels across the screen. -/
def dspHrule (d : Dsp) (y : Int) : Dsp :=
  if y < 0 ∨ y ≥ 64 then d
  else
    let page := y / 8
    let bit : Byte := 1 <<< UInt8.ofNat (y % 8).toNat
    let px := (List.range 128).foldl
      (fun px (x : Nat) => Function.update px (page * 128 + x).toNat (px (page * 128 + x).toNat ||| bit)) d.px
    { px := px, dirty := true }

/-! ## Lines of text -/

/-- A character on the screen, and whether it is inverted. -/
abbrev Mark := Byte × Bool

def blank : Mark := (32, false)

/-- The six columns of a character. -/
def Mark.columns (m : Mark) : List Byte := (glyph m.1 ++ [0]).map (tone m.2)

/-- The columns at the `k`th place of a page. -/
def Dsp.place (d : Dsp) (row k : Nat) : List Byte := (List.range 6).map fun i => d.px (row * 128 + (6 * k + i))

/-- The page shows the line, and blanks after it. -/
def Dsp.Shows (d : Dsp) (row : Nat) (line : List Mark) : Prop := ∀ k < 21, d.place row k = (line.getD k blank).columns

instance (d : Dsp) (row : Nat) (line : List Mark) : Decidable (d.Shows row line) := by
  unfold Dsp.Shows
  infer_instance

/-- Text put on a line. -/
def overlay (line : List Mark) (col : Nat) (s : List Byte) (invert : Bool) : List Mark :=
  line.takeD col blank ++ s.map (fun c => (c, invert)) ++ line.drop (col + s.length)

/-! ## Glyphs -/

theorem drawnAs_range (c : Byte) : 32 ≤ (drawnAs c).toNat ∧ (drawnAs c).toNat ≤ 95 := by
  unfold drawnAs
  generalize (if 97 ≤ c ∧ c ≤ 122 then c - 97 + 65 else c) = c'
  dsimp only
  split
  · decide
  · rename_i h
    rw [not_or] at h
    exact ⟨UInt8.le_iff_toNat_le.mp (UInt8.not_lt.mp h.1), UInt8.le_iff_toNat_le.mp (UInt8.not_lt.mp h.2)⟩

theorem length_glyph (c : Byte) : (glyph c).length = 5 := by
  have hrows : ∀ g ∈ font5x7, g.length = 5 := by decide
  obtain ⟨h1, h2⟩ := drawnAs_range c
  have hin : (drawnAs c - 0x20).toNat < font5x7.length := by
    rw [UInt8.toNat_sub_of_le _ _ (UInt8.le_iff_toNat_le.mpr (show (0x20 : Byte).toNat ≤ _ from h1))]
    show (drawnAs c).toNat - 32 < 64
    omega
  rw [glyph, List.getD_eq_getElem?_getD, List.getElem?_eq_getElem hin]
  exact hrows _ (List.getElem_mem hin)

theorem columns_getD (m : Mark) {i : Nat} (hi : i < 5) : m.columns.getD i 0 = tone m.2 ((glyph m.1).getD i 0) := by
  have hlen := length_glyph m.1
  rw [Mark.columns, List.getD_eq_getElem?_getD, List.getD_eq_getElem?_getD, List.getElem?_map,
    List.getElem?_append_left (by omega), List.getElem?_eq_getElem (by omega)]
  rfl

theorem columns_gap (m : Mark) : m.columns.getD 5 0 = tone m.2 0 := by
  have hlen := length_glyph m.1
  rw [Mark.columns, List.getD_eq_getElem?_getD, List.getElem?_map, List.getElem?_append_right hlen.le, hlen]
  rfl

theorem length_columns (m : Mark) : m.columns.length = 6 := by
  rw [Mark.columns, List.length_map, List.length_append, length_glyph]
  rfl

/-! ## What a text changes -/

section pixels

variable (d : Dsp) {row : Nat} (hrow : row < 8) (invert : Bool) (r : Nat) {j : Nat} (hj : j < 128)

include hrow hj

theorem setCol_px (x : Nat) (bits : Byte) : (setCol d x row bits invert).px (r * 128 + j) =
    if r = row ∧ x = j then tone invert bits else d.px (r * 128 + j) := by
  unfold setCol
  by_cases hx : x < 128
  · have hin : ¬ ((x : Int) < 0 ∨ (x : Int) ≥ 128 ∨ (row : Int) < 0 ∨ (row : Int) ≥ 8) := by omega
    have hat : ((row : Int) * 128 + x).toNat = row * 128 + x := by omega
    rw [if_neg hin, hat]
    dsimp only
    by_cases hsame : r = row ∧ x = j
    · obtain ⟨rfl, rfl⟩ := hsame
      rw [if_pos ⟨rfl, rfl⟩, Function.update_self]
    · rw [if_neg hsame, Function.update_of_ne (by omega)]
  · rw [if_pos (by omega), if_neg (by omega)]

/-- Columns drawn one after another. -/
theorem setCols_px (x n : Nat) (f : Nat → Byte) :
    ((List.range n).foldl (fun d (i : Nat) => setCol d ((x : Int) + i) row (f i) invert) d).px (r * 128 + j) =
      if r = row ∧ x ≤ j ∧ j < x + n then tone invert (f (j - x)) else d.px (r * 128 + j) := by
  induction n with
  | zero => rw [if_neg (by omega)]; rfl
  | succ n ih =>
    rw [List.range_succ, List.foldl_append, List.foldl_cons, List.foldl_nil, ← Int.natCast_add,
      setCol_px _ hrow invert r hj, ih]
    by_cases hlast : r = row ∧ x + n = j
    · rw [if_pos hlast, if_pos (by omega), ← hlast.2, Nat.add_sub_cancel_left]
    · rw [if_neg hlast]
      by_cases hin : r = row ∧ x ≤ j ∧ j < x + n
      · rw [if_pos hin, if_pos (by omega)]
      · rw [if_neg hin, if_neg (by omega)]

theorem drawChar_px (x : Nat) (c : Byte) : (drawChar d x row c invert).px (r * 128 + j) =
    if r = row ∧ x ≤ j ∧ j < x + 6 then (Mark.columns (c, invert)).getD (j - x) 0 else d.px (r * 128 + j) := by
  have hgap : (x : Int) + 5 = ((x + 5 : Nat) : Int) := rfl
  unfold drawChar
  dsimp only
  rw [hgap, setCol_px _ hrow invert r hj, setCols_px d hrow invert r hj x 5 fun i => (glyph c).getD i 0]
  by_cases hlast : r = row ∧ x + 5 = j
  · rw [if_pos hlast, if_pos (by omega), ← hlast.2, Nat.add_sub_cancel_left, columns_gap]
  · rw [if_neg hlast]
    by_cases hin : r = row ∧ x ≤ j ∧ j < x + 5
    · rw [if_pos hin, if_pos (by omega), columns_getD _ (by omega)]
    · rw [if_neg hin, if_neg (by omega)]

/-- A text, from column `x` on. -/
theorem drawText_px (x : Nat) (s : List Byte) : (drawText row invert d x s).px (r * 128 + j) =
    if r = row ∧ x ≤ j ∧ j < x + 6 * s.length then (Mark.columns (s.getD ((j - x) / 6) 0, invert)).getD ((j - x) % 6) 0
    else d.px (r * 128 + j) := by
  induction s generalizing d x with
  | nil => rw [if_neg (by rw [List.length_nil]; omega)]; rfl
  | cons c s ih =>
    rw [List.length_cons]
    unfold drawText
    by_cases hx : (x : Int) < 128
    · rw [if_pos hx, show (x : Int) + 6 = ((x + 6 : Nat) : Int) from rfl, ih, drawChar_px d hrow invert r hj]
      by_cases hhere : r = row ∧ x ≤ j ∧ j < x + 6
      · rw [if_neg (by omega), if_pos hhere, if_pos (by omega), Nat.div_eq_of_lt (by omega), Nat.mod_eq_of_lt (by omega)]
        rfl
      · rw [if_neg hhere]
        by_cases hrest : r = row ∧ x + 6 ≤ j ∧ j < x + 6 + 6 * s.length
        · have hdiv : (j - x) / 6 = (j - (x + 6)) / 6 + 1 := by omega
          have hmod : (j - x) % 6 = (j - (x + 6)) % 6 := by omega
          rw [if_pos hrest, if_pos (by omega), hdiv, hmod, List.getD_cons_succ]
        · rw [if_neg hrest, if_neg (by omega)]
    · rw [if_neg hx, if_neg (by omega)]

end pixels

theorem length_place (d : Dsp) (row k : Nat) : (d.place row k).length = 6 := by
  rw [Dsp.place, List.length_map, List.length_range]

/-- A text changes the places it covers, of its own row. -/
theorem dspText_place (d : Dsp) {row : Nat} (hrow : row < 8) (invert : Bool) (r col : Nat) (s : List Byte)
    {k : Nat} (hk : k < 21) : (dspText d col row s invert).place r k =
      if r = row ∧ col ≤ k ∧ k < col + s.length then Mark.columns (s.getD (k - col) 0, invert) else d.place r k := by
  have hpx {i : Nat} (hi : i < 6) := drawText_px d hrow invert r (j := 6 * k + i) (by omega) (col * 6) s
  have hat (i : Nat) : (dspText d col row s invert).px (r * 128 + (6 * k + i)) =
      (drawText row invert d ((col * 6 : Nat) : Int) s).px (r * 128 + (6 * k + i)) := by
    rw [dspText, Int.natCast_mul]
    rfl
  by_cases hin : r = row ∧ col ≤ k ∧ k < col + s.length
  · rw [if_pos hin]
    refine List.ext_getElem ((length_place _ r k).trans (length_columns _).symm) fun i h1 h2 => ?_
    have hi : i < 6 := (length_place _ r k) ▸ h1
    have hdiv : (6 * k + i - col * 6) / 6 = k - col := by omega
    have hmod : (6 * k + i - col * 6) % 6 = i := by omega
    simp only [Dsp.place, List.getElem_map, List.getElem_range]
    rw [hat, hpx hi, if_pos (by omega), hdiv, hmod, List.getD_eq_getElem?_getD, List.getElem?_eq_getElem h2]
    rfl
  · rw [if_neg hin]
    refine List.map_congr_left fun i hi => ?_
    have hi : i < 6 := List.mem_range.mp hi
    rw [hat, hpx hi, if_neg (by omega)]

/-! ## What a line reads -/

theorem getD_takeD {α : Type} (l : List α) (a : α) {n k : Nat} (hk : k < n) : (l.takeD n a)[k]?.getD a = l[k]?.getD a := by
  induction n generalizing l k with
  | zero => omega
  | succ n ih =>
    cases k with
    | zero => cases l <;> rfl
    | succ k => exact (ih l.tail (by omega)).trans (by cases l <;> rfl)

theorem getD_put (line : List Mark) (col : Nat) (s : List Byte) (invert : Bool) (k : Nat) :
    (overlay line col s invert).getD k blank =
      if col ≤ k ∧ k < col + s.length then (s.getD (k - col) 0, invert) else line.getD k blank := by
  have hhead : (line.takeD col blank).length = col := List.takeD_length col line blank
  have hmid : (s.map fun c => (c, invert)).length = s.length := List.length_map _
  simp only [overlay, List.getD_eq_getElem?_getD]
  by_cases hbefore : k < col
  · rw [if_neg (by omega), List.append_assoc, List.getElem?_append_left (by omega), getD_takeD line blank hbefore]
  by_cases hin : k < col + s.length
  · rw [if_pos (by omega), List.append_assoc, List.getElem?_append_right (by omega), hhead,
      List.getElem?_append_left (by omega), List.getElem?_map, List.getElem?_eq_getElem (by omega)]
    rfl
  · rw [if_neg (by omega), List.getElem?_append_right (by rw [List.length_append]; omega), List.length_append, hhead, hmid,
      List.getElem?_drop]
    congr 2
    omega

section shows

variable {d : Dsp} {row r : Nat} {line : List Mark}

theorem shows_clear (d : Dsp) (row : Nat) : (dspClear d).Shows row [] := by
  intro k _
  exact (show List.replicate 6 (0 : Byte) = blank.columns by decide)

/-- Text put on a line is read there. -/
theorem Dsp.Shows.text (h : d.Shows row line) (hrow : row < 8) (col : Nat) (s : List Byte) (invert : Bool) :
    (dspText d col row s invert).Shows row (overlay line col s invert) := by
  intro k hk
  rw [dspText_place d hrow invert row col s hk, getD_put]
  by_cases hin : col ≤ k ∧ k < col + s.length
  · rw [if_pos ⟨rfl, hin⟩, if_pos hin]
  · rw [if_neg fun hall => hin hall.2, if_neg hin]
    exact h k hk

theorem Dsp.Shows.text_ne (h : d.Shows r line) (hrow : row < 8) (hr : r ≠ row) (col : Nat) (s : List Byte) (invert : Bool) :
    (dspText d col row s invert).Shows r line := by
  intro k hk
  rw [dspText_place d hrow invert r col s hk, if_neg fun hall => hr hall.1]
  exact h k hk

/-- A rule changes the page it is on. -/
theorem Dsp.Shows.hrule (h : d.Shows r line) (y : Nat) (hr : r ≠ y / 8) : (dspHrule d y).Shows r line := by
  intro k hk
  refine Eq.trans (List.map_congr_left fun i hi => ?_) (h k hk)
  have hi : i < 6 := List.mem_range.mp hi
  unfold dspHrule
  split
  · rfl
  · dsimp only
    refine List.foldlRecOn (motive := fun px : Nat → Byte => px (r * 128 + (6 * k + i)) = d.px (r * 128 + (6 * k + i)))
      _ _ rfl fun px hpx x hx => ?_
    have hx : x < 128 := List.mem_range.mp hx
    rw [Function.update_of_ne (by omega)]
    exact hpx

end shows

/-! ## What can be told from the pixels -/

/-- The font, each glyph plain and then inverted. -/
def looks : List (List Byte) :=
  (List.range 128).map fun k => (font5x7.getD (k / 2) [] ++ [0]).map (tone (k % 2 == 1))

theorem looks_nodup : looks.Nodup := by decide +kernel

/-- A character as the screen has it. -/
def Mark.seen (m : Mark) : Mark := (drawnAs m.1, m.2)

/-- Where its look stands. -/
def Mark.look (m : Mark) : Nat := 2 * ((drawnAs m.1).toNat - 32) + m.2.toNat

theorem looks_getElem? (m : Mark) : looks[m.look]? = some m.columns := by
  obtain ⟨h1, h2⟩ := drawnAs_range m.1
  obtain ⟨c, invert⟩ := m
  have hbit : invert.toNat ≤ 1 := Bool.toNat_le invert
  have hlt : Mark.look (c, invert) < 128 := by
    show 2 * ((drawnAs c).toNat - 32) + invert.toNat < 128
    dsimp only at h2
    omega
  have hdiv : Mark.look (c, invert) / 2 = (drawnAs c - 0x20).toNat := by
    rw [UInt8.toNat_sub_of_le _ _ (UInt8.le_iff_toNat_le.mpr (show (0x20 : Byte).toNat ≤ _ from h1)), Mark.look]
    show (2 * ((drawnAs c).toNat - 32) + invert.toNat) / 2 = (drawnAs c).toNat - 32
    omega
  have hmod : (Mark.look (c, invert) % 2 == 1) = invert := by
    rw [Mark.look, Nat.mul_add_mod]
    cases invert <;> rfl
  rw [looks, List.getElem?_map, List.getElem?_range hlt, Option.map_some, hdiv, hmod]
  rfl

/-- No two characters look alike, inverted or not. -/
theorem legible {m m' : Mark} (h : m.columns = m'.columns) : m.seen = m'.seen := by
  have hget := looks_getElem? m
  have hget' := looks_getElem? m'
  obtain ⟨hlt, h1⟩ := List.getElem?_eq_some_iff.mp hget
  obtain ⟨hlt', h2⟩ := List.getElem?_eq_some_iff.mp hget'
  have hlook : m.look = m'.look := (looks_nodup.getElem_inj_iff).mp (h1.trans (h.trans h2.symm))
  obtain ⟨hlow, -⟩ := drawnAs_range m.1
  obtain ⟨hlow', -⟩ := drawnAs_range m'.1
  obtain ⟨c, invert⟩ := m
  obtain ⟨c', invert'⟩ := m'
  simp only [Mark.look] at hlook hlow hlow'
  have hbit := Bool.toNat_le invert
  have hbit' := Bool.toNat_le invert'
  have hbits : invert.toNat = invert'.toNat := by omega
  have hsame : invert = invert' := by
    revert hbits
    cases invert <;> cases invert' <;> decide
  exact Prod.ext (UInt8.toNat_inj.mp (show (drawnAs c).toNat = (drawnAs c').toNat by omega)) hsame

/-- Two pages that look alike show the same line. -/
theorem Dsp.Shows.same {d d' : Dsp} {row : Nat} {line line' : List Mark} (h : d.Shows row line) (h' : d'.Shows row line')
    (hpx : ∀ j < 128, d.px (row * 128 + j) = d'.px (row * 128 + j)) {k : Nat} (hk : k < 21) :
    (line.getD k blank).seen = (line'.getD k blank).seen := by
  refine legible ((h k hk).symm.trans (Eq.trans (List.map_congr_left fun i hi => ?_) (h' k hk)))
  have hi : i < 6 := List.mem_range.mp hi
  exact hpx _ (by omega)

end DeskHop.Chain
