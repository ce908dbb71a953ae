/-
  DeskHop.Chain.Screen — the status screen of the coordinator (`dsp_render_status` of
  `coordinator/src/display.c`), and what can be read off it.

  `qsort` is the C library's: it sorts, and says nothing of boards at one position.

  Proved: whatever was on the screen, each row of text reads what the status says, character by
  character (`screen_reads`). So rows that look alike say the same (`same_row`), and a string to
  compare that looks the same on two screens is the same (`same_sas`).
-/

import DeskHop.Chain.Coordinator
import DeskHop.Chain.Display
import DeskHop.Client.Inbound

namespace DeskHop.Chain

open DeskHop.Election DeskHop.Routing DeskHop.Trust DeskHop.Client

/-! ## Texts -/

/-- Every text here is ASCII. -/
def text (s : String) : List Byte := s.toList.map fun c => UInt8.ofNat c.toNat

/-- What `snprintf` leaves in a line. -/
def printLine (s : List Byte) : List Byte := s.take 21

def uhrpStateName : UhrpState → List Byte
  | .init => text "init"
  | .learn => text "learn"
  | .listen => text "listen"
  | .speak => text "speak"
  | .standby => text "standby"
  | .active => text "active"

/-- The errors of the framer of the coordinator's port. -/
structure ErrorCounts where
  crc : UInt32
  auth : UInt32

/-- Clamped, so that the line fits. -/
def counted (n : UInt32) : List Byte := digits (min n.toNat 9999) ++ if n > 9999 then text "+" else []

def twoDigits (n : Nat) : List Byte := if n < 10 then text "0" ++ digits n else digits n

def levelText (st : DspStatus) : List Byte := printLine (text "L" ++ digits (levelByte st.level).toNat)

def boardRouting (st : DspStatus) : List Byte := printLine (text "ROUTING: BOARD/" ++ uhrpStateName st.state)

def sasText (sas : String) : List Byte := printLine (text "   " ++ text sas)

def linkText (st : DspStatus) : List Byte :=
  printLine (text "LINK " ++ digits (st.linkBaud.toNat / 1000000) ++ text "." ++ digits (st.linkBaud.toNat / 100000 % 10) ++
    text "M")

def errorText (errors : ErrorCounts) : List Byte :=
  printLine (text "CRC " ++ counted errors.crc ++ text " AUTH " ++ counted errors.auth)

def upText (st : DspStatus) : List Byte :=
  printLine (text "UP " ++ digits (st.uptimeS.toNat / 3600) ++ text "H" ++ twoDigits (st.uptimeS.toNat / 60 % 60) ++ text "M")

/-- A board's own characters; `machine` counts machines from the head of the chain. -/
def cellText (b : DspBoard) (machine : Nat) : List Byte :=
  (if b.isCoord then text "C" else digits (machine % 100)).take 4

/-- The coordinator is not a machine. -/
def counting (b : DspBoard) (machine : Nat) : Nat := if b.isCoord then machine else machine + 1

/-! ## The screen -/

/-- The boards in physical order, as far as there is room. -/
def drawBoards (d : Dsp) : List DspBoard → Nat → Nat → Dsp
  | [], _, _ => d
  | b :: rest, col, machine =>
    if col < 19 then
      let machine := counting b machine
      let cell := cellText b machine
      let d := dspText d col 2 cell b.isFocus
      let col := col + cell.length
      let (d, col) := if b.hasInput then (dspText d col 2 (text "*") false, col + 1) else (d, col)
      let (d, col) := if rest ≠ [] then (dspText d col 2 (text "-") false, col + 1) else (d, col)
      drawBoards d rest col machine
    else d

section

variable (qsort : List DspBoard → List DspBoard)

def drawRouting (d : Dsp) (st : DspStatus) : Dsp :=
  if st.weAreActive then dspText d 0 3 (text "ROUTING: THIS") false
  else dspText d 0 3 (boardRouting st) false

/-- Pairing takes over the middle of the screen. -/
def drawMiddle (d : Dsp) (st : DspStatus) (errors : ErrorCounts) : Dsp :=
  if st.pairing then
    let d := dspText d 0 4 (text "PAIRING - COMPARE:") false
    match st.sas with
    | some sas => dspText d 0 5 (sasText sas) true
    | none => dspText d 0 5 (text "   WAITING...") false
  else
    let d := dspText d 0 4 (linkText st) false
    dspText d 0 5 (errorText errors) false

/-- Uptime, or a transient notice. -/
def drawBottom (d : Dsp) (st : DspStatus) : Dsp :=
  match st.message with
  | some message => dspText d 0 7 (text message) false
  | none => dspText d 0 7 (upText st) false

def dspRenderStatus (d : Dsp) (st : DspStatus) (errors : ErrorCounts) : Dsp :=
  let d := dspClear d
  let d := dspText d 0 0 (text "DESKHOP+") false
  let d := dspText d 19 0 (levelText st) false
  let d := dspHrule d 9
  let d := drawBoards d (qsort (st.board.take 16)) 0 0
  let d := drawRouting d st
  let d := drawMiddle d st errors
  let d := dspHrule d 55
  drawBottom d st

end

/-- What the C library promises. -/
def Sorts (qsort : List DspBoard → List DspBoard) : Prop :=
  ∀ l, (qsort l).Perm l ∧ (qsort l).Pairwise fun b b' => b.relPos ≤ b'.relPos

/-! ## What the rows say -/

def inPlain (s : List Byte) : List Mark := s.map fun c => (c, false)

/-- A board on the screen, up to the next. -/
def boardMarks (b : DspBoard) (machine : Nat) (last : Bool) : List Mark :=
  (cellText b machine).map (fun c => (c, b.isFocus)) ++ (if b.hasInput then inPlain (text "*") else []) ++
    if last then [] else inPlain (text "-")

/-- The boards from column `col` on. -/
def chainMarks : List DspBoard → Nat → Nat → List Mark
  | [], _, _ => []
  | b :: rest, col, machine =>
    if col < 19 then
      let marks := boardMarks b (counting b machine) rest.isEmpty
      marks ++ chainMarks rest (col + marks.length) (counting b machine)
    else []

/-- What each row of text says. -/
def screenLine (boards : List DspBoard) (st : DspStatus) (errors : ErrorCounts) : Nat → List Mark
  | 0 => overlay (inPlain (text "DESKHOP+")) 19 (levelText st) false
  | 2 => chainMarks boards 0 0
  | 3 =>
    if st.weAreActive then inPlain (text "ROUTING: THIS")
    else inPlain (boardRouting st)
  | 4 =>
    if st.pairing then inPlain (text "PAIRING - COMPARE:")
    else inPlain (linkText st)
  | 5 =>
    if st.pairing then
      match st.sas with
      | some sas => (sasText sas).map fun c => (c, true)
      | none => inPlain (text "   WAITING...")
    else inPlain (errorText errors)
  | 7 =>
    match st.message with
    | some message => inPlain (text message)
    | none => inPlain (upText st)
  | _ => []

/-- The rows of text; the others hold the rules. -/
def textRows : List Nat := [0, 2, 3, 4, 5, 7]

/-! ## Drawing it -/

/-- Every row of text reads its line. -/
def ReadsAs (d : Dsp) (lines : Nat → List Mark) : Prop := ∀ row ∈ textRows, d.Shows row (lines row)

section reads

variable {d : Dsp} {lines : Nat → List Mark}

theorem reads_clear (d : Dsp) : ReadsAs (dspClear d) fun _ => [] := fun row _ => shows_clear d row

theorem ReadsAs.write (h : ReadsAs d lines) {row : Nat} (hrow : row < 8) (col : Nat) (s : List Byte) (invert : Bool) :
    ReadsAs (dspText d col row s invert) (Function.update lines row (overlay (lines row) col s invert)) := by
  intro r hr
  by_cases hsame : r = row
  · subst hsame
    rw [Function.update_self]
    exact (h r hr).text hrow col s invert
  · rw [Function.update_of_ne hsame]
    exact (h r hr).text_ne hrow hsame col s invert

theorem ReadsAs.hrule (h : ReadsAs d lines) {y : Nat} (hy : y / 8 ∉ textRows) : ReadsAs (dspHrule d y) lines :=
  fun r hr => (h r hr).hrule y fun he => hy (he ▸ hr)

theorem overlay_end (line : List Mark) {col : Nat} (hcol : line.length = col) (s : List Byte) (invert : Bool) :
    overlay line col s invert = line ++ s.map fun c => (c, invert) := by
  rw [overlay, List.drop_of_length_le (by omega), List.append_nil, ← hcol, List.takeD_eq_take _ (Nat.le_refl _), List.take_length]

/-- More text at the end of a line. -/
theorem ReadsAs.more {row : Nat} {line : List Mark} (h : ReadsAs d (Function.update lines row line)) (hrow : row < 8) {col : Nat}
    (hcol : line.length = col) (s : List Byte) (invert : Bool) :
    ReadsAs (dspText d col row s invert) (Function.update lines row (line ++ s.map fun c => (c, invert))) := by
  have hmore := h.write hrow col s invert
  rwa [Function.update_self, overlay_end line hcol, Function.update_idem] at hmore

/-- One more character, if `p`. -/
theorem ReadsAs.option {line : List Mark} {col : Nat} (h : ReadsAs d (Function.update lines 2 line)) (hcol : line.length = col)
    (p : Prop) [Decidable p] {s : List Byte} (hs : s.length = 1) :
    ∃ d', (if p then (dspText d col 2 s false, col + 1) else (d, col)) = (d', (line ++ if p then inPlain s else []).length) ∧
      ReadsAs d' (Function.update lines 2 (line ++ if p then inPlain s else [])) := by
  by_cases hp : p
  · rw [if_pos hp, if_pos hp]
    refine ⟨dspText d col 2 s false, ?_, h.more (by decide) hcol s false⟩
    rw [List.length_append, inPlain, List.length_map, hcol, hs]
  · rw [if_neg hp, if_neg hp, List.append_nil]
    exact ⟨d, by rw [hcol], h⟩

/-- The boards are drawn one after another. -/
theorem ReadsAs.boards (boards : List DspBoard) {line : List Mark} {col : Nat} (machine : Nat)
    (h : ReadsAs d (Function.update lines 2 line)) (hcol : line.length = col) :
    ReadsAs (drawBoards d boards col machine) (Function.update lines 2 (line ++ chainMarks boards col machine)) := by
  induction boards generalizing d line col machine with
  | nil => rwa [chainMarks, List.append_nil]
  | cons b rest ih =>
    unfold drawBoards chainMarks
    by_cases hroom : col < 19
    · rw [if_pos hroom, if_pos hroom]
      dsimp only
      generalize counting b machine = m
      have hcell : ReadsAs (dspText d col 2 (cellText b m) b.isFocus)
          (Function.update lines 2 (line ++ (cellText b m).map fun c => (c, b.isFocus))) :=
        h.more (by decide) hcol (cellText b m) b.isFocus
      have hcellLen : (line ++ (cellText b m).map fun c => (c, b.isFocus)).length = col + (cellText b m).length := by
        rw [List.length_append, List.length_map, hcol]
      obtain ⟨d2, hd2, h2⟩ := hcell.option hcellLen (b.hasInput = true) (s := text "*") rfl
      obtain ⟨d3, hd3, h3⟩ := h2.option rfl (rest ≠ []) (s := text "-") rfl
      rw [hd2]
      dsimp only
      rw [hd3]
      dsimp only
      have hmarks : line ++ boardMarks b m rest.isEmpty =
          line ++ (cellText b m).map (fun c => (c, b.isFocus)) ++ (if b.hasInput = true then inPlain (text "*") else []) ++
            if rest ≠ [] then inPlain (text "-") else [] := by
        rw [boardMarks, List.append_assoc, List.append_assoc, List.append_assoc]
        cases rest <;> rfl
      have hlen := congrArg List.length hmarks
      rw [List.length_append, hcol] at hlen
      rw [hlen, ← List.append_assoc, hmarks]
      exact ih m h3 rfl
    · rw [if_neg hroom, if_neg hroom, List.append_nil]
      exact h

/-- The lines down to row `n`. -/
def downTo (lines : Nat → List Mark) (n : Nat) : Nat → List Mark := fun row => if row < n then lines row else []

theorem update_downTo (lines : Nat → List Mark) (n : Nat) :
    Function.update (downTo lines n) n (lines n) = downTo lines (n + 1) := by
  funext row
  unfold downTo
  by_cases hrow : row = n
  · subst hrow
    rw [Function.update_self, if_pos (Nat.lt_succ_self row)]
  · rw [Function.update_of_ne hrow]
    by_cases hlt : row < n
    · rw [if_pos hlt, if_pos (by omega)]
    · rw [if_neg hlt, if_neg (by omega)]

/-- The next row of text. -/
theorem ReadsAs.next {n : Nat} (h : ReadsAs d (downTo lines n)) (hn : n < 8) {s : List Byte} {invert : Bool}
    (hline : lines n = s.map fun c => (c, invert)) : ReadsAs (dspText d 0 n s invert) (downTo lines (n + 1)) := by
  have hwritten : ReadsAs (dspText d 0 n s invert) _ := h.write hn 0 s invert
  have hempty : downTo lines n n = [] := if_neg (Nat.lt_irrefl n)
  rwa [hempty, overlay_end [] (show [].length = 0 from rfl), List.nil_append, ← hline, update_downTo] at hwritten

/-- A row of the rule. -/
theorem ReadsAs.skip {n : Nat} (h : ReadsAs d (downTo lines n)) (hn : n ∉ textRows) : ReadsAs d (downTo lines (n + 1)) := by
  intro row hrow
  have hne : row ≠ n := fun he => hn (he ▸ hrow)
  have hsame : downTo lines (n + 1) row = downTo lines n row := by
    unfold downTo
    by_cases hlt : row < n
    · rw [if_pos hlt, if_pos (by omega)]
    · rw [if_neg hlt, if_neg (by omega)]
  rw [hsame]
  exact h row hrow

variable {boards : List DspBoard} {st : DspStatus} {errors : ErrorCounts}

theorem ReadsAs.chain (h : ReadsAs d (downTo (screenLine boards st errors) 2)) :
    ReadsAs (drawBoards d boards 0 0) (downTo (screenLine boards st errors) 3) := by
  have hnone : downTo (screenLine boards st errors) 2 2 = [] := if_neg (Nat.lt_irrefl 2)
  have hrow : ReadsAs d (Function.update (downTo (screenLine boards st errors) 2) 2 []) := by
    rw [← hnone, Function.update_eq_self]
    exact h
  have hdrawn := hrow.boards boards 0 (show [].length = 0 from rfl)
  rwa [List.nil_append, show chainMarks boards 0 0 = screenLine boards st errors 2 from rfl, update_downTo] at hdrawn

theorem ReadsAs.routing (h : ReadsAs d (downTo (screenLine boards st errors) 3)) :
    ReadsAs (drawRouting d st) (downTo (screenLine boards st errors) 4) := by
  unfold drawRouting
  split
  · rename_i hactive
    exact h.next (by decide) (if_pos hactive)
  · rename_i hidle
    exact h.next (by decide) (if_neg hidle)

theorem ReadsAs.middle (h : ReadsAs d (downTo (screenLine boards st errors) 4)) :
    ReadsAs (drawMiddle d st errors) (downTo (screenLine boards st errors) 6) := by
  unfold drawMiddle
  split
  · rename_i hpairing
    have htitle := h.next (by decide) (if_pos hpairing)
    have hline : screenLine boards st errors 5 = _ := if_pos hpairing
    cases hsas : st.sas with
    | some sas =>
      rw [hsas] at hline
      exact htitle.next (by decide) hline
    | none =>
      rw [hsas] at hline
      exact htitle.next (by decide) hline
  · rename_i hidle
    have hlink := h.next (by decide) (if_neg hidle)
    exact hlink.next (by decide) (if_neg hidle)

theorem ReadsAs.bottom (h : ReadsAs d (downTo (screenLine boards st errors) 7)) :
    ReadsAs (drawBottom d st) (downTo (screenLine boards st errors) 8) := by
  unfold drawBottom
  cases hmessage : st.message with
  | some message => exact h.next (by decide) (by rw [screenLine, hmessage]; rfl)
  | none => exact h.next (by decide) (by rw [screenLine, hmessage]; rfl)

end reads

/-- Whatever was on the screen before. -/
theorem screen_reads (qsort : List DspBoard → List DspBoard) (d : Dsp) (st : DspStatus) (errors : ErrorCounts) :
    ReadsAs (dspRenderStatus qsort d st errors) (screenLine (qsort (st.board.take 16)) st errors) := by
  generalize hboards : qsort (st.board.take 16) = boards
  have hzero : downTo (screenLine boards st errors) 0 = fun _ => [] := funext fun row => if_neg (Nat.not_lt_zero row)
  have hclear : ReadsAs (dspClear d) (downTo (screenLine boards st errors) 0) := hzero ▸ reads_clear d
  -- the top row is written twice
  have htitle : ReadsAs (dspText (dspClear d) 0 0 (text "DESKHOP+") false) _ := hclear.write (show 0 < 8 by decide) 0 _ false
  have htop : ReadsAs (dspText (dspText (dspClear d) 0 0 (text "DESKHOP+") false) 19 0 (levelText st) false) _ :=
    htitle.write (show 0 < 8 by decide) 19 (levelText st) false
  rw [hzero, Function.update_self, overlay_end [] (show [].length = 0 from rfl), List.nil_append, Function.update_idem, ← hzero,
    show overlay ((text "DESKHOP+").map fun c => (c, false)) 19 (levelText st) false = screenLine boards st errors 0 from rfl,
    update_downTo] at htop
  have hchain := ((htop.hrule (y := 9) (by decide)).skip (n := 1) (by decide)).chain
  have hmiddle := (hchain.routing.middle.hrule (y := 55) (by decide)).skip (n := 6) (by decide)
  intro row hrow
  have hline : downTo (screenLine boards st errors) 8 row = screenLine boards st errors row := by
    refine if_pos ?_
    revert hrow
    revert row
    decide
  rw [← hline, dspRenderStatus, hboards]
  exact hmiddle.bottom row hrow

/-- Two rows that look alike say the same in every place. -/
theorem same_row {qsort qsort' : List DspBoard → List DspBoard} {d d' : Dsp} {st st' : DspStatus} {errors errors' : ErrorCounts}
    {row : Nat} (hrow : row ∈ textRows) (h : ∀ j < 128, (dspRenderStatus qsort d st errors).px (row * 128 + j) =
      (dspRenderStatus qsort' d' st' errors').px (row * 128 + j)) :
    ∀ k < 21, ((screenLine (qsort (st.board.take 16)) st errors row).getD k blank).seen =
      ((screenLine (qsort' (st'.board.take 16)) st' errors' row).getD k blank).seen :=
  fun _ hk => (screen_reads qsort d st errors row hrow).same (screen_reads qsort' d' st' errors' row hrow) h hk

/-! ## The string to compare -/

def hexAscii (n : UInt8) : Byte := UInt8.ofNat (hexDigit n).toNat

theorem hexAscii_drawn {a b : UInt8} (ha : a.toNat < 16) (hb : b.toNat < 16) (h : drawnAs (hexAscii a) = drawnAs (hexAscii b)) :
    a = b := by
  have hall : ∀ i j : Fin 16, drawnAs (hexAscii (UInt8.ofNat i)) = drawnAs (hexAscii (UInt8.ofNat j)) → i = j := by decide +kernel
  have hnat := congrArg Fin.val (hall ⟨a.toNat, ha⟩ ⟨b.toNat, hb⟩ (by simpa using h))
  exact UInt8.toNat_inj.mp hnat

/-- Two digits for a byte, the high one first. -/
def hexPair (b : Byte) : List Byte := [hexAscii (b >>> 4 &&& 0xF), hexAscii (b &&& 0xF)]

theorem text_sas (p : Pair) : text (pairSasString p) = p.sas.val.flatMap hexPair := by
  rw [text, pairSasString, String.toList_ofList, List.map_flatMap]
  rfl

theorem nibbles {a b : UInt8} (hhigh : (a >>> 4) &&& (0xF : UInt8) = (b >>> 4) &&& 0xF) (hlow : a &&& 0xF = b &&& 0xF) :
    a = b := by
  have h1 := congrArg UInt8.toNat hhigh
  have h2 := congrArg UInt8.toNat hlow
  have ha := a.toNat_lt
  have hb := b.toNat_lt
  have hmask (n : Nat) : n &&& 15 = n % 16 := Nat.and_two_pow_sub_one_eq_mod n 4
  simp only [UInt8.toNat_and, UInt8.toNat_shiftRight, Nat.shiftRight_eq_div_pow] at h1 h2
  have h1 : a.toNat / 16 &&& 15 = b.toNat / 16 &&& 15 := h1
  have h2 : a.toNat &&& 15 = b.toNat &&& 15 := h2
  rw [hmask, hmask] at h1 h2
  exact UInt8.toNat_inj.mp (by omega)

theorem nibble_lt (a : UInt8) : (a &&& 0xF).toNat < 16 := by
  have hmask (n : Nat) : n &&& 15 = n % 16 := Nat.and_two_pow_sub_one_eq_mod n 4
  rw [UInt8.toNat_and]
  show a.toNat &&& 15 < 16
  rw [hmask]
  exact Nat.mod_lt _ (by decide)

theorem hexPair_drawn {a b : Byte} (h : (hexPair a).map drawnAs = (hexPair b).map drawnAs) : a = b := by
  obtain ⟨hhigh, hrest⟩ := List.cons.inj h
  have hlow := (List.cons.inj hrest).1
  exact nibbles (hexAscii_drawn (nibble_lt _) (nibble_lt _) hhigh) (hexAscii_drawn (nibble_lt _) (nibble_lt _) hlow)

theorem hexPairs_drawn {as bs : List Byte} (hlen : as.length = bs.length)
    (h : (as.flatMap hexPair).map drawnAs = (bs.flatMap hexPair).map drawnAs) : as = bs := by
  induction as generalizing bs with
  | nil => exact (List.length_eq_zero_iff.mp hlen.symm).symm
  | cons a as ih =>
    cases bs with
    | nil => cases hlen
    | cons b bs =>
      rw [List.flatMap_cons, List.flatMap_cons, List.map_append, List.map_append] at h
      obtain ⟨hfirst, hrest⟩ := List.append_inj h rfl
      rw [hexPair_drawn hfirst, ih (Nat.succ.inj hlen) hrest]

theorem length_hexPairs (p : Pair) : (text "   " ++ p.sas.val.flatMap hexPair).length = 9 := by
  rw [List.length_append, List.length_flatMap]
  show (text "   ").length + (p.sas.val.map fun _ => 2).sum = 9
  rw [List.map_const', p.sas.property]
  rfl

/-- The line of a string to compare is not cut. -/
theorem sasText_pair (p : Pair) : sasText (pairSasString p) = text "   " ++ p.sas.val.flatMap hexPair := by
  rw [sasText, printLine, text_sas, List.take_of_length_le]
  rw [length_hexPairs]
  decide

/-- While two coordinators pair, and the row for it looks alike on their screens, the two
    exchanges have come to the same string. -/
theorem same_sas {qsort qsort' : List DspBoard → List DspBoard} {d d' : Dsp} {st st' : DspStatus} {errors errors' : ErrorCounts}
    {p p' : Pair} (hpairing : st.pairing = true ∧ st.sas = some (pairSasString p))
    (hpairing' : st'.pairing = true ∧ st'.sas = some (pairSasString p'))
    (h : ∀ j < 128,
      (dspRenderStatus qsort d st errors).px (5 * 128 + j) = (dspRenderStatus qsort' d' st' errors').px (5 * 128 + j)) :
    p.sas = p'.sas := by
  have hline {boards : List DspBoard} {st : DspStatus} {errors : ErrorCounts} {p : Pair}
      (hp : st.pairing = true ∧ st.sas = some (pairSasString p)) :
      screenLine boards st errors 5 = (text "   " ++ p.sas.val.flatMap hexPair).map fun c => (c, true) := by
    rw [screenLine, if_pos hp.1, hp.2, ← sasText_pair]
  have hseen := same_row (show 5 ∈ textRows by decide) h
  rw [hline hpairing, hline hpairing'] at hseen
  have hdrawn : (text "   " ++ p.sas.val.flatMap hexPair).map drawnAs =
      (text "   " ++ p'.sas.val.flatMap hexPair).map drawnAs := by
    refine List.ext_getElem (by rw [List.length_map, List.length_map, length_hexPairs, length_hexPairs]) fun k h1 h2 => ?_
    rw [List.length_map] at h1 h2
    have hk := hseen k (by rw [length_hexPairs] at h1; omega)
    rw [List.getD_eq_getElem?_getD, List.getD_eq_getElem?_getD, List.getElem?_map, List.getElem?_map,
      List.getElem?_eq_getElem h1, List.getElem?_eq_getElem h2] at hk
    rw [List.getElem_map, List.getElem_map]
    exact congrArg Prod.fst hk
  rw [List.map_append, List.map_append] at hdrawn
  exact Subtype.ext (hexPairs_drawn (p.sas.property.trans p'.sas.property.symm) (List.append_cancel_left hdrawn))

/-- The screen of a coordinator that pairs and has this string to compare. -/
def comparing (p : Pair) : DspStatus := ⟨.coordinated, false, .active, 2000000, 60, true, some (pairSasString p), none, []⟩

/-- Two boards that have each heard the other's offer. -/
theorem same_sas_of_offers :
    (pairRx mockCrypto (sample 1 1) (sampleOffer 2 2) 1000).sas =
      (pairRx mockCrypto (sample 2 2) (sampleOffer 1 1) 1000).sas := by
  have hsame : comparing (pairRx mockCrypto (sample 1 1) (sampleOffer 2 2) 1000) =
      comparing (pairRx mockCrypto (sample 2 2) (sampleOffer 1 1) 1000) := by decide +kernel
  have hrows : ∀ j < 128, (dspRenderStatus id ⟨fun _ => 0, false⟩
        (comparing (pairRx mockCrypto (sample 1 1) (sampleOffer 2 2) 1000)) ⟨0, 0⟩).px (5 * 128 + j) =
      (dspRenderStatus id ⟨fun _ => 0, false⟩
        (comparing (pairRx mockCrypto (sample 2 2) (sampleOffer 1 1) 1000)) ⟨0, 0⟩).px (5 * 128 + j) := by
    intro j _
    rw [hsame]
  exact same_sas ⟨rfl, rfl⟩ ⟨rfl, rfl⟩ hrows

end DeskHop.Chain
