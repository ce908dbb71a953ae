/-
  DeskHop.Chain.Saved — the coordinator's configuration as a file
  (`coordinator/src/config.c`: `coord_config_save`, `coord_config_load`, `trim`).

  The writer prints a line for each key and the reader takes the file line by line: the
  comment off, the blanks off, cut at the first '=', and set as the control socket would
  set it. Errors of the file system are not modelled.

  Proved: what the reader makes of what the writer wrote is the configuration itself but for
  the four strings, each of which comes back as `readBack` has it (`load_saved`), so that a
  configuration comes back whole exactly where no string looks like a comment
  (`saved_loads_iff`).
-/

import DeskHop.Chain.Integrator
import DeskHop.Lib.Lines

namespace DeskHop.Chain

open DeskHop.Election DeskHop.Lib DeskHop.Routing

/-! ## The writer -/

/-- `%02x` of a byte. -/
def hexByte (v : UInt8) : String :=
  String.ofList [Nat.digitChar (v.toNat / 16), Nat.digitChar (v.toNat % 16)]

def boolWord (b : Bool) : String := if b then "true" else "false"

/-- What is printed, one string for each call. -/
def coordConfigSave (c : CoordConfig) : List String :=
  ["# deskhop coordinator configuration\n",
    "# written automatically; edits are preserved on next save\n\n",
    "serial_dev = " ++ c.serialDev ++ "\n",
    "link_baud = " ++ toString c.linkBaud.toNat ++ "\n",
    "at_head = " ++ boolWord c.atHead ++ "\n",
    "\ni2c_dev = " ++ c.i2cDev ++ "\n",
    "i2c_addr = 0x" ++ hexByte c.i2cAddr ++ "\n",
    "headless = " ++ boolWord c.headless ++ "\n",
    "\nhello_ms = " ++ toString c.timing.helloMs.toNat ++ "\n",
    "hold_ms = " ++ toString c.timing.holdMs.toNat ++ "\n",
    "handover_defer_max_ms = " ++ toString c.timing.handoverDeferMaxMs.toNat ++ "\n",
    "\npointer_span = " ++ toString c.pointer.span ++ "\n",
    "pointer_push = " ++ toString c.pointer.pushThreshold ++ "\n",
    "pointer_decay = " ++ toString c.pointer.pushDecayPerMs ++ "\n",
    "pointer_guard = " ++ toString c.pointer.reentryGuard ++ "\n",
    "pointer_vertical = " ++ boolWord c.pointer.verticalEnabled ++ "\n",
    "\nkey_path = " ++ c.keyPath ++ "\n",
    "ctl_path = " ++ c.ctlPath ++ "\n"]

def fileOf (printed : List String) : List Char := printed.flatMap String.toList

/-! ## The reader -/

def isBlank (ch : Char) : Bool := ch == ' ' || ch == '\t'

/-- What `trim` takes off the end. -/
def isTrailing (ch : Char) : Bool := isBlank ch || ch == '\n' || ch == '\r'

def trim (s : List Char) : List Char := (s.dropWhile isBlank).rdropWhile isTrailing

/-- A key set, or the complaint ignored. -/
def setOrIgnore (c : CoordConfig) (key value : String) : CoordConfig :=
  match coordConfigSet c key value with
  | .ok c' => c'
  | .error _ => c

/-- One line, with its comment, up to a terminator it may hold. -/
def loadLine (c : CoordConfig) (line : List Char) : CoordConfig :=
  let line := trim ((line.takeWhile (· ≠ '\x00')).takeWhile (· ≠ '#'))
  if line = [] then c
  else
    match line.dropWhile (· ≠ '=') with
    | [] => c
    | _ :: v => setOrIgnore c (String.ofList (trim (line.takeWhile (· ≠ '=')))) (String.ofList (trim v))

def coordConfigLoad (c : CoordConfig) (file : List Char) : CoordConfig := (lines '\n' 512 [] file).foldl loadLine c

/-- What the control socket cuts a command into. -/
def Token (s : String) : Prop := ∀ ch ∈ s.toList, ch ≠ ' ' ∧ ch ≠ '\t' ∧ ch ≠ '\n' ∧ ch ≠ '\x00'

instance (s : String) : Decidable (Token s) := List.decidableBAll _ s.toList

/-- Reachable from the defaults by successful settings over the control socket. -/
inductive Commanded : CoordConfig → Prop
  | defaults : Commanded coordConfigDefaults
  | set {c c' : CoordConfig} {key value : String} : Commanded c → Token key → Token value →
      coordConfigSet c key value = .ok c' → Commanded c'

theorem Commanded.configurable {c : CoordConfig} (h : Commanded c) : Configurable c := by
  induction h with
  | defaults => exact .defaults
  | set _ _ _ hs ih => exact ih.set hs

/-! ## A line read -/

/-- A string as it comes back: without its comment, and without what trails. -/
def readBack (s : List Char) : List Char := (s.takeWhile (· ≠ '#')).rdropWhile isTrailing

/-- The line for a key. -/
def entry (name : String) (value : List Char) : List Char := name.toList ++ [' ', '=', ' '] ++ value

/-- A key as the source spells them. -/
def KeyName (name : String) : Prop := name ≠ "" ∧ ∀ ch ∈ name.toList, ch ≠ '=' ∧ ch ≠ '#' ∧ ch ≠ '\x00' ∧ isTrailing ch = false

instance (name : String) : Decidable (KeyName name) :=
  @instDecidableAnd _ _ inferInstance (List.decidableBAll _ name.toList)

/-- A value with no blank, newline or terminator in it. -/
def OneWord (s : List Char) : Prop := ∀ ch ∈ s, ch ≠ ' ' ∧ ch ≠ '\t' ∧ ch ≠ '\n' ∧ ch ≠ '\x00'

instance (s : List Char) : Decidable (OneWord s) := List.decidableBAll _ s

/-- Nothing comes off the front of a word. -/
theorem dropWhile_word {word : List Char} (hne : word ≠ []) (h : ∀ ch ∈ word, isBlank ch = false) (rest : List Char) :
    (word ++ rest).dropWhile isBlank = word ++ rest := by
  cases word with
  | nil => exact absurd rfl hne
  | cons ch word =>
    rw [List.cons_append, List.dropWhile_cons_of_neg]
    rw [h ch List.mem_cons_self]
    exact Bool.false_ne_true

section entry

variable {name : String} (hname : KeyName name)
include hname

theorem KeyName.ne_nil : name.toList ≠ [] := fun h => hname.1 (String.toList_eq_nil_iff.mp h)

theorem KeyName.not_blank : ∀ ch ∈ name.toList, isBlank ch = false := fun ch hch => by
  have htrail := (hname.2 ch hch).2.2.2
  simp only [isTrailing, Bool.or_eq_false_iff] at htrail
  exact htrail.1.1

theorem KeyName.trim_line (rest : List Char) :
    trim (name.toList ++ ' ' :: '=' :: rest) = name.toList ++ ' ' :: '=' :: rest.rdropWhile isTrailing := by
  rw [trim, dropWhile_word hname.ne_nil hname.not_blank, List.append_cons, rdropWhile_append_cons (by decide),
    ← List.append_cons]

theorem KeyName.trim_key : trim (name.toList ++ [' ']) = name.toList := by
  rw [trim, dropWhile_word hname.ne_nil hname.not_blank, List.rdropWhile_concat_pos _ _ _ (by decide),
    List.rdropWhile_eq_self_iff]
  intro hl
  rw [(hname.2 _ (List.getLast_mem hl)).2.2.2]
  exact Bool.false_ne_true

theorem KeyName.takeWhile_eq (rest : List Char) :
    (name.toList ++ ' ' :: '=' :: rest).takeWhile (· ≠ '=') = name.toList ++ [' '] := by
  rw [List.takeWhile_append_of_pos fun ch hch => decide_eq_true (hname.2 ch hch).1]
  rfl

theorem KeyName.dropWhile_eq (rest : List Char) :
    (name.toList ++ ' ' :: '=' :: rest).dropWhile (· ≠ '=') = '=' :: rest := by
  rw [List.dropWhile_append_of_pos fun ch hch => decide_eq_true (hname.2 ch hch).1]
  rfl

/-- The line up to its comment, cut off or not. -/
theorem KeyName.uncommented {value : List Char} (hvalue : OneWord value) : ∃ tail, (tail = [] ∨ tail = ['\n']) ∧
    ((entry name value ++ ['\n']).takeWhile (· ≠ '\x00')).takeWhile (· ≠ '#') =
      name.toList ++ ' ' :: '=' :: ' ' :: (value.takeWhile (· ≠ '#') ++ tail) := by
  have hline : entry name value ++ ['\n'] = name.toList ++ ' ' :: '=' :: ' ' :: (value ++ ['\n']) := by
    simp [entry]
  have hwhole : (entry name value ++ ['\n']).takeWhile (· ≠ '\x00') = entry name value ++ ['\n'] := by
    refine List.takeWhile_eq_self_iff.mpr fun ch hch => decide_eq_true ?_
    simp only [entry, List.mem_append, List.mem_cons, List.not_mem_nil, or_false] at hch
    rcases hch with ((hch | rfl | rfl | rfl) | hch) | rfl
    · exact (hname.2 ch hch).2.2.1
    · decide
    · decide
    · decide
    · exact (hvalue ch hch).2.2.2
    · decide
  have hcut : ∃ tail, (tail = [] ∨ tail = ['\n']) ∧
      (value ++ ['\n']).takeWhile (· ≠ '#') = value.takeWhile (· ≠ '#') ++ tail := by
    rw [List.takeWhile_append]
    split
    · rename_i hall
      refine ⟨['\n'], Or.inr rfl, ?_⟩
      rw [(List.takeWhile_prefix _).eq_of_length hall]
      rfl
    · exact ⟨[], Or.inl rfl, (List.append_nil _).symm⟩
  obtain ⟨tail, htail, hcut⟩ := hcut
  refine ⟨tail, htail, ?_⟩
  rw [hwhole, hline, List.takeWhile_append_of_pos fun ch hch => decide_eq_true (hname.2 ch hch).2.1, ← hcut]
  rfl

end entry

/-- What the reader makes of what is behind the '='. -/
theorem trim_value {cut tail : List Char} (hcut : ∀ ch ∈ cut, isBlank ch = false) (htail : tail = [] ∨ tail = ['\n']) :
    trim ((' ' :: (cut ++ tail)).rdropWhile isTrailing) = cut.rdropWhile isTrailing := by
  have hback : (cut ++ tail).rdropWhile isTrailing = cut.rdropWhile isTrailing := by
    rcases htail with rfl | rfl
    · rw [List.append_nil]
    · exact List.rdropWhile_concat_pos _ _ _ (by decide)
  rw [rdropWhile_cons, hback]
  by_cases hnil : cut.rdropWhile isTrailing = []
  · rw [if_pos ⟨by decide, hnil⟩, hnil]
    rfl
  · have hword : ∀ ch ∈ cut.rdropWhile isTrailing, isBlank ch = false := fun ch hch =>
      hcut ch ((List.rdropWhile_prefix _ _).subset hch)
    have hfront := dropWhile_word hnil hword []
    rw [List.append_nil] at hfront
    rw [if_neg fun h => hnil h.2, trim, List.dropWhile_cons_of_pos (by decide), hfront, List.rdropWhile_idempotent]

/-- A line that the writer wrote sets its key to what is read back. -/
theorem loadLine_entry (c : CoordConfig) {name : String} (hname : KeyName name) {value : List Char}
    (hvalue : OneWord value) :
    loadLine c (entry name value ++ ['\n']) = setOrIgnore c name (String.ofList (readBack value)) := by
  obtain ⟨tail, htail, hline⟩ := hname.uncommented hvalue
  have hcut : ∀ ch ∈ value.takeWhile (· ≠ '#'), isBlank ch = false := fun ch hch => by
    have hch := hvalue ch ((List.takeWhile_prefix _).subset hch)
    simp [isBlank, hch.1, hch.2.1]
  unfold loadLine
  rw [hline, hname.trim_line]
  dsimp only
  rw [if_neg (by simp), hname.dropWhile_eq, hname.takeWhile_eq, hname.trim_key]
  show setOrIgnore c (String.ofList name.toList) (String.ofList (trim _)) = _
  rw [trim_value hcut htail, String.ofList_toList]
  rfl

/-! ## Values read back -/

theorem readBack_eq_iff {s : List Char} (hs : OneWord s) : readBack s = s ↔ '#' ∉ s ∧ s.getLast? ≠ some '\r' := by
  have htake : s.takeWhile (· ≠ '#') = s ↔ '#' ∉ s := by
    rw [List.takeWhile_eq_self_iff]
    exact ⟨fun h hm => absurd (of_decide_eq_true (h '#' hm)) (not_not.mpr rfl),
      fun h ch hch => decide_eq_true fun heq => h (heq ▸ hch)⟩
  have hlast : s.rdropWhile isTrailing = s ↔ s.getLast? ≠ some '\r' := by
    rw [List.rdropWhile_eq_self_iff]
    constructor
    · intro h heq
      obtain ⟨l, rfl⟩ := List.getLast?_eq_some_iff.mp heq
      exact h (List.append_ne_nil_of_right_ne_nil l (List.cons_ne_nil _ _)) (by rw [List.getLast_concat]; decide)
    · intro h hl htrail
      obtain ⟨h1, h2, h3, -⟩ := hs _ (List.getLast_mem hl)
      rw [List.getLast?_eq_getLast_of_ne_nil hl] at h
      simp only [isTrailing, isBlank, Bool.or_eq_true, beq_iff_eq] at htrail
      rcases htrail with ((htrail | htrail) | htrail) | htrail
      · exact h1 htrail
      · exact h2 htrail
      · exact h3 htrail
      · exact h (congrArg some htrail)
  constructor
  · intro h
    -- neither cut takes anything off
    have hpre := List.rdropWhile_prefix isTrailing (s.takeWhile (· ≠ '#'))
    have hwhole : s.takeWhile (· ≠ '#') = s := by
      refine (List.takeWhile_prefix _).eq_of_length_le ?_
      have := hpre.length_le
      rwa [show (s.takeWhile (· ≠ '#')).rdropWhile isTrailing = s from h] at this
    rw [readBack, hwhole] at h
    exact ⟨htake.mp hwhole, hlast.mp h⟩
  · intro h
    rw [readBack, htake.mpr h.1, hlast.mpr h.2]

/-! ## Numbers -/

theorem isDigit_toNat {ch : Char} (h : ch.isDigit = true) : 48 ≤ ch.toNat ∧ ch.toNat ≤ 57 := by
  rw [Char.isDigit, Bool.and_eq_true, decide_eq_true_eq, decide_eq_true_eq] at h
  exact ⟨UInt32.le_iff_toNat_le.mp h.1, UInt32.le_iff_toNat_le.mp h.2⟩

theorem digitOf_isDigit {ch : Char} (h : ch.isDigit = true) : digitOf ch = some (ch.toNat - 48) := by
  have hrange : ('0' ≤ ch && ch ≤ '9') = true := h
  rw [digitOf, if_pos hrange]

theorem digitIn_isDigit {ch : Char} (h : ch.isDigit = true) : digitIn 10 ch = true := by
  have := isDigit_toNat h
  rw [digitIn, digitOf_isDigit h, Option.any_some, decide_eq_true_eq]
  omega

theorem valueIn_digits {ds : List Char} (h : ∀ ch ∈ ds, ch.isDigit = true) : valueIn 10 ds = Nat.ofDigitChars 10 ds 0 := by
  have hfold (v : Nat) : ds.foldl (fun v ch => v * 10 + (digitOf ch).getD 0) v = Nat.ofDigitChars 10 ds v := by
    induction ds generalizing v with
    | nil => rfl
    | cons ch ds ih =>
      rw [List.foldl_cons, digitOf_isDigit (h ch List.mem_cons_self), ih fun ch hch => h ch (List.mem_cons_of_mem _ hch),
        Nat.mul_comm]
      rfl
  exact hfold 0

/-- A number begins with a zero only if it is zero. -/
theorem head_toDigits {n : Nat} (h : 0 < n) : (Nat.toDigits 10 n).head? ≠ some '0' := by
  induction n using Nat.strongRecOn with
  | ind n ih =>
    by_cases hn : n < 10
    · have hall : ∀ k : Fin 10, 0 < k.val → [k.val.digitChar].head? ≠ some '0' := by decide
      rw [Nat.toDigits_of_lt_base hn]
      exact hall ⟨n, hn⟩ h
    · rw [Nat.toDigits_of_base_le (by decide) (by omega), List.head?_append_of_ne_nil _ Nat.toDigits_ne_nil]
      exact ih (n / 10) (by omega) (by omega)

/-- Neither a sign nor another base. -/
theorem strtol_plain {ch : Char} (h : ch.isDigit = true) (hzero : ch ≠ '0') (rest : List Char) :
    strtol (ch :: rest) = (max longMin (min longMax (valueIn 10 ((ch :: rest).takeWhile (digitIn 10)))),
      (ch :: rest).dropWhile (digitIn 10)) := by
  have hch := isDigit_toNat h
  have hspace : isSpace ch = false := by
    have hne : ch ≠ ' ' := by
      rintro rfl
      exact absurd hch (by decide)
    rw [isSpace, Bool.or_eq_false_iff, Bool.and_eq_false_iff, decide_eq_false_iff_not, decide_eq_false_iff_not]
    exact ⟨beq_eq_false_iff_ne.mpr hne, Or.inr (by omega)⟩
  have hminus : ch ≠ '-' := by
    rintro rfl
    exact absurd hch (by decide)
  have hplus : ch ≠ '+' := by
    rintro rfl
    exact absurd hch (by decide)
  have hnumber : (ch :: rest).takeWhile (digitIn 10) ≠ [] := by
    rw [List.takeWhile_cons_of_pos (digitIn_isDigit h)]
    exact List.cons_ne_nil _ _
  simp [strtol, hspace, hminus, hplus, hzero, hnumber]

theorem strtol_decimal {n : Nat} (h : (n : Int) ≤ longMax) : strtol (Nat.toDigits 10 n) = ((n : Int), []) := by
  by_cases hn : n = 0
  · subst hn
    decide
  have hdigits : ∀ ch ∈ Nat.toDigits 10 n, ch.isDigit = true := fun ch hch =>
    Nat.isDigit_of_mem_toDigits (by decide) (by decide) hch
  have hvalue : valueIn 10 (Nat.toDigits 10 n) = n := by
    rw [valueIn_digits hdigits, Nat.ofDigitChars_ten_toDigits]
  have htake : (Nat.toDigits 10 n).takeWhile (digitIn 10) = Nat.toDigits 10 n :=
    List.takeWhile_eq_self_iff.mpr fun ch hch => digitIn_isDigit (hdigits ch hch)
  have hdrop : (Nat.toDigits 10 n).dropWhile (digitIn 10) = [] :=
    List.dropWhile_eq_nil_iff.mpr fun ch hch => digitIn_isDigit (hdigits ch hch)
  have hhead := head_toDigits (Nat.pos_of_ne_zero hn)
  have hmin : longMin ≤ (n : Int) := Int.le_trans (by decide) (Int.natCast_nonneg n)
  cases hl : Nat.toDigits 10 n with
  | nil => exact absurd hl Nat.toDigits_ne_nil
  | cons ch rest =>
    rw [hl] at hdigits hvalue htake hdrop hhead
    have hzero : ch ≠ '0' := fun h0 => hhead (by rw [h0]; rfl)
    rw [strtol_plain (hdigits ch List.mem_cons_self) hzero, htake, hdrop, hvalue, min_eq_right h, max_eq_right hmin]

theorem oneWord_digits (n : Nat) : OneWord (toString n).toList ∧ readBack (toString n).toList = (toString n).toList := by
  have hdigits : ∀ ch ∈ (toString n).toList, 48 ≤ ch.toNat ∧ ch.toNat ≤ 57 := fun ch hch => by
    rw [Nat.toString_eq_ofList_toDigits, String.toList_ofList] at hch
    exact isDigit_toNat (Nat.isDigit_of_mem_toDigits (by decide) (by decide) hch)
  have hno {ch : Char} (hch : ¬ (48 ≤ ch.toNat ∧ ch.toNat ≤ 57)) : ch ∉ (toString n).toList := fun h => hch (hdigits ch h)
  have hword : OneWord (toString n).toList := fun ch hch => by
    refine ⟨?_, ?_, ?_, ?_⟩ <;> rintro rfl <;> exact absurd (hdigits _ hch) (by decide)
  refine ⟨hword, (readBack_eq_iff hword).mpr ⟨hno (by decide), fun h => hno (by decide) (List.mem_of_getLast? h)⟩⟩

/-! ## A key of each kind -/

/-- A string as a configuration has it after it was saved and loaded. -/
def back (s : String) : String := String.ofList (readBack s.toList)

/-- A string is as long when it comes back, or shorter. -/
theorem printed_back {s : String} {cap : Nat} (h : s.toList.length < cap) : printed cap (back s) = back s := by
  have hlen : (readBack s.toList).length ≤ s.toList.length :=
    (List.rdropWhile_prefix _ _).length_le.trans (List.takeWhile_prefix _).length_le
  rw [printed, back, String.toList_ofList, List.take_of_length_le (by omega)]

/-- A line that the buffer holds whole, and what the reader makes of it. -/
structure Reads (line : List Char) (f : CoordConfig → CoordConfig) : Prop where
  whole : '\n' ∉ line
  fits : line.length + 1 < 512
  read : ∀ c, loadLine c (line ++ ['\n']) = f c

/-- A comment, or nothing at all. -/
theorem reads_nothing {line : List Char} (hwhole : '\n' ∉ line) (hfits : line.length + 1 < 512)
    (h : trim (((line ++ ['\n']).takeWhile (· ≠ '\x00')).takeWhile (· ≠ '#')) = []) : Reads line id :=
  ⟨hwhole, hfits, fun _ => if_pos h⟩

section kinds

variable {name : String} {f : CoordConfig → CoordConfig} (hname : KeyName name ∧ name.toList.length < 128)
include hname

theorem reads_word {s : String} (hs : OneWord s.toList) (hlen : s.toList.length < 256)
    (h : ∀ c, coordConfigSet c name (back s) = .ok (f c)) : Reads (entry name s.toList) f := by
  refine ⟨fun hm => ?_, ?_, fun c => ?_⟩
  · simp only [entry, List.mem_append, List.mem_cons, List.not_mem_nil, or_false] at hm
    rcases hm with (hm | hm | hm | hm) | hm
    · exact absurd (hname.1.2 _ hm).2.2.2 (by decide)
    · exact absurd hm (by decide)
    · exact absurd hm (by decide)
    · exact absurd hm (by decide)
    · exact (hs _ hm).2.2.1 rfl
  · have := hname.2
    simp only [entry, List.length_append, List.length_cons, List.length_nil]
    omega
  · rw [loadLine_entry c hname.1 hs]
    show setOrIgnore c name (back s) = f c
    rw [setOrIgnore, h]

theorem reads_string {cap : Nat} (hcap : cap ≤ 256) {g : CoordConfig → String → CoordConfig}
    (h : ∀ c v, coordConfigSet c name v = .ok (g c (printed cap v))) {s : String}
    (hs : OneWord s.toList ∧ s.toList.length < cap) (hg : ∀ c, g c (back s) = f c) : Reads (entry name s.toList) f := by
  refine reads_word hname hs.1 (by omega) fun c => ?_
  rw [h, printed_back hs.2, hg]

theorem reads_number {lo hi : Int} {g : CoordConfig → Int → CoordConfig}
    (h : ∀ c v, coordConfigSet c name v = (u32Key name lo hi v).map (g c)) {n : Nat} (hin : lo ≤ n ∧ (n : Int) ≤ hi)
    (hlong : hi ≤ longMax) (hg : ∀ c, g c n = f c) : Reads (entry name (toString n).toList) f := by
  obtain ⟨hword, hback⟩ := oneWord_digits n
  have hlen : (toString n).toList.length ≤ 19 := by
    rw [Nat.toString_eq_ofList_toDigits, String.toList_ofList]
    refine (Nat.length_toDigits_le_iff (by decide) (by decide)).mpr ?_
    simp only [longMax] at hlong
    omega
  refine reads_word hname hword (by omega) fun c => ?_
  rw [h, back, hback, String.ofList_toList, u32Key, Nat.toString_eq_ofList_toDigits, String.toList_ofList,
    strtol_decimal (Int.le_trans hin.2 hlong), ← hg]
  dsimp only
  rw [if_neg]
  · rfl
  · rintro (hrest | hlt | hgt)
    · exact hrest rfl
    · omega
    · omega

theorem reads_bool {g : CoordConfig → Bool → CoordConfig} (h : ∀ c v, coordConfigSet c name v = (boolKey name v).map (g c))
    {b : Bool} (hg : ∀ c, g c b = f c) : Reads (entry name (boolWord b).toList) f := by
  have hword : OneWord (boolWord b).toList ∧ (boolWord b).toList.length < 256 := by
    cases b <;> decide
  have hparse : parseBool (back (boolWord b)) = some b := by
    cases b <;> decide +kernel
  refine reads_word hname hword.1 hword.2 fun c => ?_
  rw [h, boolKey, hparse, ← hg]
  rfl

end kinds

/-- An address in two hexadecimal digits. -/
theorem strtol_hexByte (v : UInt8) : OneWord ("0x" ++ hexByte v).toList ∧ ("0x" ++ hexByte v).toList.length < 256 ∧
    strtol (back ("0x" ++ hexByte v)).toList = ((v.toNat : Int), []) := by
  have hall : ∀ i j : Fin 16, let word := ['0', 'x', Nat.digitChar i.val, Nat.digitChar j.val]
      OneWord word ∧ strtol (readBack word) = (((i.val * 16 + j.val : Nat) : Int), []) := by
    decide +kernel
  have hlt := v.toNat_lt
  have hword : ("0x" ++ hexByte v).toList = ['0', 'x', Nat.digitChar (v.toNat / 16), Nat.digitChar (v.toNat % 16)] := by
    simp only [hexByte, String.toList_append, String.toList_ofList]
    rfl
  obtain ⟨hone, hval⟩ := hall ⟨v.toNat / 16, by omega⟩ ⟨v.toNat % 16, by omega⟩
  rw [back, String.toList_ofList, hword]
  refine ⟨hone, show 4 < 256 by decide, hval.trans ?_⟩
  rw [Nat.div_add_mod']

/-! ## The whole file -/

/-- What every configuration has that settings lead to. -/
structure Storable (c : CoordConfig) : Prop where
  serialDev : OneWord c.serialDev.toList ∧ c.serialDev.toList.length < 128
  i2cDev : OneWord c.i2cDev.toList ∧ c.i2cDev.toList.length < 128
  keyPath : OneWord c.keyPath.toList ∧ c.keyPath.toList.length < 256
  ctlPath : OneWord c.ctlPath.toList ∧ c.ctlPath.toList.length < 256
  linkBaud : 115200 ≤ c.linkBaud.toNat ∧ c.linkBaud.toNat ≤ 4000000
  i2cAddr : 0x03 ≤ c.i2cAddr.toNat ∧ c.i2cAddr.toNat ≤ 0x77
  helloMs : 10 ≤ c.timing.helloMs.toNat ∧ c.timing.helloMs.toNat ≤ 1000
  holdMs : 30 ≤ c.timing.holdMs.toNat ∧ c.timing.holdMs.toNat ≤ 3000
  learnMs : c.timing.learnMs = 150
  handoverDeferMaxMs : 100 ≤ c.timing.handoverDeferMaxMs.toNat ∧ c.timing.handoverDeferMaxMs.toNat ≤ 30000

theorem oneWord_printed {s : String} (h : Token s) {cap : Nat} (hcap : 0 < cap) :
    OneWord (printed cap s).toList ∧ (printed cap s).toList.length < cap := by
  rw [printed, String.toList_ofList, List.length_take]
  exact ⟨fun ch hch => h ch (List.mem_of_mem_take hch), by omega⟩

theorem toNat_ofInt8 {v : Int} (h : 0 ≤ v ∧ v < 256) : ((UInt8.ofInt v).toNat : Int) = v := by
  rw [UInt8.ofInt, UInt8.toNat_ofNat']
  omega

theorem toNat_ofInt16 {v : Int} (h : 0 ≤ v ∧ v < 65536) : ((UInt16.ofInt v).toNat : Int) = v := by
  rw [UInt16.ofInt, UInt16.toNat_ofNat']
  omega

theorem toNat_ofInt32 {v : Int} (h : 0 ≤ v ∧ v < 4294967296) : ((UInt32.ofInt v).toNat : Int) = v := by
  rw [UInt32.ofInt, UInt32.toNat_ofNat']
  omega

theorem Storable.set {c : CoordConfig} (h : Storable c) (key : String) {value : String} (hvalue : Token value) :
    Yields Storable (coordConfigSet c key value) := by
  have hms {lo hi v : Int} (hv : u32Key key lo hi value = .ok v) (hlo : 0 ≤ lo) (hhi : hi < 65536) :
      lo ≤ ((UInt16.ofInt v).toNat : Int) ∧ ((UInt16.ofInt v).toNat : Int) ≤ hi := by
    have := u32Key_range hv
    rwa [toNat_ofInt16 (by omega)]
  unfold coordConfigSet
  repeat' apply yields_ite
  · exact yields_ok { h with serialDev := oneWord_printed hvalue (by decide) }
  · exact yields_ok { h with i2cDev := oneWord_printed hvalue (by decide) }
  · exact yields_ok { h with keyPath := oneWord_printed hvalue (by decide) }
  · exact yields_ok { h with ctlPath := oneWord_printed hvalue (by decide) }
  · refine yields_map fun v hv => { h with linkBaud := ?_ }
    have hv := u32Key_range hv
    have := toNat_ofInt32 (v := v) (by omega)
    dsimp only
    omega
  · refine yields_map fun v hv => { h with i2cAddr := ?_ }
    have hv := u32Key_range hv
    have := toNat_ofInt8 (v := v) (by omega)
    dsimp only
    omega
  · exact yields_map fun _ _ => { h with }
  · exact yields_map fun _ _ => { h with }
  · refine yields_map fun v hv => { h with helloMs := ?_ }
    have := hms hv (by decide) (by decide)
    dsimp only
    omega
  · refine yields_map fun v hv => { h with holdMs := ?_ }
    have := hms hv (by decide) (by decide)
    dsimp only
    omega
  · refine yields_map fun v hv => { h with handoverDeferMaxMs := ?_ }
    have := hms hv (by decide) (by decide)
    dsimp only
    omega
  · exact yields_map fun _ _ => { h with }
  · exact yields_map fun _ _ => { h with }
  · exact yields_map fun _ _ => { h with }
  · exact yields_map fun _ _ => { h with }
  · exact yields_map fun _ _ => { h with }
  · exact yields_error

theorem Commanded.storable {c : CoordConfig} (h : Commanded c) : Storable c := by
  induction h with
  | defaults => refine ⟨?_, ?_, ?_, ?_, ?_, ?_, ?_, ?_, ?_, ?_⟩ <;> decide
  | set _ _ hv hs ih => exact ih.set _ hv _ hs

/-- The lines of the file, and what the reader makes of each. -/
def linesRead (c : CoordConfig) : List (List Char × (CoordConfig → CoordConfig)) :=
  [("# deskhop coordinator configuration".toList, id),
    ("# written automatically; edits are preserved on next save".toList, id),
    ([], id),
    (entry "serial_dev" c.serialDev.toList, fun d => { d with serialDev := back c.serialDev }),
    (entry "link_baud" (toString c.linkBaud.toNat).toList, fun d => { d with linkBaud := c.linkBaud }),
    (entry "at_head" (boolWord c.atHead).toList, fun d => { d with atHead := c.atHead }),
    ([], id),
    (entry "i2c_dev" c.i2cDev.toList, fun d => { d with i2cDev := back c.i2cDev }),
    (entry "i2c_addr" ("0x" ++ hexByte c.i2cAddr).toList, fun d => { d with i2cAddr := c.i2cAddr }),
    (entry "headless" (boolWord c.headless).toList, fun d => { d with headless := c.headless }),
    ([], id),
    (entry "hello_ms" (toString c.timing.helloMs.toNat).toList,
      fun d => { d with timing := { d.timing with helloMs := c.timing.helloMs } }),
    (entry "hold_ms" (toString c.timing.holdMs.toNat).toList,
      fun d => { d with timing := { d.timing with holdMs := c.timing.holdMs } }),
    (entry "handover_defer_max_ms" (toString c.timing.handoverDeferMaxMs.toNat).toList,
      fun d => { d with timing := { d.timing with handoverDeferMaxMs := c.timing.handoverDeferMaxMs } }),
    ([], id),
    (entry "pointer_span" (toString c.pointer.span).toList,
      fun d => { d with pointer := { d.pointer with span := c.pointer.span } }),
    (entry "pointer_push" (toString c.pointer.pushThreshold).toList,
      fun d => { d with pointer := { d.pointer with pushThreshold := c.pointer.pushThreshold } }),
    (entry "pointer_decay" (toString c.pointer.pushDecayPerMs).toList,
      fun d => { d with pointer := { d.pointer with pushDecayPerMs := c.pointer.pushDecayPerMs } }),
    (entry "pointer_guard" (toString c.pointer.reentryGuard).toList,
      fun d => { d with pointer := { d.pointer with reentryGuard := c.pointer.reentryGuard } }),
    (entry "pointer_vertical" (boolWord c.pointer.verticalEnabled).toList,
      fun d => { d with pointer := { d.pointer with verticalEnabled := c.pointer.verticalEnabled } }),
    ([], id),
    (entry "key_path" c.keyPath.toList, fun d => { d with keyPath := back c.keyPath }),
    (entry "ctl_path" c.ctlPath.toList, fun d => { d with ctlPath := back c.ctlPath })]

theorem fileOf_save (c : CoordConfig) :
    fileOf (coordConfigSave c) = ((linesRead c).map Prod.fst).flatMap (· ++ ['\n']) := by
  simp [fileOf, coordConfigSave, linesRead, entry]

theorem ofInt16_toNat (v : UInt16) : UInt16.ofInt (v.toNat : Int) = v := by
  have := v.toNat_lt
  exact UInt16.toNat_inj.mp (Int.ofNat.inj (toNat_ofInt16 ⟨by omega, by omega⟩))

theorem ofInt32_toNat (v : UInt32) : UInt32.ofInt (v.toNat : Int) = v := by
  have := v.toNat_lt
  exact UInt32.toNat_inj.mp (Int.ofNat.inj (toNat_ofInt32 ⟨by omega, by omega⟩))

theorem ofInt8_toNat (v : UInt8) : UInt8.ofInt (v.toNat : Int) = v := by
  have := v.toNat_lt
  exact UInt8.toNat_inj.mp (Int.ofNat.inj (toNat_ofInt8 ⟨by omega, by omega⟩))

section reads

variable {c : CoordConfig}

theorem reads_strings (h : Storable c) :
    (Reads (entry "serial_dev" c.serialDev.toList) fun d => { d with serialDev := back c.serialDev }) ∧
    (Reads (entry "i2c_dev" c.i2cDev.toList) fun d => { d with i2cDev := back c.i2cDev }) ∧
    (Reads (entry "key_path" c.keyPath.toList) fun d => { d with keyPath := back c.keyPath }) ∧
    Reads (entry "ctl_path" c.ctlPath.toList) fun d => { d with ctlPath := back c.ctlPath } := by
  refine ⟨?_, ?_, ?_, ?_⟩
  · exact reads_string (by decide) (by decide) (g := fun d s => { d with serialDev := s }) (fun _ _ => rfl) h.serialDev
      fun _ => rfl
  · exact reads_string (by decide) (by decide) (g := fun d s => { d with i2cDev := s }) (fun _ _ => rfl) h.i2cDev
      fun _ => rfl
  · exact reads_string (by decide) (by decide) (g := fun d s => { d with keyPath := s }) (fun _ _ => rfl) h.keyPath
      fun _ => rfl
  · exact reads_string (by decide) (by decide) (g := fun d s => { d with ctlPath := s }) (fun _ _ => rfl) h.ctlPath
      fun _ => rfl

theorem reads_bools (c : CoordConfig) :
    (Reads (entry "at_head" (boolWord c.atHead).toList) fun d => { d with atHead := c.atHead }) ∧
    (Reads (entry "headless" (boolWord c.headless).toList) fun d => { d with headless := c.headless }) ∧
    Reads (entry "pointer_vertical" (boolWord c.pointer.verticalEnabled).toList)
      fun d => { d with pointer := { d.pointer with verticalEnabled := c.pointer.verticalEnabled } } := by
  refine ⟨?_, ?_, ?_⟩
  · exact reads_bool (by decide) (g := fun d b => { d with atHead := b }) (fun _ _ => rfl) fun _ => rfl
  · exact reads_bool (by decide) (g := fun d b => { d with headless := b }) (fun _ _ => rfl) fun _ => rfl
  · exact reads_bool (by decide) (g := fun d b => { d with pointer := { d.pointer with verticalEnabled := b } })
      (fun _ _ => rfl) fun _ => rfl

theorem reads_link (h : Storable c) :
    (Reads (entry "link_baud" (toString c.linkBaud.toNat).toList) fun d => { d with linkBaud := c.linkBaud }) ∧
    Reads (entry "i2c_addr" ("0x" ++ hexByte c.i2cAddr).toList) fun d => { d with i2cAddr := c.i2cAddr } := by
  refine ⟨?_, ?_⟩
  · refine reads_number (by decide) (g := fun d v => { d with linkBaud := UInt32.ofInt v })
      (fun _ _ => rfl) ?_ (by decide) fun d => ?_
    · have := h.linkBaud
      omega
    · rw [ofInt32_toNat]
  · obtain ⟨hword, hlen, hval⟩ := strtol_hexByte c.i2cAddr
    have hset (d : CoordConfig) (v : String) : coordConfigSet d "i2c_addr" v =
        (u32Key "i2c_addr" 0x03 0x77 v).map fun v => { d with i2cAddr := UInt8.ofInt v } := rfl
    have hin := h.i2cAddr
    refine reads_word (by decide) hword hlen fun d => ?_
    rw [hset, u32Key, hval]
    dsimp only
    rw [if_neg]
    · show Except.ok { d with i2cAddr := UInt8.ofInt (c.i2cAddr.toNat : Int) } = _
      rw [ofInt8_toNat]
    · rintro (hrest | hlt | hgt)
      · exact hrest rfl
      · omega
      · omega

theorem reads_timing (h : Storable c) :
    (Reads (entry "hello_ms" (toString c.timing.helloMs.toNat).toList)
      fun d => { d with timing := { d.timing with helloMs := c.timing.helloMs } }) ∧
    (Reads (entry "hold_ms" (toString c.timing.holdMs.toNat).toList)
      fun d => { d with timing := { d.timing with holdMs := c.timing.holdMs } }) ∧
    Reads (entry "handover_defer_max_ms" (toString c.timing.handoverDeferMaxMs.toNat).toList)
      fun d => { d with timing := { d.timing with handoverDeferMaxMs := c.timing.handoverDeferMaxMs } } := by
  refine ⟨?_, ?_, ?_⟩
  · refine reads_number (by decide) (g := fun d v => { d with timing := { d.timing with helloMs := UInt16.ofInt v } })
      (fun _ _ => rfl) ?_ (by decide) fun d => ?_
    · have := h.helloMs
      omega
    · rw [ofInt16_toNat]
  · refine reads_number (by decide) (g := fun d v => { d with timing := { d.timing with holdMs := UInt16.ofInt v } })
      (fun _ _ => rfl) ?_ (by decide) fun d => ?_
    · have := h.holdMs
      omega
    · rw [ofInt16_toNat]
  · refine reads_number (by decide)
      (g := fun d v => { d with timing := { d.timing with handoverDeferMaxMs := UInt16.ofInt v } })
      (fun _ _ => rfl) ?_ (by decide) fun d => ?_
    · have := h.handoverDeferMaxMs
      omega
    · rw [ofInt16_toNat]

/-- A number of the pointer's, which is not negative. -/
theorem reads_counts {name : String} (hname : KeyName name ∧ name.toList.length < 128) {f : CoordConfig → CoordConfig}
    {lo hi : Int} {g : CoordConfig → Int → CoordConfig}
    (h : ∀ c v, coordConfigSet c name v = (u32Key name lo hi v).map (g c)) {v : Int}
    (hin : lo ≤ v ∧ v ≤ hi) (hlo : 0 ≤ lo) (hlong : hi ≤ longMax) (hg : ∀ c, g c v = f c) :
    Reads (entry name (toString v).toList) f := by
  obtain ⟨n, rfl⟩ := Int.eq_ofNat_of_zero_le (Int.le_trans hlo hin.1)
  exact reads_number hname h hin hlong hg

theorem reads_pointer (h : Bounded c.pointer) :
    (Reads (entry "pointer_span" (toString c.pointer.span).toList)
      fun d => { d with pointer := { d.pointer with span := c.pointer.span } }) ∧
    (Reads (entry "pointer_push" (toString c.pointer.pushThreshold).toList)
      fun d => { d with pointer := { d.pointer with pushThreshold := c.pointer.pushThreshold } }) ∧
    (Reads (entry "pointer_decay" (toString c.pointer.pushDecayPerMs).toList)
      fun d => { d with pointer := { d.pointer with pushDecayPerMs := c.pointer.pushDecayPerMs } }) ∧
    Reads (entry "pointer_guard" (toString c.pointer.reentryGuard).toList)
      fun d => { d with pointer := { d.pointer with reentryGuard := c.pointer.reentryGuard } } := by
  refine ⟨?_, ?_, ?_, ?_⟩
  · exact reads_counts (by decide) (g := fun d v => { d with pointer := { d.pointer with span := v } }) (fun _ _ => rfl)
      h.span (by decide) (by decide) fun _ => rfl
  · exact reads_counts (by decide) (g := fun d v => { d with pointer := { d.pointer with pushThreshold := v } })
      (fun _ _ => rfl) h.push (by decide) (by decide) fun _ => rfl
  · exact reads_counts (by decide) (g := fun d v => { d with pointer := { d.pointer with pushDecayPerMs := v } })
      (fun _ _ => rfl) h.decay (by decide) (by decide) fun _ => rfl
  · exact reads_counts (by decide) (g := fun d v => { d with pointer := { d.pointer with reentryGuard := v } })
      (fun _ _ => rfl) h.guard (by decide) (by decide) fun _ => rfl

theorem reads_lines (h : Storable c) (hp : Bounded c.pointer) : ∀ x ∈ linesRead c, Reads x.1 x.2 := by
  have hblank : Reads [] id := reads_nothing (by decide) (by decide) (by decide)
  have htitle : Reads "# deskhop coordinator configuration".toList id := reads_nothing (by decide) (by decide) (by decide)
  have hnote : Reads "# written automatically; edits are preserved on next save".toList id :=
    reads_nothing (by decide) (by decide) (by decide)
  obtain ⟨hserial, hi2c, hkey, hctl⟩ := reads_strings h
  obtain ⟨hhead, hheadless, hvertical⟩ := reads_bools c
  obtain ⟨hbaud, haddr⟩ := reads_link h
  obtain ⟨hhello, hhold, hdefer⟩ := reads_timing h
  obtain ⟨hspan, hpush, hdecay, hguard⟩ := reads_pointer hp
  simp only [linesRead, List.forall_mem_cons]
  exact ⟨htitle, hnote, hblank, hserial, hbaud, hhead, hblank, hi2c, haddr, hheadless, hblank, hhello, hhold, hdefer,
    hblank, hspan, hpush, hdecay, hguard, hvertical, hblank, hkey, hctl, fun _ hx => absurd hx List.not_mem_nil⟩

end reads

theorem foldl_loadLine {xs : List (List Char × (CoordConfig → CoordConfig))} (h : ∀ x ∈ xs, Reads x.1 x.2)
    (c : CoordConfig) : ((xs.map Prod.fst).map (· ++ ['\n'])).foldl loadLine c = xs.foldl (fun c x => x.2 c) c := by
  induction xs generalizing c with
  | nil => rfl
  | cons x xs ih =>
    simp only [List.map_cons, List.foldl_cons]
    rw [(h x List.mem_cons_self).read]
    exact ih (fun y hy => h y (List.mem_cons_of_mem x hy)) _

/-- What the reader makes of what the writer wrote. -/
theorem load_saved {c : CoordConfig} (h : Storable c) (hp : Bounded c.pointer) :
    coordConfigLoad coordConfigDefaults (fileOf (coordConfigSave c)) =
      { c with
        serialDev := back c.serialDev, i2cDev := back c.i2cDev, keyPath := back c.keyPath, ctlPath := back c.ctlPath } := by
  have hreads := reads_lines h hp
  have hlines : ∀ l ∈ (linesRead c).map Prod.fst, '\n' ∉ l ∧ l.length + 1 < 512 := fun l hl => by
    obtain ⟨x, hx, rfl⟩ := List.mem_map.mp hl
    exact ⟨(hreads x hx).whole, (hreads x hx).fits⟩
  rw [coordConfigLoad, fileOf_save, lines_flatMap hlines, foldl_loadLine hreads]
  have hlearn := h.learnMs
  obtain ⟨_, _, _, _, _, _, ⟨_, _, learn, _⟩, _, _, _⟩ := c
  obtain rfl : learn = 150 := hlearn
  rfl

/-- No string of the configuration looks like a comment, or ends in what is trimmed. -/
def Plain (c : CoordConfig) : Prop :=
  ∀ s ∈ [c.serialDev, c.i2cDev, c.keyPath, c.ctlPath], '#' ∉ s.toList ∧ s.toList.getLast? ≠ some '\r'

instance (c : CoordConfig) : Decidable (Plain c) := by
  unfold Plain
  infer_instance

theorem back_eq_iff {s : String} (hs : OneWord s.toList) :
    back s = s ↔ '#' ∉ s.toList ∧ s.toList.getLast? ≠ some '\r' := by
  rw [← readBack_eq_iff hs, back, ← String.toList_inj, String.toList_ofList]

/-- A configuration that settings led to comes back from its file as it was exactly where
    its strings are plain. -/
theorem saved_loads_iff {c : CoordConfig} (h : Commanded c) :
    coordConfigLoad coordConfigDefaults (fileOf (coordConfigSave c)) = c ↔ Plain c := by
  have hkept := h.storable
  have hplain : Plain c ↔ back c.serialDev = c.serialDev ∧ back c.i2cDev = c.i2cDev ∧ back c.keyPath = c.keyPath ∧
      back c.ctlPath = c.ctlPath := by
    rw [back_eq_iff hkept.serialDev.1, back_eq_iff hkept.i2cDev.1, back_eq_iff hkept.keyPath.1, back_eq_iff hkept.ctlPath.1,
      Plain]
    simp only [List.forall_mem_cons, List.not_mem_nil, false_imp_iff, implies_true, and_true]
  rw [load_saved hkept h.configurable.bounded, hplain]
  constructor
  · intro heq
    exact ⟨congrArg CoordConfig.serialDev heq, congrArg CoordConfig.i2cDev heq, congrArg CoordConfig.keyPath heq,
      congrArg CoordConfig.ctlPath heq⟩
  · rintro ⟨h1, h2, h3, h4⟩
    rw [h1, h2, h3, h4]

theorem saved_loads_defaults :
    coordConfigLoad coordConfigDefaults (fileOf (coordConfigSave coordConfigDefaults)) = coordConfigDefaults :=
  (saved_loads_iff .defaults).mpr (by decide)

/-- A device whose name has a '#' in it. -/
def numbered : CoordConfig := { coordConfigDefaults with serialDev := "/dev/tty#1" }

theorem numbered_commanded : Commanded numbered := by
  have hset : coordConfigSet coordConfigDefaults "serial_dev" "/dev/tty#1" = .ok numbered := rfl
  exact .set .defaults (by decide) (by decide) hset

/-- It comes back as far as the '#'. -/
theorem saved_loads_cut : ¬ ∀ c, Commanded c → coordConfigLoad coordConfigDefaults (fileOf (coordConfigSave c)) = c := by
  intro h
  have hdev := congrArg CoordConfig.serialDev (h numbered numbered_commanded)
  rw [load_saved numbered_commanded.storable numbered_commanded.configurable.bounded] at hdev
  exact absurd hdev (by decide)

end DeskHop.Chain
