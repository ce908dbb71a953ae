/-
  DeskHop.Client.Naming — where a received file lands (`client/src/main.c`: `on_received`,
  `safe_name`).

  The name comes from another machine. Of whatever bytes it is made, the path the client
  opens is one component under the output directory, and so is every numbered path it goes
  on to where one exists already (`names_stay_inside`).
-/

import DeskHop.Client.Inbound
import Mathlib.Data.List.TakeWhile

namespace DeskHop.Client

open DeskHop.Bulk DeskHop.Lib DeskHop.Wire

/-! ## The paths opened -/

/-- The paths handed to `open`, one after another. -/
def asked (openExcl : List Byte → Opened) : List (List Byte) → List (List Byte)
  | [] => []
  | path :: rest => if openExcl path = .exists then path :: asked openExcl rest else [path]

/-- What is written to is the last path asked for, if that was opened. -/
theorem claimPath_eq (openExcl : List Byte → Opened) (outdir clean : List Byte) :
    claimPath openExcl outdir clean =
      (asked openExcl (candidates outdir clean)).getLast?.filter fun path => openExcl path = .opened := by
  unfold claimPath
  induction candidates outdir clean with
  | nil => rfl
  | cons path rest ih =>
    by_cases h : openExcl path = .exists
    · rw [List.find?_cons_of_neg (by simpa using h), ih, asked, if_pos h]
      cases hrest : asked openExcl rest with
      | nil => simp [Option.filter, h]
      | cons next more => rw [List.getLast?_cons_cons]
    · rw [List.find?_cons_of_pos (by simpa using h), asked, if_neg h]
      rfl

theorem asked_subset (openExcl : List Byte → Opened) (paths : List (List Byte)) : asked openExcl paths ⊆ paths := by
  induction paths with
  | nil => exact List.Subset.refl _
  | cons path rest ih =>
    rw [asked]
    split
    · exact List.cons_subset_cons path ih
    · exact List.cons_subset_cons path (List.nil_subset rest)

/-- The paths `on_received` opens: none for a text, an image or a location. -/
def Inbound.opens (c : Inbound) (result : UInt8) (world : World) : List (List Byte) :=
  if result = dataOk ∧ c.rxKind ≠ dataText ∧ c.rxKind ≠ dataImage ∧ c.rxKind ≠ dataShare then
    asked world.openExcl (candidates c.outdir (safeName (if c.rxName = [] then fallbackName else c.rxName) 64))
  else []

/-! ## Components -/

/-- One name in a directory, made of letters, digits, '.', '-' and '_'. -/
structure Component (comp : List Byte) : Prop where
  nonempty : comp ≠ []
  slash : 47 ∉ comp
  nul : 0 ∉ comp
  dot : comp ≠ [46]
  dots : comp ≠ [46, 46]
  chars : ∀ ch ∈ comp, plain ch = true

theorem Component.mk' {comp : List Byte} (hne : comp ≠ []) (hdot : comp ≠ [46]) (hdots : comp ≠ [46, 46])
    (hplain : ∀ ch ∈ comp, plain ch = true) : Component comp :=
  ⟨hne, fun h => absurd (hplain 47 h) (by decide), fun h => absurd (hplain 0 h) (by decide), hdot, hdots, hplain⟩

/-- A string with room for its terminator is printed whole. -/
theorem printed_whole {cap : Nat} {s : List Byte} (hnul : 0 ∉ s) (hlen : s.length < cap) : printed cap s = s := by
  have hall : s.takeWhile (· ≠ 0) = s :=
    List.takeWhile_eq_self_iff.mpr fun ch hch => decide_eq_true fun h => hnul (h ▸ hch)
  rw [printed, hall, List.take_of_length_le (by omega)]

theorem length_printed_lt {cap : Nat} (hcap : 0 < cap) (s : List Byte) : (printed cap s).length < cap := by
  rw [printed, List.length_take]
  omega

theorem safeName_component (name : List Byte) : Component (safeName name 64) ∧ (safeName name 64).length < 64 := by
  unfold safeName
  dsimp only
  split
  · exact ⟨.mk' (by decide) (by decide) (by decide) (List.all_eq_true.mp (by decide)), by decide⟩
  · rename_i h
    rw [not_or, not_or] at h
    refine ⟨.mk' h.1 h.2.1 h.2.2 fun ch hch => ?_, ?_⟩
    · obtain ⟨raw, -, rfl⟩ := List.mem_map.mp hch
      split
      · assumption
      · decide
    · rw [List.length_map]
      exact length_printed_lt (by decide) name

theorem digits_plain (n : Nat) : ∀ ch ∈ digits n, plain ch = true := by
  intro ch hch
  obtain ⟨c, hc, rfl⟩ := List.mem_map.mp hch
  have hdigit := Nat.isDigit_of_mem_toDigits (by decide) (by decide) hc
  rw [Char.isDigit, Bool.and_eq_true, decide_eq_true_eq, decide_eq_true_eq] at hdigit
  have hval : (UInt8.ofNat c.toNat).toNat = c.toNat := by
    rw [UInt8.toNat_ofNat', Nat.mod_eq_of_lt]
    have := UInt32.le_iff_toNat_le.mp hdigit.2
    exact Nat.lt_of_le_of_lt this (by decide)
  have hlo : 48 ≤ UInt8.ofNat c.toNat := by
    rw [UInt8.le_iff_toNat_le, hval]
    exact UInt32.le_iff_toNat_le.mp hdigit.1
  have hhi : UInt8.ofNat c.toNat ≤ 57 := by
    rw [UInt8.le_iff_toNat_le, hval]
    exact UInt32.le_iff_toNat_le.mp hdigit.2
  simp [plain, hlo, hhi]

theorem length_digits (n : Nat) (h : n < 1000) : 0 < (digits n).length ∧ (digits n).length ≤ 3 := by
  rw [digits, List.length_map]
  exact ⟨Nat.length_toDigits_pos, (Nat.length_toDigits_le_iff (by decide) (by decide)).mpr h⟩

theorem numbered_component {clean : List Byte} (h : Component clean) {n : Nat} (hn : n < 1000) :
    Component (clean ++ 46 :: digits n) := by
  have hclean : 0 < clean.length := List.length_pos_iff.mpr h.nonempty
  have hlen : 3 ≤ (clean ++ 46 :: digits n).length := by
    have := length_digits n hn
    rw [List.length_append, List.length_cons]
    omega
  refine .mk' ?_ ?_ ?_ fun ch hch => ?_
  · intro heq
    rw [heq] at hlen
    cases hlen
  · intro heq
    rw [heq] at hlen
    exact absurd hlen (by decide)
  · intro heq
    rw [heq] at hlen
    exact absurd hlen (by decide)
  · rcases List.mem_append.mp hch with hch | hch
    · exact h.chars ch hch
    · rcases List.mem_cons.mp hch with rfl | hch
      · decide
      · exact digits_plain n ch hch

/-! ## Inside the directory -/

/-- A directory that the client's field holds whole. -/
def FitsDir (outdir : List Byte) : Prop := 0 ∉ outdir ∧ outdir.length < 256

instance (outdir : List Byte) : Decidable (FitsDir outdir) := by
  unfold FitsDir
  infer_instance

def Inside (outdir path : List Byte) : Prop := ∃ comp, path = outdir ++ 47 :: comp ∧ Component comp

theorem printed_inside {outdir comp : List Byte} (hdir : FitsDir outdir) (h : Component comp) (hlen : comp.length < 128) :
    Inside outdir (printed 512 (outdir ++ 47 :: comp)) := by
  refine ⟨comp, printed_whole ?_ ?_, h⟩
  · rw [List.mem_append, List.mem_cons]
    rintro (hd | hd | hd)
    · exact hdir.1 hd
    · exact absurd hd (by decide)
    · exact h.nul hd
  · have := hdir.2
    rw [List.length_append, List.length_cons]
    omega

theorem candidates_inside {outdir clean : List Byte} (hdir : FitsDir outdir) (h : Component clean)
    (hlen : clean.length < 64) :
    ∀ path ∈ candidates outdir clean, Inside outdir path := by
  intro path hpath
  rcases List.mem_cons.mp hpath with rfl | hpath
  · exact printed_inside hdir h (by omega)
  · obtain ⟨n, hn, rfl⟩ := List.mem_map.mp hpath
    have hn : n < 1000 := by
      have := List.mem_range'_1.mp hn
      omega
    have hdigits := (length_digits n hn).2
    have hshort : (clean ++ 46 :: digits n).length < 128 := by
      rw [List.length_append, List.length_cons]
      omega
    rw [List.append_assoc]
    exact printed_inside hdir (numbered_component h hn) hshort

theorem opens_inside {c : Inbound} (hdir : FitsDir c.outdir) (result : UInt8) (world : World) :
    ∀ path ∈ c.opens result world, Inside c.outdir path := by
  intro path hpath
  unfold Inbound.opens at hpath
  split at hpath
  · obtain ⟨hclean, hlen⟩ := safeName_component (if c.rxName = [] then fallbackName else c.rxName)
    exact candidates_inside hdir hclean hlen path (asked_subset _ _ hpath)
  · cases hpath

/-! ## Over a run -/

theorem onOffer_outdir (c : Inbound) (stream kind : UInt8) (total : UInt32) (name : List Byte)
    (heap : Option (Nat → Byte)) : (onOffer c stream kind total name heap).2.outdir = c.outdir := by
  unfold onOffer
  dsimp only
  repeat' split
  all_goals rfl

theorem onChunk_outdir (c : Inbound) (stream : UInt8) (offset : UInt32) (data : List Byte) :
    (onChunk c stream offset data).outdir = c.outdir := by
  unfold onChunk
  dsimp only
  repeat' split
  all_goals rfl

theorem onReceived_outdir (c : Inbound) (stream result : UInt8) (world : World) :
    (onReceived c stream result world).2.outdir = c.outdir := by
  unfold onReceived
  split
  · rfl
  · exact (Desk.remember_same c world).2.2

theorem Desk.step_outdir (w : Desk) (e : Hook) : (w.step e).client.outdir = w.client.outdir := by
  cases e with
  | offer stream peer kind total name heap =>
    have h := onOffer_outdir w.client stream kind total name heap
    simp only [Desk.step]
    split
    · exact h
    · exact h
  | chunk stream offset data => exact onChunk_outdir w.client stream offset data
  | received stream result world => exact onReceived_outdir w.client stream result world

/-- What is written went to a path that was opened. -/
theorem file_opened {c : Inbound} {stream result : UInt8} {world : World} {path bytes : List Byte}
    (h : (onReceived c stream result world).1 = some (.file path bytes)) :
    path ∈ c.opens result world ∧ world.openExcl path = .opened := by
  unfold onReceived at h
  split at h
  · cases h
  rename_i hok
  unfold Content.act at h
  split at h
  · cases h
  rename_i htext
  split at h
  · cases h
  rename_i himage
  split at h
  · cases h
  rename_i hshare
  obtain ⟨path', hclaim, heq⟩ := Option.map_eq_some_iff.mp h
  cases heq
  rw [claimPath_eq] at hclaim
  obtain ⟨hlast, hopened⟩ := Option.filter_eq_some_iff.mp hclaim
  rw [Inbound.opens, if_pos ⟨not_not.mp hok, htext, himage, hshare⟩]
  exact ⟨List.mem_of_getLast? hlast, of_decide_eq_true hopened⟩

/-- Whatever has been offered, by whatever name, and whatever came of it: what the client
    opens is the output directory, a slash and one component, and what it writes to is one
    of the paths it opened. -/
theorem names_stay_inside {outdir : List Byte} (hdir : FitsDir outdir) {w : Desk}
    (h : Reach (fun w => w.client.outdir = outdir) (fun _ _ => True) Desk.step w) (stream result : UInt8) (world : World) :
    (∀ path ∈ w.client.opens result world, Inside outdir path) ∧
      ∀ path bytes, (onReceived w.client stream result world).1 = some (.file path bytes) →
        path ∈ w.client.opens result world ∧ world.openExcl path = .opened := by
  have hsame : w.client.outdir = outdir :=
    h.inv (I := fun w : Desk => w.client.outdir = outdir) (fun _ h0 => h0) fun w e hw _ => (w.step_outdir e).trans hw
  subst hsame
  exact ⟨opens_inside hdir result world, fun _ _ => file_opened⟩

/-- "in". -/
def sampleDir : List Byte := [105, 110]

/-- A file by the name "../../x", of two bytes. -/
def climbing : List Hook :=
  [.offer 4 1 dataFile 2 [46, 46, 47, 46, 46, 47, 120] (some fun _ => 0), .chunk 4 0 [104, 105]]

def sampleReceiver : Desk := ⟨⟨true, sampleDir, [], 0, 0, 0, [], none⟩, fun _ => none, []⟩

/-- It is opened as "in/.._.._x". -/
theorem names_stay_inside_of_a_climb : Inside sampleDir (sampleDir ++ [47, 46, 46, 95, 46, 46, 95, 120]) := by
  have hinit : Reach (fun w => w.client.outdir = sampleDir) (fun _ _ => True) Desk.step sampleReceiver := .init rfl
  have hreach := Reach.run_free (fun _ _ => trivial) hinit climbing
  exact (names_stay_inside (by decide) hreach 4 dataOk Desk.sampleWorld).1 _ (by decide +kernel)

end DeskHop.Client
