/-
  DeskHop.Lib.Lines — a text read line by line into a buffer, and trimmed.

  A line ends with its newline, where the buffer is full or where the text ends
  (`lines`). A text written as lines that fit the buffer is read as those lines
  (`lines_flatMap`). Trimming the end stops at the last element that stays
  (`rdropWhile_append_cons`).
-/

import Mathlib.Data.List.DropRight

namespace DeskHop.Lib

universe u

variable {α : Type u}

/-! ## Lines -/

section lines

variable [DecidableEq α] (newline : α) (size : Nat)

/-- What is left of a text, where the buffer holds `held` of the line so far and a
    terminator needs room beside it. -/
def lines (held : List α) : List α → List (List α)
  | [] => if held = [] then [] else [held]
  | ch :: rest =>
    if ch = newline ∨ size ≤ held.length + 2 then (held ++ [ch]) :: lines [] rest else lines (held ++ [ch]) rest

variable {newline size}

theorem lines_append {held l : List α} (hl : newline ∉ l) (hfit : held.length + l.length + 1 < size) (rest : List α) :
    lines newline size held (l ++ newline :: rest) = (held ++ l ++ [newline]) :: lines newline size [] rest := by
  induction l generalizing held with
  | nil =>
    rw [List.nil_append, lines, if_pos (Or.inl rfl), List.append_nil]
  | cons ch l ih =>
    obtain ⟨hch, hl⟩ := not_or.mp (mt List.mem_cons.mpr hl)
    rw [List.length_cons] at hfit
    have hgo : ¬ (ch = newline ∨ size ≤ held.length + 2) := by
      rintro (h | h)
      · exact hch h.symm
      · omega
    have hlen : (held ++ [ch]).length = held.length + 1 := List.length_append
    rw [List.cons_append, lines, if_neg hgo, ih hl (by omega), List.append_assoc held]
    rfl

/-- Lines that fit the buffer are read as they were written. -/
theorem lines_flatMap {ls : List (List α)} (hls : ∀ l ∈ ls, newline ∉ l ∧ l.length + 1 < size) :
    lines newline size [] (ls.flatMap (· ++ [newline])) = ls.map (· ++ [newline]) := by
  induction ls with
  | nil => rfl
  | cons l ls ih =>
    obtain ⟨hl, hfit⟩ := hls l List.mem_cons_self
    rw [List.flatMap_cons, List.append_assoc, List.singleton_append, lines_append hl (by simpa using hfit),
      ih fun l' hl' => hls l' (List.mem_cons_of_mem l hl')]
    rfl

end lines

/-! ## Trimming the end -/

section trim

variable {p : α → Bool}

theorem rdropWhile_append_cons {a : α} (ha : p a = false) (l t : List α) :
    (l ++ a :: t).rdropWhile p = l ++ a :: t.rdropWhile p := by
  induction t using List.reverseRecOn with
  | nil => exact List.rdropWhile_concat_neg p l a (by rw [ha]; exact Bool.false_ne_true)
  | append_singleton t b ih =>
    have hassoc : l ++ a :: (t ++ [b]) = (l ++ a :: t) ++ [b] := by simp
    rw [hassoc]
    by_cases hb : p b = true
    · rw [List.rdropWhile_concat_pos p _ b hb, List.rdropWhile_concat_pos p _ b hb, ih]
    · rw [List.rdropWhile_concat_neg p _ b hb, List.rdropWhile_concat_neg p _ b hb, hassoc]

theorem rdropWhile_cons (a : α) (t : List α) :
    (a :: t).rdropWhile p = if p a = true ∧ t.rdropWhile p = [] then [] else a :: t.rdropWhile p := by
  cases ha : p a with
  | false =>
    rw [if_neg fun h => Bool.noConfusion h.1]
    exact rdropWhile_append_cons ha [] t
  | true =>
    induction t using List.reverseRecOn with
    | nil =>
      rw [if_pos ⟨rfl, List.rdropWhile_nil p⟩]
      exact List.rdropWhile_concat_pos p [] a ha
    | append_singleton t b ih =>
      by_cases hb : p b = true
      · rw [List.rdropWhile_concat_pos p _ b hb, ← ih, ← List.cons_append, List.rdropWhile_concat_pos p _ b hb]
      · rw [List.rdropWhile_concat_neg p _ b hb, if_neg (by simp), ← List.cons_append, List.rdropWhile_concat_neg p _ b hb]

end trim

end DeskHop.Lib
