/-
  DeskHop.Lib.Lane — a row of first-in-first-out wires that all lead one way.

  Wire `q` leads from place `q` to place `q + 1`. Messages are put at the end of a wire,
  taken from its front, and passed on from one wire to the next. `heading w k` is
  everything on its way to place `k`, nearest first.

  Proved: a message that is passed on keeps its position among those heading to any
  place further down (`heading_pass`), and one put on at `q` comes behind whatever left
  `q` before it and ahead of all that has yet to reach `q` (`heading_put`). Whether two
  messages meet a reader in the order in which they were sent, whoever sent them, is
  read off these two.
-/

import Mathlib.Data.List.Basic
import Mathlib.Logic.Function.Basic

namespace DeskHop.Lib

universe u v

variable {M : Type u} {B : Type v}

/-- What is on its way to place `k`, nearest first. -/
def heading (w : Nat → List M) : Nat → List M
  | 0 => []
  | k + 1 => w k ++ heading w k

/-- Put messages on the wire that leaves `q`. -/
def put (w : Nat → List M) (q : Nat) (ms : List M) : Nat → List M := Function.update w q (w q ++ ms)

/-- Place `q + 1` has taken the front of wire `q`, of which `rest` is left, and passes
    `on` to the next. -/
def pass (w : Nat → List M) (q : Nat) (rest : List M) (on : Option M) : Nat → List M :=
  put (Function.update w q rest) (q + 1) on.toList

/-! ## Wire by wire -/

theorem mem_heading {w : Nat → List M} {m : M} {k : Nat} : m ∈ heading w k ↔ ∃ q < k, m ∈ w q := by
  induction k with
  | zero => simp [heading]
  | succ k ih =>
    rw [heading, List.mem_append, ih]
    constructor
    · rintro (h | ⟨q, hq, h⟩)
      · exact ⟨k, by omega, h⟩
      · exact ⟨q, by omega, h⟩
    · rintro ⟨q, hq, h⟩
      rcases Nat.lt_succ_iff_lt_or_eq.mp hq with hlt | rfl
      · exact Or.inr ⟨q, hlt, h⟩
      · exact Or.inl h

theorem mem_put {w : Nat → List M} {q j : Nat} {ms : List M} {m : M} (h : m ∈ put w q ms j) :
    m ∈ w j ∨ (j = q ∧ m ∈ ms) := by
  by_cases hj : j = q
  · subst hj
    rw [put, Function.update_self, List.mem_append] at h
    exact h.imp_right fun h => ⟨rfl, h⟩
  · rw [put, Function.update_of_ne hj] at h
    exact Or.inl h

theorem put_nil (w : Nat → List M) (q : Nat) : put w q [] = w := by
  rw [put, List.append_nil, Function.update_eq_self]

theorem mem_pass {w : Nat → List M} {q j : Nat} {f : M} {rest : List M} {on : Option M} {m : M} (hw : w q = f :: rest)
    (h : m ∈ pass w q rest on j) : m ∈ w j ∨ (j = q + 1 ∧ on = some m) := by
  rcases mem_put h with hm | ⟨hj, hm⟩
  · by_cases hj : j = q
    · subst hj
      rw [Function.update_self] at hm
      exact Or.inl (hw ▸ List.mem_cons_of_mem _ hm)
    · rw [Function.update_of_ne hj] at hm
      exact Or.inl hm
  · exact Or.inr ⟨hj, Option.mem_toList.mp hm⟩

/-! ## In order -/

theorem heading_congr {w w' : Nat → List M} {k : Nat} (h : ∀ j < k, w' j = w j) : heading w' k = heading w k := by
  induction k with
  | zero => rfl
  | succ k ih => rw [heading, heading, h k (by omega), ih fun j hj => h j (by omega)]

/-- What is heading to `k` is what has passed `q` followed by what has not. -/
theorem heading_split (w : Nat → List M) {q k : Nat} (h : q ≤ k) :
    ∃ u, ∀ w' : Nat → List M, (∀ j, q ≤ j → w' j = w j) → heading w' k = u ++ heading w' q := by
  induction k with
  | zero =>
    obtain rfl : q = 0 := by omega
    exact ⟨[], fun _ _ => rfl⟩
  | succ k ih =>
    rcases Nat.lt_or_ge k q with hlt | hge
    · obtain rfl : q = k + 1 := by omega
      exact ⟨[], fun _ _ => rfl⟩
    · obtain ⟨u, hu⟩ := ih hge
      refine ⟨w k ++ u, fun w' hw => ?_⟩
      rw [heading, hu w' hw, hw k hge, List.append_assoc]

theorem heading_put_le (w : Nat → List M) {q k : Nat} (ms : List M) (h : k ≤ q) : heading (put w q ms) k = heading w k :=
  heading_congr fun j hj => by rw [put, Function.update_of_ne (by omega)]

theorem heading_put (w : Nat → List M) {q k : Nat} (ms : List M) (h : q < k) :
    ∃ u, heading w k = u ++ heading w q ∧ heading (put w q ms) k = u ++ (ms ++ heading w q) := by
  obtain ⟨u, hu⟩ := heading_split w (Nat.succ_le_of_lt h)
  have hput : heading (put w q ms) (q + 1) = w q ++ (ms ++ heading w q) := by
    rw [heading, heading_put_le w ms (Nat.le_refl q), put, Function.update_self, List.append_assoc]
  refine ⟨u ++ w q, ?_, ?_⟩
  · rw [hu w fun _ _ => rfl, heading, List.append_assoc]
  · rw [hu (put w q ms) fun j hj => by rw [put, Function.update_of_ne (by omega)], hput, List.append_assoc]

theorem heading_pass_le (w : Nat → List M) {q k : Nat} (rest : List M) (on : Option M) (h : k ≤ q) :
    heading (pass w q rest on) k = heading w k :=
  (heading_put_le _ _ (by omega)).trans (heading_congr fun j hj => Function.update_of_ne (by omega) _ _)

/-- The place reached has one message less to come. -/
theorem heading_pass_here {w : Nat → List M} {q : Nat} {f : M} {rest : List M} (on : Option M) (hw : w q = f :: rest) :
    heading w (q + 1) = f :: heading (pass w q rest on) (q + 1) := by
  have hq : heading (Function.update w q rest) q = heading w q :=
    heading_congr fun j hj => Function.update_of_ne (by omega) _ _
  rw [pass, heading_put_le _ _ (Nat.le_refl _), heading, heading, Function.update_self, hq, hw]
  rfl

/-- Further down, what is passed on stands where the message stood. -/
theorem heading_pass {w : Nat → List M} {q k : Nat} {f : M} {rest : List M} (on : Option M) (hw : w q = f :: rest)
    (h : q + 1 < k) : ∃ u v, heading w k = u ++ f :: v ∧ heading (pass w q rest on) k = u ++ (on.toList ++ v) := by
  have hhere := heading_pass_here on hw
  rw [pass, heading_put_le _ _ (Nat.le_refl _)] at hhere
  obtain ⟨u, hu, hput⟩ := heading_put (Function.update w q rest) on.toList h
  refine ⟨u, _, ?_, hput⟩
  obtain ⟨x, hx⟩ := heading_split w (Nat.le_of_lt h)
  have h1 := hx (Function.update w q rest) fun j hj => Function.update_of_ne (by omega) _ _
  -- the same messages have passed the place, whatever is left on the wire before it
  have hux : u = x := List.append_cancel_right (hu.symm.trans h1)
  rw [hx w fun _ _ => rfl, hhere, hux]

/-! ## What a reader picks out -/

theorem filterMap_put (w : Nat → List M) (q k : Nat) {ms : List M} {sel : M → Option B} (h : ∀ m ∈ ms, sel m = none) :
    (heading (put w q ms) k).filterMap sel = (heading w k).filterMap sel := by
  rcases Nat.lt_or_ge q k with hlt | hge
  · obtain ⟨u, h1, h2⟩ := heading_put w ms hlt
    rw [h1, h2, List.filterMap_append, List.filterMap_append, List.filterMap_append, List.filterMap_eq_nil_iff.mpr h,
      List.nil_append]
  · rw [heading_put_le w ms hge]

/-- Where nothing of what is picked has yet to reach `q`, what is put there comes last. -/
theorem filterMap_put_last (w : Nat → List M) {q k : Nat} (ms : List M) {sel : M → Option B} (hlt : q < k)
    (h : ∀ m ∈ heading w q, sel m = none) :
    (heading (put w q ms) k).filterMap sel = (heading w k).filterMap sel ++ ms.filterMap sel := by
  obtain ⟨u, h1, h2⟩ := heading_put w ms hlt
  rw [h1, h2, List.filterMap_append, List.filterMap_append, List.filterMap_append, List.filterMap_eq_nil_iff.mpr h,
    List.append_nil, List.append_nil]

/-- A message that stops at the place it reaches must not be one that is picked further
    down. -/
theorem filterMap_pass {w : Nat → List M} {q k : Nat} {f : M} {rest : List M} {on : Option M} {sel : M → Option B}
    (hw : w q = f :: rest) (hk : k ≠ q + 1) (hon : on.toList.filterMap sel = [f].filterMap sel) :
    (heading (pass w q rest on) k).filterMap sel = (heading w k).filterMap sel := by
  rcases Nat.lt_or_ge q k with hlt | hge
  · obtain ⟨u, v, h1, h2⟩ := heading_pass on hw (by omega : q + 1 < k)
    have hcons : u ++ f :: v = u ++ ([f] ++ v) := rfl
    rw [h1, h2, hcons]
    simp only [List.filterMap_append, hon]
  · rw [heading_pass_le w rest on hge]

/-- Whatever becomes of the message, what is picked keeps its order. -/
theorem sublist_pass {w : Nat → List M} {q : Nat} (k : Nat) {f : M} {rest : List M} {on : Option M} {sel : M → Option B}
    (hw : w q = f :: rest) (hon : (on.toList.filterMap sel).Sublist ([f].filterMap sel)) :
    ((heading (pass w q rest on) k).filterMap sel).Sublist ((heading w k).filterMap sel) := by
  rcases Nat.lt_trichotomy k (q + 1) with hlt | rfl | hgt
  · rw [heading_pass_le w rest on (by omega)]
  · rw [heading_pass_here on hw]
    exact (List.sublist_cons_self _ _).filterMap sel
  · obtain ⟨u, v, h1, h2⟩ := heading_pass on hw hgt
    have hcons : u ++ f :: v = u ++ ([f] ++ v) := rfl
    rw [h1, h2, hcons]
    simp only [List.filterMap_append]
    exact (List.Sublist.refl _).append (hon.append (List.Sublist.refl _))

/-! ## The last message on its way -/

/-- The last of the list, if there is one, is `m`. -/
def LastIs (m : B) (l : List B) : Prop := ∀ b ∈ l.getLast?, b = m

theorem LastIs.insert {m : B} {u w v : List B} (h : LastIs m (u ++ v)) (hw : ∀ b ∈ w, b = m) : LastIs m (u ++ w ++ v) := by
  intro b hb
  rw [List.getLast?_append, List.getLast?_append] at hb
  have hu := h b
  rw [List.getLast?_append] at hu
  cases hv : v.getLast? with
  | some c =>
    rw [hv] at hb hu
    exact hu hb
  | none =>
    rw [hv] at hb hu
    cases hwl : w.getLast? with
    | some c =>
      rw [hwl] at hb
      exact hw b (List.mem_of_getLast? (hwl.trans hb))
    | none =>
      rw [hwl] at hb
      exact hu hb

theorem LastIs.of_append {m : B} {u v : List B} (h : LastIs m (u ++ v)) : LastIs m v := by
  intro b hb
  refine h b ?_
  rw [List.getLast?_append, Option.mem_def.mp hb]
  rfl

end DeskHop.Lib
