/-
  DeskHop.Lib.Window — go-back-N with a cumulative acknowledgement now and then, over a
  channel that keeps the order and loses nothing.

  There are `total` items. The sender keeps at most `window` of them unacknowledged. The
  receiver takes items in order, acknowledges each multiple of `every`, and may repeat
  itself when an item is out of order. The sender goes back to any acknowledgement that is
  behind what it has sent, once for each position (`Flow.takeAck`), and may start again
  from where it is acknowledged at any time (`Flow.restart`).

  Proved, with `0 < every ≤ window`: the item the receiver waits for is on its way, or
  what it has to say of the items it took (`Sound.expected_mem`, `Sound.news`), and each
  message that arrives from that direction brings the end nearer (`Sound.takeItem_rank`,
  `Sound.takeAck_rank`). No item is sent twice if the window is one item or no
  acknowledgement comes before the last item (`Plain`); else the first acknowledgement
  has the sender go back (`Early.goes_back`).
-/

import Mathlib.Data.List.Basic
import Mathlib.Data.List.Range
import Mathlib.Data.Prod.Lex

namespace DeskHop.Lib

/-- The sender's position, the receiver's, and what is between them, next one first. -/
structure Flow where
  acked : Nat
  next : Nat
  /-- Where the sender has gone back to, if to where it is acknowledged. -/
  rewound : Option Nat
  expected : Nat
  items : List Nat
  acks : List Nat
  /-- How often the sender has gone back. -/
  rewinds : Nat
  /-- All that has been sent, first one first. -/
  log : List Nat
  deriving DecidableEq

namespace Flow

/-- Where the window ends. -/
def limit (total window : Nat) (x : Flow) : Nat := max x.next (min total (x.acked + window))

/-- What the window still lets out. -/
def burst (total window : Nat) (x : Flow) : List Nat := List.range' x.next (x.limit total window - x.next)

def pump (total window : Nat) (x : Flow) : Flow :=
  { x with
    next := x.limit total window
    items := x.items ++ x.burst total window
    log := x.log ++ x.burst total window }

/-- The sender is about to begin; the receiver may have repeated itself before. -/
def poised (repeats : Nat) : Flow := ⟨0, 0, none, 0, [], List.replicate repeats 0, 0, []⟩

def start (total window repeats : Nat) : Flow := pump total window (poised repeats)

/-- The acknowledgement that is due when `n` items have been taken. -/
def due (total every n : Nat) : List Nat := if n < total ∧ n % every = 0 then [n] else []

/-- The receiver repeats itself. -/
def repeated (x : Flow) : Flow := { x with acks := x.acks ++ [x.expected] }

/-- Item `q` arrives; `echo`: if it is out of order, the receiver repeats itself. -/
def arrive (total every : Nat) (echo : Bool) (q : Nat) (x : Flow) : Flow :=
  if total ≤ x.expected then x
  else if q = x.expected then { x with expected := x.expected + 1, acks := x.acks ++ due total every (x.expected + 1) }
  else if echo then x.repeated
  else x

def takeItem (total every : Nat) (echo : Bool) (x : Flow) : Flow :=
  match x.items with
  | [] => x
  | q :: rest => arrive total every echo q { x with items := rest }

theorem takeItem_cons {total every q : Nat} {rest : List Nat} {x : Flow} (h : x.items = q :: rest) (echo : Bool) :
    x.takeItem total every echo = arrive total every echo q { x with items := rest } := by
  rw [takeItem, h]

/-- Forward to an acknowledgement. -/
def advance (n : Nat) (x : Flow) : Flow := if x.acked < n then { x with acked := n, rewound := none } else x

/-- Back to one that is behind, but not twice to the same. -/
def goBack (n : Nat) (x : Flow) : Flow :=
  if n < x.next ∧ x.rewound ≠ some n then { x with next := n, rewound := some n, rewinds := x.rewinds + 1 } else x

def steer (n : Nat) (x : Flow) : Flow := goBack n (advance n x)

/-- Only the sender's position changes. -/
theorem steer_keeps (n : Nat) (x : Flow) :
    (x.steer n).items = x.items ∧ (x.steer n).expected = x.expected ∧ (x.steer n).acks = x.acks ∧
      (x.steer n).log = x.log := by
  unfold steer goBack advance
  split <;> split <;> exact ⟨rfl, rfl, rfl, rfl⟩

def takeAck (total window : Nat) (x : Flow) : Flow :=
  match x.acks with
  | [] => x
  | n :: rest => pump total window (steer n { x with acks := rest })

theorem takeAck_cons {total window n : Nat} {rest : List Nat} {x : Flow} (h : x.acks = n :: rest) :
    x.takeAck total window = pump total window (steer n { x with acks := rest }) := by
  rw [takeAck, h]

/-- Back to where the sender is acknowledged, whatever it has gone back to before. -/
def afresh (x : Flow) : Flow := { x with next := x.acked, rewound := none, rewinds := x.rewinds + 1 }

def restart (total window : Nat) (x : Flow) : Flow := pump total window x.afresh

/-! ## What the items on the way bring -/

/-- Where a receiver that expects `e` gets to with these items. -/
def drained (e : Nat) (items : List Nat) : Nat := items.foldl (fun e q => if q = e then e + 1 else e) e

theorem drained_cons (e q : Nat) (rest : List Nat) :
    drained e (q :: rest) = drained (if q = e then e + 1 else e) rest := rfl

theorem le_drained (e : Nat) (items : List Nat) : e ≤ drained e items := by
  induction items generalizing e with
  | nil => exact Nat.le_refl e
  | cons q rest ih =>
    rw [drained_cons]
    split
    · have h := ih (e + 1)
      omega
    · exact ih e

theorem drained_append (e : Nat) (xs ys : List Nat) : drained e (xs ++ ys) = drained (drained e xs) ys :=
  List.foldl_append

/-- A run of items takes a receiver that has all before it to its end. -/
theorem drained_range' {e n : Nat} (h : n ≤ e) (m : Nat) : n + m ≤ drained e (List.range' n m) := by
  induction m generalizing e n with
  | zero => exact h
  | succ m ih =>
    rw [List.range'_succ, drained_cons]
    by_cases hq : n = e
    · have h1 := ih (show n + 1 ≤ e + 1 by omega)
      rw [if_pos hq]
      omega
    · have h1 := ih (show n + 1 ≤ e by omega)
      rw [if_neg hq]
      omega

/-! ## The invariant -/

/-- `total` items, of which at most `window` are unacknowledged, are acknowledged by
    multiples of `every`. Here `next` is to be moved up to the end of the window. -/
structure Ready (total window every : Nat) (x : Flow) : Prop where
  acked_le : x.acked ≤ x.expected
  expected_le : x.expected ≤ min total (x.acked + window)
  acked_next : x.acked ≤ x.next
  next_le : x.next ≤ min total (x.acked + window)
  items : ∀ q ∈ x.items, q < min total (x.acked + window)
  /-- Everything before `next` is on its way, or there. -/
  reach : x.next ≤ drained x.expected x.items
  acks : ∀ n ∈ x.acks, x.acked ≤ n ∧ n ≤ x.expected ∧ (n = 0 ∨ n < total)
  sorted : x.acks.Pairwise (· ≤ ·)
  /-- Every acknowledgement due is on its way, or there. -/
  due : ∀ m, 0 < m → m < total → m % every = 0 → m ≤ x.expected → m ≤ x.acked ∨ ∃ n ∈ x.acks, m ≤ n
  rewound : ∀ n ∈ x.rewound, n = x.acked ∧ (n = 0 ∨ n < total)

/-- The window is filled. -/
structure Sound (total window every : Nat) (x : Flow) : Prop extends Ready total window every x where
  next : x.next = min total (x.acked + window)

section sound

variable {total window every : Nat} {x : Flow}

theorem Ready.limit (h : Ready total window every x) : x.limit total window = min total (x.acked + window) :=
  Nat.max_eq_right h.next_le

theorem Ready.pump (h : Ready total window every x) : Sound total window every (x.pump total window) := by
  have hlimit := h.limit
  have hnext := h.next_le
  have hacked := h.acked_next
  refine ⟨⟨h.acked_le, h.expected_le, ?_, Nat.le_of_eq hlimit, fun q hq => ?_, ?_, h.acks, h.sorted, h.due, h.rewound⟩,
    hlimit⟩
  · show x.acked ≤ x.limit total window
    omega
  · rcases List.mem_append.mp hq with hq | hq
    · exact h.items q hq
    · rw [burst, List.mem_range'_1] at hq
      show q < min total (x.acked + window)
      omega
  · have hrun := drained_range' h.reach (x.limit total window - x.next)
    show x.limit total window ≤ drained x.expected (x.items ++ x.burst total window)
    rw [drained_append, burst]
    omega

theorem ready_poised (total window every repeats : Nat) : Ready total window every (poised repeats) := by
  refine ⟨Nat.le_refl 0, Nat.zero_le _, Nat.le_refl 0, Nat.zero_le _, fun q hq => (by cases hq), Nat.zero_le _,
    fun n hn => ?_, ?_, fun m hm _ _ hle => ?_, fun n hn => (by cases hn)⟩
  · rw [List.eq_of_mem_replicate hn]
    exact ⟨Nat.le_refl 0, Nat.le_refl 0, Or.inl rfl⟩
  · exact List.pairwise_replicate.mpr (Or.inr (Nat.le_refl 0))
  · exact absurd hle (by show ¬ m ≤ 0; omega)

theorem sound_start (total window every repeats : Nat) : Sound total window every (start total window repeats) :=
  (ready_poised total window every repeats).pump

/-- An acknowledgement of everything taken so far comes last. -/
theorem pairwise_snoc {acks : List Nat} {e e' : Nat} (h : acks.Pairwise (· ≤ ·)) (hle : ∀ n ∈ acks, n ≤ e)
    (he : e ≤ e') : (acks ++ [e']).Pairwise (· ≤ ·) := by
  refine List.pairwise_append.mpr ⟨h, List.pairwise_singleton _ _, fun n hn p hp => ?_⟩
  have := hle n hn
  rw [List.mem_singleton] at hp
  omega

theorem Sound.repeated (h : Sound total window every x) (hsome : x.expected = 0 ∨ x.expected < total) :
    Sound total window every x.repeated := by
  refine ⟨⟨h.acked_le, h.expected_le, h.acked_next, h.next_le, h.items, h.reach, fun n hn => ?_,
    pairwise_snoc h.sorted (fun n hn => (h.acks n hn).2.1) (Nat.le_refl _), fun m hpos hlt hm hle => ?_, h.rewound⟩,
    h.next⟩
  · rcases List.mem_append.mp hn with hn | hn
    · exact h.acks n hn
    · rw [List.mem_singleton.mp hn]
      exact ⟨h.acked_le, Nat.le_refl _, hsome⟩
  · exact (h.due m hpos hlt hm hle).imp_right fun ⟨n, hn, hmn⟩ => ⟨n, List.mem_append_left _ hn, hmn⟩

theorem Sound.afresh (h : Sound total window every x) : Ready total window every x.afresh := by
  have hacked := h.acked_le
  have hexp := h.expected_le
  have hdrained := le_drained x.expected x.items
  exact ⟨hacked, hexp, Nat.le_refl _, by show x.acked ≤ min total (x.acked + window); omega, h.items,
    by show x.acked ≤ drained x.expected x.items; omega, h.acks, h.sorted, h.due, fun n hn => by cases hn⟩

theorem Sound.restart (h : Sound total window every x) : Sound total window every (x.restart total window) :=
  h.afresh.pump

/-- The item the receiver waits for. -/
theorem Sound.taken {rest : List Nat} (h : Sound total window every x) (hitems : x.items = x.expected :: rest) :
    Sound total window every { x with
      items := rest, expected := x.expected + 1, acks := x.acks ++ due total every (x.expected + 1) } := by
  have hreach := h.reach
  rw [hitems, drained_cons, if_pos rfl] at hreach
  have hmem : ∀ p ∈ rest, p < min total (x.acked + window) := fun p hp =>
    h.items p (hitems ▸ List.mem_cons_of_mem _ hp)
  have hq : x.expected < min total (x.acked + window) := h.items _ (hitems ▸ List.mem_cons_self)
  have hle : ∀ n ∈ x.acks, n ≤ x.expected := fun n hn => (h.acks n hn).2.1
  refine ⟨⟨Nat.le_succ_of_le h.acked_le, hq, h.acked_next, h.next_le, hmem, hreach, fun n hn => ?_, ?_,
    fun m hpos hlt hm hle => ?_, h.rewound⟩, h.next⟩
  · show x.acked ≤ n ∧ n ≤ x.expected + 1 ∧ (n = 0 ∨ n < total)
    have hacked := h.acked_le
    rcases List.mem_append.mp hn with hn | hn
    · have := h.acks n hn
      omega
    · unfold Flow.due at hn
      split at hn
      · rw [List.mem_singleton] at hn
        omega
      · cases hn
  · unfold Flow.due
    split
    · exact pairwise_snoc h.sorted hle (Nat.le_succ _)
    · rw [List.append_nil]
      exact h.sorted
  · have hle' : m ≤ x.expected + 1 := hle
    by_cases hlast : m = x.expected + 1
    · refine Or.inr ⟨x.expected + 1, List.mem_append_right _ ?_, hle'⟩
      rw [Flow.due, if_pos ⟨hlast ▸ hlt, hlast ▸ hm⟩]
      exact List.mem_singleton_self _
    · exact (h.due m hpos hlt hm (by omega)).imp_right fun ⟨n, hn, hmn⟩ => ⟨n, List.mem_append_left _ hn, hmn⟩

/-- Any other item. -/
theorem Sound.dropped {q : Nat} {rest : List Nat} (h : Sound total window every x) (hitems : x.items = q :: rest)
    (hq : q ≠ x.expected) : Sound total window every { x with items := rest } := by
  have hreach := h.reach
  rw [hitems, drained_cons, if_neg hq] at hreach
  exact ⟨⟨h.acked_le, h.expected_le, h.acked_next, h.next_le,
    fun p hp => h.items p (hitems ▸ List.mem_cons_of_mem q hp), hreach, h.acks, h.sorted, h.due, h.rewound⟩, h.next⟩

theorem Sound.lt_total {q : Nat} {rest : List Nat} (h : Sound total window every x) (hitems : x.items = q :: rest) :
    q < min total (x.acked + window) := h.items q (hitems ▸ List.mem_cons_self)

theorem Sound.takeItem (h : Sound total window every x) (echo : Bool) :
    Sound total window every (x.takeItem total every echo) := by
  unfold Flow.takeItem
  cases hitems : x.items with
  | nil => exact h
  | cons q rest =>
    have hq := h.lt_total hitems
    simp only [arrive]
    by_cases hover : total ≤ x.expected
    · rw [if_pos hover]
      exact h.dropped hitems (by omega)
    rw [if_neg hover]
    by_cases hnow : q = x.expected
    · rw [if_pos hnow]
      exact h.taken (hnow ▸ hitems)
    rw [if_neg hnow]
    cases echo with
    | true => exact (h.dropped hitems hnow).repeated (Or.inr (Nat.lt_of_not_le hover))
    | false => exact h.dropped hitems hnow

/-- Forward to an acknowledgement, and back if it is behind: the window starts there. -/
theorem Sound.steered (h : Sound total window every x) {n : Nat} {rest : List Nat} (hacks : x.acks = n :: rest) :
    Ready total window every (steer n { x with acks := rest }) := by
  obtain ⟨hge, hle, hlt⟩ := h.acks n (hacks ▸ List.mem_cons_self)
  have hsorted := h.sorted
  rw [hacks, List.pairwise_cons] at hsorted
  have hrest : ∀ p ∈ rest, n ≤ p ∧ p ≤ x.expected ∧ (p = 0 ∨ p < total) := fun p hp =>
    ⟨hsorted.1 p hp, (h.acks p (hacks ▸ List.mem_cons_of_mem n hp)).2⟩
  have hdue : ∀ m, 0 < m → m < total → m % every = 0 → m ≤ x.expected → m ≤ n ∨ ∃ p ∈ rest, m ≤ p := by
    intro m hpos hlt hm hme
    rcases h.due m hpos hlt hm hme with hma | ⟨p, hp, hmp⟩
    · exact Or.inl (by omega)
    · rw [hacks] at hp
      rcases List.mem_cons.mp hp with rfl | hp
      · exact Or.inl hmp
      · exact Or.inr ⟨p, hp, hmp⟩
  have hexp := h.expected_le
  have hnext := h.next
  have hreach := h.reach
  have hdrained := le_drained x.expected x.items
  have hitems : ∀ q ∈ x.items, q < min total (n + window) := fun q hq => by
    have := h.items q hq
    omega
  unfold steer goBack advance
  by_cases hnew : x.acked < n
  · rw [if_pos hnew]
    by_cases hbehind : n < x.next
    · rw [if_pos ⟨hbehind, by simp⟩]
      exact ⟨hle, by show x.expected ≤ min total (n + window); omega, Nat.le_refl n, by show n ≤ min total (n + window); omega, hitems,
        by show n ≤ drained x.expected x.items; omega, hrest, hsorted.2, hdue, fun p hp => ⟨(Option.some.inj hp).symm, Option.some.inj hp ▸ hlt⟩⟩
    · rw [if_neg fun hb => hbehind hb.1]
      exact ⟨hle, by show x.expected ≤ min total (n + window); omega, by show n ≤ x.next; omega,
        by show x.next ≤ min total (n + window); omega, hitems, hreach, hrest, hsorted.2, hdue, fun p hp => (by cases hp)⟩
  · rw [if_neg hnew]
    obtain rfl : n = x.acked := by omega
    by_cases hbehind : x.acked < x.next ∧ x.rewound ≠ some x.acked
    · rw [if_pos hbehind]
      exact ⟨hle, hexp, Nat.le_refl _, by show x.acked ≤ min total (x.acked + window); omega, hitems,
        by show x.acked ≤ drained x.expected x.items; omega, hrest, hsorted.2, hdue, fun p hp => ⟨(Option.some.inj hp).symm, Option.some.inj hp ▸ hlt⟩⟩
    · rw [if_neg hbehind]
      exact ⟨hle, hexp, h.acked_next, h.next_le, hitems, hreach, hrest, hsorted.2, hdue, h.rewound⟩

theorem Sound.takeAck (h : Sound total window every x) : Sound total window every (x.takeAck total window) := by
  cases hacks : x.acks with
  | nil =>
    rw [Flow.takeAck, hacks]
    exact h
  | cons n rest =>
    rw [takeAck_cons hacks]
    exact (h.steered hacks).pump

/-! ## Progress -/

/-- How many deliveries come before one that brings something new: to the receiver if it
    is behind what has been sent, else to the sender. -/
def wait (total : Nat) (x : Flow) : Nat :=
  if x.expected < x.next then x.items.idxOf x.expected
  else if x.expected < total then x.acks.findIdx fun n => x.acked < n
  else x.acks.length

/-- What is left to be acknowledged, to be taken, and to be waited for. -/
def rank (total : Nat) (x : Flow) : Nat ×ₗ Nat ×ₗ Nat :=
  toLex (total - x.acked, toLex (total - x.expected, x.wait total))

/-- Nothing new. -/
structure Level (total : Nat) (x x' : Flow) : Prop where
  acked : x'.acked = x.acked
  expected : x'.expected = x.expected
  next : x'.next = x.next
  wait : x'.wait total = x.wait total

theorem Level.rank {x' : Flow} (h : Level total x x') : x'.rank total = x.rank total := by
  rw [Flow.rank, Flow.rank, h.acked, h.expected, h.wait]

theorem rank_acked {x' : Flow} (h : x.acked < x'.acked) (hle : x'.acked ≤ total) : x'.rank total < x.rank total :=
  Prod.Lex.toLex_lt_toLex.mpr (Or.inl (by show total - x'.acked < total - x.acked; omega))

theorem rank_expected {x' : Flow} (hacked : x'.acked = x.acked) (h : x.expected < x'.expected)
    (hle : x'.expected ≤ total) : x'.rank total < x.rank total :=
  Prod.Lex.toLex_lt_toLex.mpr (Or.inr ⟨congrArg (total - ·) hacked, Prod.Lex.toLex_lt_toLex.mpr
    (Or.inl (by show total - x'.expected < total - x.expected; omega))⟩)

theorem rank_wait {x' : Flow} (hacked : x'.acked = x.acked) (hexpected : x'.expected = x.expected)
    (h : x'.wait total < x.wait total) : x'.rank total < x.rank total :=
  Prod.Lex.toLex_lt_toLex.mpr (Or.inr ⟨congrArg (total - ·) hacked, Prod.Lex.toLex_lt_toLex.mpr
    (Or.inr ⟨congrArg (total - ·) hexpected, h⟩)⟩)

/-- What the receiver waits for is among the items that bring it further. -/
theorem mem_of_drained {e : Nat} {items : List Nat} (h : e < drained e items) : e ∈ items := by
  induction items with
  | nil => exact absurd h (Nat.lt_irrefl e)
  | cons q rest ih =>
    rw [drained_cons] at h
    by_cases hq : q = e
    · rw [hq]
      exact List.mem_cons_self
    · rw [if_neg hq] at h
      exact List.mem_cons_of_mem q (ih h)

theorem Sound.expected_mem (h : Sound total window every x) (hbehind : x.expected < x.next) : x.expected ∈ x.items :=
  mem_of_drained (Nat.lt_of_lt_of_le hbehind h.reach)

/-- With all that has been sent taken, an acknowledgement that moves the window is on its way. -/
theorem Sound.news (h : Sound total window every x) (hevery : 0 < every) (hle : every ≤ window)
    (hbehind : ¬ x.expected < x.next) (hlt : x.expected < total) : ∃ n ∈ x.acks, x.acked < n := by
  have hnext := h.next
  -- the last multiple of `every` is past where the sender is acknowledged
  have hmod := Nat.div_add_mod x.expected every
  have hrem := Nat.mod_lt x.expected hevery
  rcases h.due (every * (x.expected / every)) (by omega) (by omega) (Nat.mul_mod_right every _) (by omega) with
    hdue | ⟨n, hn, hmn⟩
  · omega
  · exact ⟨n, hn, by omega⟩

/-- More acknowledgements do not matter where one is on its way that moves the window. -/
theorem findIdx_more {acks : List Nat} {a : Nat} (h : ∃ n ∈ acks, a < n) (more : List Nat) :
    (acks ++ more).findIdx (fun n => a < n) = acks.findIdx fun n => a < n := by
  rw [List.findIdx_append, if_pos]
  exact List.findIdx_lt_length_of_exists (by simpa using h)

theorem Sound.level_repeated (h : Sound total window every x) (hevery : 0 < every) (hle : every ≤ window)
    (hlt : x.expected < total) : Level total x x.repeated := by
  refine ⟨rfl, rfl, rfl, ?_⟩
  show (if x.expected < x.next then x.items.idxOf x.expected
    else if x.expected < total then (x.acks ++ [x.expected]).findIdx fun n => x.acked < n
    else (x.acks ++ [x.expected]).length) = x.wait total
  rw [wait]
  by_cases hbehind : x.expected < x.next
  · rw [if_pos hbehind, if_pos hbehind]
  · rw [if_neg hbehind, if_neg hbehind, if_pos hlt, if_pos hlt, findIdx_more (h.news hevery hle hbehind hlt)]

/-- More items do not matter. -/
theorem Sound.level_items (h : Sound total window every x) {x' : Flow} (more : List Nat) (hacked : x'.acked = x.acked)
    (hexpected : x'.expected = x.expected) (hnext : x'.next = x.next) (hitems : x'.items = x.items ++ more)
    (hacks : x'.acks = x.acks) : Level total x x' := by
  refine ⟨hacked, hexpected, hnext, ?_⟩
  rw [wait, wait, hexpected, hnext, hitems, hacks, hacked]
  by_cases hbehind : x.expected < x.next
  · rw [if_pos hbehind, if_pos hbehind, List.idxOf_append_of_mem (h.expected_mem hbehind)]
  · rw [if_neg hbehind, if_neg hbehind]

theorem Sound.level_restart (h : Sound total window every x) : Level total x (x.restart total window) :=
  h.level_items _ rfl rfl (h.restart.next.trans h.next.symm) rfl rfl

/-- A delivery to a receiver that is behind. -/
theorem Sound.takeItem_rank (h : Sound total window every x) (hbehind : x.expected < x.next) (echo : Bool) :
    (x.takeItem total every echo).rank total < x.rank total := by
  have hmem := h.expected_mem hbehind
  have hnext := h.next
  unfold Flow.takeItem
  cases hitems : x.items with
  | nil =>
    rw [hitems] at hmem
    cases hmem
  | cons q rest =>
    simp only [arrive]
    rw [if_neg (show ¬ total ≤ x.expected by omega)]
    by_cases hnow : q = x.expected
    · rw [if_pos hnow]
      exact rank_expected rfl (Nat.lt_succ_self _) (by show x.expected + 1 ≤ total; omega)
    · have hcloser (acks : List Nat) :
          rank total { x with items := rest, acks := acks } < x.rank total := by
        refine rank_wait rfl rfl ?_
        show (if x.expected < x.next then rest.idxOf x.expected else _) < x.wait total
        rw [wait, if_pos hbehind, if_pos hbehind, hitems, List.idxOf_cons_ne rest hnow]
        exact Nat.lt_succ_self _
      rw [if_neg hnow]
      cases echo with
      | true => exact hcloser _
      | false => exact hcloser _

/-- A delivery to a receiver that has taken all that has been sent. -/
theorem Sound.takeItem_level (h : Sound total window every x) (hevery : 0 < every) (hle : every ≤ window)
    (hbehind : ¬ x.expected < x.next) (echo : Bool) : Level total x (x.takeItem total every echo) := by
  have hnext := h.next
  unfold Flow.takeItem
  cases hitems : x.items with
  | nil => exact ⟨rfl, rfl, rfl, rfl⟩
  | cons q rest =>
    have hq := h.lt_total hitems
    have hlevel : Level total x { x with items := rest } := by
      refine ⟨rfl, rfl, rfl, ?_⟩
      show (if x.expected < x.next then _ else _) = x.wait total
      rw [wait, if_neg hbehind, if_neg hbehind]
    simp only [arrive]
    by_cases hover : total ≤ x.expected
    · rw [if_pos hover]
      exact hlevel
    have hnow : q ≠ x.expected := by omega
    rw [if_neg hover, if_neg hnow]
    cases echo with
    | true =>
      have hagain := (h.dropped hitems hnow).level_repeated hevery hle (Nat.lt_of_not_le hover)
      exact ⟨rfl, rfl, rfl, hagain.wait.trans hlevel.wait⟩
    | false => exact hlevel

/-- An acknowledgement read moves the window, or leaves the sender where it is. -/
theorem Sound.takeAck_moves (h : Sound total window every x) {n : Nat} {rest : List Nat} (hacks : x.acks = n :: rest) :
    x.acked < (x.takeAck total window).acked ∨
      n ≤ x.acked ∧ ∃ more, (x.takeAck total window).acked = x.acked ∧
        (x.takeAck total window).expected = x.expected ∧ (x.takeAck total window).next = x.next ∧
        (x.takeAck total window).items = x.items ++ more ∧ (x.takeAck total window).acks = rest := by
  have hsound := h.takeAck.next
  have heq : x.takeAck total window = pump total window (goBack n (advance n { x with acks := rest })) :=
    takeAck_cons hacks
  by_cases hnew : x.acked < n
  · left
    have hacked : (goBack n (advance n { x with acks := rest })).acked = n := by
      rw [advance, if_pos hnew, goBack]
      split <;> rfl
    rw [heq]
    exact hnew.trans_eq hacked.symm
  · right
    have hadvance : advance n { x with acks := rest } = { x with acks := rest } := if_neg hnew
    rw [hadvance] at heq
    have hback : (goBack n { x with acks := rest }).acked = x.acked ∧
        (goBack n { x with acks := rest }).expected = x.expected ∧
        (goBack n { x with acks := rest }).items = x.items ∧ (goBack n { x with acks := rest }).acks = rest := by
      unfold goBack
      split <;> exact ⟨rfl, rfl, rfl, rfl⟩
    have hacked : (x.takeAck total window).acked = x.acked := heq ▸ hback.1
    refine ⟨Nat.le_of_not_lt hnew, burst total window (goBack n { x with acks := rest }), hacked, heq ▸ hback.2.1, ?_, ?_,
      heq ▸ hback.2.2.2⟩
    · rw [hsound, hacked, h.next]
    · rw [heq]
      exact congrArg (· ++ _) hback.2.2.1

/-- A delivery to a sender that alone can go on. -/
theorem Sound.takeAck_rank (h : Sound total window every x) (hevery : 0 < every) (hle : every ≤ window)
    (hbehind : ¬ x.expected < x.next) (hsome : x.acks ≠ []) :
    (x.takeAck total window).rank total < x.rank total := by
  obtain ⟨n, rest, hacks⟩ := List.exists_cons_of_ne_nil hsome
  rcases h.takeAck_moves hacks with hmoves | ⟨hn, more, hacked, hexpected, hnext, -, hrest⟩
  · have hafter := h.takeAck.acked_next
    have hlimit := h.takeAck.next
    exact rank_acked hmoves (by omega)
  · refine rank_wait hacked hexpected ?_
    rw [wait, wait, hexpected, hnext, hacked, hrest, if_neg hbehind, if_neg hbehind, hacks]
    by_cases hlt : x.expected < total
    · rw [if_pos hlt, if_pos hlt, List.findIdx_cons, decide_eq_false (by omega)]
      exact Nat.lt_succ_self _
    · rw [if_neg hlt, if_neg hlt]
      exact Nat.lt_succ_self _

/-- A delivery to the sender while the receiver is behind. -/
theorem Sound.takeAck_level (h : Sound total window every x) (hbehind : x.expected < x.next) :
    (x.takeAck total window).rank total < x.rank total ∨ Level total x (x.takeAck total window) := by
  cases hacks : x.acks with
  | nil =>
    right
    rw [Flow.takeAck, hacks]
    exact ⟨rfl, rfl, rfl, rfl⟩
  | cons n rest =>
    rcases h.takeAck_moves hacks with hmoves | ⟨-, more, hacked, hexpected, hnext, hitems, -⟩
    · have hafter := h.takeAck.acked_next
      have hlimit := h.takeAck.next
      exact Or.inl (rank_acked hmoves (by omega))
    · right
      refine ⟨hacked, hexpected, hnext, ?_⟩
      rw [wait, wait, hexpected, hnext, hitems, if_pos hbehind, if_pos hbehind,
        List.idxOf_append_of_mem (h.expected_mem hbehind)]

/-! ## Each item once -/

/-- No item has been sent twice, and what is on its way is what the receiver waits for. -/
structure Plain (x : Flow) : Prop where
  rewinds : x.rewinds = 0
  log : x.log = List.range x.next
  le : x.expected ≤ x.next
  items : x.items = List.range' x.expected (x.next - x.expected)
  acks : x.acks = [] ∨ x.acks = [x.next] ∧ x.expected = x.next

theorem range'_burst {e n m : Nat} (he : e ≤ n) (h : n ≤ m) :
    List.range' e (n - e) ++ List.range' n (m - n) = List.range' e (m - e) := by
  have happ := List.range'_append_1 (s := e) (m := n - e) (n := m - n)
  rwa [Nat.add_sub_cancel' he, show n - e + (m - n) = m - e by omega] at happ

theorem Plain.pump (h : Plain x) (hacks : x.acks = []) (total window : Nat) : Plain (x.pump total window) := by
  have hle : x.next ≤ x.limit total window := Nat.le_max_left _ _
  refine ⟨h.rewinds, ?_, Nat.le_trans h.le hle, ?_, Or.inl hacks⟩
  · show x.log ++ List.range' x.next (x.limit total window - x.next) = List.range (x.limit total window)
    have hrun := range'_burst (Nat.zero_le x.next) hle
    rw [Nat.sub_zero, Nat.sub_zero, ← List.range_eq_range', ← List.range_eq_range'] at hrun
    rw [h.log, hrun]
  · show x.items ++ List.range' x.next (x.limit total window - x.next) =
      List.range' x.expected (x.limit total window - x.expected)
    rw [h.items, range'_burst h.le hle]

theorem plain_start (total window : Nat) : Plain (start total window 0) :=
  Plain.pump ⟨rfl, rfl, Nat.le_refl 0, rfl, Or.inl rfl⟩ rfl total window

theorem Plain.takeItem (h : Plain x) (hs : Sound total window every x)
    (honce : window = 1 ∨ total ≤ every) (echo : Bool) : Plain (x.takeItem total every echo) := by
  unfold Flow.takeItem
  have hitems := h.items
  have hle := h.le
  have hnext := hs.next
  have hacked := hs.acked_le
  cases hx : x.items with
  | nil => exact h
  | cons q rest =>
    rw [hx] at hitems
    obtain ⟨k, hk⟩ : ∃ k, x.next - x.expected = k + 1 := by
      cases hn : x.next - x.expected with
      | zero =>
        rw [hn] at hitems
        cases hitems
      | succ k => exact ⟨k, rfl⟩
    rw [hk, List.range'_succ, List.cons.injEq] at hitems
    obtain ⟨rfl, rfl⟩ := hitems
    have hnone : x.acks = [] := h.acks.resolve_right fun ⟨_, he⟩ => by omega
    have hlen : k = x.next - (x.expected + 1) := by omega
    simp only [arrive, if_neg (show ¬ total ≤ x.expected by omega), if_true]
    refine ⟨h.rewinds, h.log, by show x.expected + 1 ≤ x.next; omega, by rw [hlen], ?_⟩
    rw [hnone, List.nil_append]
    show due total every (x.expected + 1) = [] ∨ due total every (x.expected + 1) = [x.next] ∧ x.expected + 1 = x.next
    unfold due
    by_cases hack : x.expected + 1 < total ∧ (x.expected + 1) % every = 0
    · rcases honce with hone | hfew
      · refine Or.inr ⟨?_, by omega⟩
        rw [if_pos hack, show x.expected + 1 = x.next by omega]
      · have hmod := hack.2
        rw [Nat.mod_eq_of_lt (by omega)] at hmod
        omega
    · exact Or.inl (if_neg hack)

theorem Plain.takeAck (h : Plain x) (total window : Nat) : Plain (x.takeAck total window) := by
  cases hx : x.acks with
  | nil =>
    rw [Flow.takeAck, hx]
    exact h
  | cons n rest =>
    -- it acknowledges all that has been sent, and is the only one
    obtain ⟨hlast, hexp⟩ := (h.acks.resolve_left (hx ▸ List.cons_ne_nil n rest))
    rw [hx, List.cons.injEq] at hlast
    obtain ⟨rfl, rfl⟩ := hlast
    have hplain : Plain (advance x.next { x with acks := [] }) ∧ (advance x.next { x with acks := [] }).acks = [] ∧
        (advance x.next { x with acks := [] }).next = x.next := by
      unfold advance
      split <;> exact ⟨⟨h.rewinds, h.log, h.le, h.items, Or.inl rfl⟩, rfl, rfl⟩
    have hstay : goBack x.next (advance x.next { x with acks := [] }) = advance x.next { x with acks := [] } :=
      if_neg fun hb => absurd hb.1 (by rw [hplain.2.2]; exact Nat.lt_irrefl _)
    rw [takeAck_cons hx, steer, hstay]
    exact hplain.1.pump hplain.2.1 total window

end sound

/-! ## The first acknowledgement -/

/-- `j` items of the first window have been taken. -/
structure Early (total window every j : Nat) (x : Flow) : Prop where
  next : x.next = min total window
  acked : x.acked = 0
  rewound : x.rewound = none
  rewinds : x.rewinds = 0
  expected : x.expected = j
  items : x.items = List.range' j (min total window - j)
  acks : x.acks = if j = every then [every] else []

theorem early_start {total window every : Nat} (hevery : 0 < every) : Early total window every 0 (start total window 0) := by
  have hlimit : max 0 (min total (0 + window)) = min total window := by omega
  refine ⟨hlimit, rfl, rfl, rfl, rfl, ?_, ?_⟩
  · show [] ++ List.range' 0 (max 0 (min total (0 + window)) - 0) = _
    rw [hlimit]
    rfl
  · rw [if_neg (by omega)]
    rfl

theorem Early.takeItem {total window every j : Nat} {x : Flow} (h : Early total window every j x) (hj : j < every)
    (hwindow : every < window) (htotal : every < total) (echo : Bool) :
    Early total window every (j + 1) (x.takeItem total every echo) := by
  obtain ⟨k, hk⟩ : ∃ k, min total window - j = k + 1 := ⟨min total window - j - 1, by omega⟩
  have hitems := h.items
  rw [hk, List.range'_succ] at hitems
  have hlen : k = min total window - (j + 1) := by omega
  have hnone : x.acks = [] := by rw [h.acks, if_neg (by omega)]
  unfold Flow.takeItem
  rw [hitems]
  simp only [arrive, h.expected, if_neg (show ¬ total ≤ j by omega), if_true]
  refine ⟨h.next, h.acked, h.rewound, h.rewinds, rfl, by rw [hlen], ?_⟩
  show x.acks ++ due total every (j + 1) = _
  rw [hnone, List.nil_append, due]
  by_cases hlast : j + 1 = every
  · rw [if_pos hlast, if_pos ⟨by omega, by rw [hlast, Nat.mod_self]⟩, hlast]
  · rw [if_neg hlast, if_neg fun hb => ?_]
    have hmod := hb.2
    rw [Nat.mod_eq_of_lt (by omega)] at hmod
    omega

/-- The first acknowledgement trails what has been sent, and has the sender go back. -/
theorem Early.goes_back {total window every : Nat} {x : Flow} (h : Early total window every every x) (hevery : 0 < every)
    (hwindow : every < window) (htotal : every < total) : (x.takeAck total window).rewinds = 1 := by
  have hacks := h.acks
  rw [if_pos rfl] at hacks
  unfold takeAck
  rw [hacks]
  show (goBack every (advance every { x with acks := [] })).rewinds = 1
  have hadvance : advance every { x with acks := [] } = { x with acks := [], acked := every, rewound := none } :=
    if_pos (by show x.acked < every; rw [h.acked]; exact hevery)
  have hnext := h.next
  rw [hadvance, goBack, if_pos ⟨by show every < x.next; omega, nofun⟩]
  show x.rewinds + 1 = 1
  rw [h.rewinds]

end Flow

end DeskHop.Lib
