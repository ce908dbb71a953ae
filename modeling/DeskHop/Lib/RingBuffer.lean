/-
  DeskHop.Lib.RingBuffer — a ring of `n + 1` slots, a head and a tail, and one party on
  either side of it.

  One slot always stays free, so that a full ring is told from an empty one: the ring holds
  at most `n` items. The party that puts writes a slot and then moves the head; the party
  that takes reads a slot and then moves the tail. Neither waits for the other, and each may
  be stopped between any two of its accesses (`Shared.turn`).

  Proved: the operations are those of a bounded queue (`contents_push`, `contents_pop`), and
  so are their accesses in any interleaving: what was taken, what is in the ring and what is
  being put are what was accepted, in order (`Sound.turn`). An item is refused exactly when
  `n` items are in the ring (`full_iff`).
-/

import Mathlib.Data.Fin.Basic
import Mathlib.Data.List.Range
import Mathlib.Logic.Function.Basic
import Mathlib.Algebra.Group.Fin.Basic

namespace DeskHop.Lib

universe u

structure RingBuffer (α : Type u) (n : Nat) where
  buf : Fin (n + 1) → α
  head : Fin (n + 1)
  tail : Fin (n + 1)

namespace RingBuffer

variable {α : Type u} {n : Nat}

def held (r : RingBuffer α n) : Nat := (r.head - r.tail).val

/-- The items in the ring, the oldest first. -/
def contents (r : RingBuffer α n) : List α := (List.range r.held).map fun i => r.buf (r.tail + Fin.ofNat (n + 1) i)

def isFull (r : RingBuffer α n) : Bool := r.head + 1 == r.tail

def isEmpty (r : RingBuffer α n) : Bool := r.head == r.tail

/-! ## The accesses -/

def store (r : RingBuffer α n) (a : α) : RingBuffer α n := { r with buf := Function.update r.buf r.head a }

def publish (r : RingBuffer α n) : RingBuffer α n := { r with head := r.head + 1 }

def front (r : RingBuffer α n) : α := r.buf r.tail

def advance (r : RingBuffer α n) : RingBuffer α n := { r with tail := r.tail + 1 }

/-! ## The operations -/

def push (r : RingBuffer α n) (a : α) : Bool × RingBuffer α n :=
  if r.isFull then (false, r) else (true, (r.store a).publish)

def pop (r : RingBuffer α n) : Option α × RingBuffer α n :=
  if r.isEmpty then (none, r) else (some r.front, r.advance)

/-! ## What the ring holds -/

@[simp] theorem length_contents (r : RingBuffer α n) : r.contents.length = r.held := by simp [contents]

theorem held_le (r : RingBuffer α n) : r.held ≤ n := Nat.lt_succ_iff.mp (r.head - r.tail).isLt

theorem isEmpty_iff (r : RingBuffer α n) : r.isEmpty = true ↔ r.held = 0 := by
  rw [isEmpty, beq_iff_eq, held, Fin.val_eq_zero_iff, sub_eq_zero]

theorem isFull_iff (r : RingBuffer α n) : r.isFull = true ↔ r.held = n := by
  have hlast : r.held = n ↔ r.head - r.tail = Fin.last n := by rw [Fin.ext_iff, Fin.val_last, held]
  rw [hlast, isFull, beq_iff_eq]
  constructor
  · intro h
    rw [← h, sub_add_cancel_left]
    exact Fin.ext (Fin.coe_neg_one.trans (Fin.val_last n).symm)
  · intro h
    rw [← sub_eq_zero, add_sub_right_comm, h, Fin.last_add_one]

theorem contents_store (r : RingBuffer α n) (a : α) : (r.store a).contents = r.contents := by
  refine List.map_congr_left fun i hi => ?_
  have hlt : i < r.held := List.mem_range.mp hi
  -- The head is `held` slots after the tail, and `i` is fewer.
  refine Function.update_of_ne (fun h => ?_) a r.buf
  change r.tail + Fin.ofNat (n + 1) i = r.head at h
  have hi : i = r.held := by
    rw [held, ← h, add_sub_cancel_left, Fin.val_ofNat, Nat.mod_eq_of_lt (by have := r.held_le; omega)]
  omega

theorem front_store (r : RingBuffer α n) (a : α) (h : r.isEmpty = false) : (r.store a).front = r.front := by
  refine Function.update_of_ne (fun he => ?_) a r.buf
  change r.tail = r.head at he
  rw [isEmpty, he, beq_self_eq_true] at h
  cases h

theorem held_publish (r : RingBuffer α n) (h : r.isFull = false) : r.publish.held = r.held + 1 := by
  have hne : r.held ≠ n := fun he => by rw [r.isFull_iff.mpr he] at h; cases h
  have hlt : r.head - r.tail < Fin.last n := Fin.lt_def.mpr (lt_of_le_of_ne r.held_le hne)
  have hsub : r.head + 1 - r.tail = r.head - r.tail + 1 := add_sub_right_comm _ _ _
  exact (congrArg Fin.val hsub).trans (Fin.val_add_one_of_lt hlt)

theorem contents_publish (r : RingBuffer α n) (h : r.isFull = false) : r.publish.contents = r.contents ++ [r.buf r.head] := by
  have hhead : r.tail + Fin.ofNat (n + 1) r.held = r.head := by
    rw [held, Fin.ofNat_val_eq_self, add_sub_cancel]
  calc r.publish.contents
      = (List.range (r.held + 1)).map fun i => r.buf (r.tail + Fin.ofNat (n + 1) i) := by rw [contents, r.held_publish h]; rfl
    _ = r.contents ++ [r.buf r.head] := by rw [List.range_succ, List.map_append, List.map_singleton, hhead, contents]

theorem contents_advance (r : RingBuffer α n) (h : r.isEmpty = false) : r.contents = r.front :: r.advance.contents := by
  have hpos : r.held ≠ 0 := fun he => by rw [r.isEmpty_iff.mpr he] at h; cases h
  have hne : r.head - r.tail ≠ 0 := fun he => hpos (by rw [held, he, Fin.val_zero])
  have hsub : r.head - (r.tail + 1) = r.head - r.tail - 1 := (sub_sub _ _ _).symm
  have hheld : r.advance.held + 1 = r.held := by
    have hle := Fin.val_sub_one_of_ne_zero hne
    have hadv : r.advance.held = (r.head - r.tail - 1).val := congrArg Fin.val hsub
    rw [hadv, hle, held]
    exact Nat.succ_pred_eq_of_ne_zero hpos
  have hslot (i : Nat) : r.tail + Fin.ofNat (n + 1) (i + 1) = r.tail + 1 + Fin.ofNat (n + 1) i := by
    have : Fin.ofNat (n + 1) (i + 1) = Fin.ofNat (n + 1) i + 1 := by
      refine Fin.ext ?_
      simp [Fin.val_add]
    rw [this, add_assoc, add_comm 1]
  rw [contents, ← hheld, List.range_succ_eq_map, List.map_cons, List.map_map]
  refine congrArg₂ List.cons ?_ (List.map_congr_left fun i _ => congrArg r.buf (hslot i))
  rw [front]
  exact congrArg r.buf (by simp)

theorem contents_push (r : RingBuffer α n) (a : α) :
    (r.push a).1 = decide (r.contents.length < n) ∧
      (r.push a).2.contents = if r.contents.length < n then r.contents ++ [a] else r.contents := by
  have hle := r.held_le
  rw [push, length_contents]
  cases hf : r.isFull with
  | true =>
    have : ¬r.held < n := by rw [r.isFull_iff.mp hf]; exact Nat.lt_irrefl n
    simp [this]
  | false =>
    have hne : r.held ≠ n := fun he => by rw [r.isFull_iff.mpr he] at hf; cases hf
    have hlt : r.held < n := lt_of_le_of_ne hle hne
    have hpub := contents_publish (r.store a) hf
    rw [contents_store] at hpub
    simp only [hlt, decide_true, if_true]
    refine ⟨rfl, hpub.trans ?_⟩
    simp [store]

theorem contents_pop (r : RingBuffer α n) : r.pop.1 = r.contents.head? ∧ r.pop.2.contents = r.contents.tail := by
  rw [pop]
  cases he : r.isEmpty with
  | true =>
    have hnil : r.contents = [] := List.eq_nil_of_length_eq_zero (by rw [length_contents]; exact r.isEmpty_iff.mp he)
    rw [if_pos rfl]
    exact ⟨by rw [hnil]; rfl, by rw [hnil]; rfl⟩
  | false =>
    rw [if_neg Bool.false_ne_true, r.contents_advance he]
    exact ⟨rfl, rfl⟩

/-! ## Two parties -/

/-- Where the party that puts is: it has seen room, or it has written the slot. -/
inductive Putting (α : Type u) where
  | idle
  | store (a : α)
  | publish (a : α)
  deriving DecidableEq

/-- Where the party that takes is: it has seen an item, or it has read the slot. -/
inductive Taking (α : Type u) where
  | idle
  | fetch
  | advance (a : α)
  deriving DecidableEq

def Putting.inHand : Putting α → List α
  | .idle => []
  | .store a => [a]
  | .publish a => [a]

/-- A ring in use. `offered` and `taken` are ghosts: each item offered, with what the ring
    held then, and each one taken. -/
structure Shared (α : Type u) (n : Nat) where
  ring : RingBuffer α n
  putting : Putting α
  taking : Taking α
  offered : List (α × Nat)
  taken : List α

/-- Whose access is next; `a` is what a party that is idle goes on to put. -/
inductive Turn (α : Type u) where
  | put (a : α)
  | take

namespace Shared

def start (r : RingBuffer α n) : Shared α n := ⟨r, .idle, .idle, [], []⟩

def turn (s : Shared α n) : Turn α → Shared α n
  | .put a =>
    match s.putting with
    | .idle =>
      { s with
        putting := if s.ring.isFull then .idle else .store a
        offered := s.offered ++ [(a, s.ring.held)] }
    | .store b => { s with ring := s.ring.store b, putting := .publish b }
    | .publish _ => { s with ring := s.ring.publish, putting := .idle }
  | .take =>
    match s.taking with
    | .idle => { s with taking := if s.ring.isEmpty then .idle else .fetch }
    | .fetch => { s with taking := .advance s.ring.front }
    | .advance a => { s with ring := s.ring.advance, taking := .idle, taken := s.taken ++ [a] }

/-- What found room. -/
def accepted (s : Shared α n) : List α := (s.offered.filter fun o => o.2 < n).map Prod.fst

/-- What is on the way through the ring. -/
def waiting (s : Shared α n) : List α := s.ring.contents ++ s.putting.inHand

structure Sound (s : Shared α n) : Prop where
  flow : s.taken ++ s.waiting = s.accepted
  /-- A party that puts has room, whatever the other has done meanwhile. -/
  room : s.putting ≠ .idle → s.ring.isFull = false
  written : ∀ a, s.putting = .publish a → s.ring.buf s.ring.head = a
  /-- A party that takes has an item. -/
  item : s.taking ≠ .idle → s.ring.isEmpty = false
  read : ∀ a, s.taking = .advance a → a = s.ring.front

theorem accepted_offer (s : Shared α n) (a : α) (p : Putting α) :
    accepted { s with putting := p, offered := s.offered ++ [(a, s.ring.held)] } =
      s.accepted ++ if s.ring.isFull then [] else [a] := by
  have hle := s.ring.held_le
  rw [accepted, List.filter_append, List.map_append, ← accepted]
  congr 1
  cases hf : s.ring.isFull with
  | true => simp [s.ring.isFull_iff.mp hf]
  | false =>
    have hne : s.ring.held ≠ n := fun he => by rw [s.ring.isFull_iff.mpr he] at hf; cases hf
    have hlt : s.ring.held < n := lt_of_le_of_ne hle hne
    simp [hlt]

theorem sound_start {r : RingBuffer α n} (h : r.contents = []) : (start r).Sound :=
  ⟨by simp [start, waiting, accepted, Putting.inHand, h], fun h => absurd rfl h, fun _ h => (by cases h),
    fun h => absurd rfl h, fun _ h => (by cases h)⟩

theorem Sound.put {s : Shared α n} (h : s.Sound) (a : α) : (s.turn (.put a)).Sound := by
  have hflow := h.flow
  rw [waiting] at hflow
  cases hp : s.putting with
  | idle =>
    rw [hp, Putting.inHand, List.append_nil] at hflow
    have hturn : s.turn (.put a) =
        { s with
          putting := if s.ring.isFull then .idle else .store a
          offered := s.offered ++ [(a, s.ring.held)] } := by
      simp only [turn, hp]
    rw [hturn]
    refine ⟨?_, ?_, ?_, h.item, h.read⟩
    · rw [accepted_offer, waiting, ← hflow]
      cases s.ring.isFull <;> simp [Putting.inHand]
    · intro hne
      cases hf : s.ring.isFull with
      | false => rfl
      | true => exact absurd (if_pos hf) hne
    · intro b hb
      cases hf : s.ring.isFull <;> simp [hf] at hb
  | store b =>
    rw [hp, Putting.inHand] at hflow
    have hturn : s.turn (.put a) = { s with ring := s.ring.store b, putting := .publish b } := by simp only [turn, hp]
    rw [hturn]
    refine ⟨?_, fun _ => h.room (by simp [hp]), ?_, h.item, ?_⟩
    · rw [waiting, contents_store, Putting.inHand]
      exact hflow
    · rintro c hc
      cases hc
      exact Function.update_self _ _ _
    · intro c hc
      have htaking : s.taking = .advance c := hc
      have hitem := h.item (by simp [htaking])
      exact (h.read c hc).trans (front_store _ _ hitem).symm
  | publish b =>
    rw [hp, Putting.inHand] at hflow
    have hroom := h.room (by simp [hp])
    have hturn : s.turn (.put a) = { s with ring := s.ring.publish, putting := .idle } := by simp only [turn, hp]
    rw [hturn]
    refine ⟨?_, fun hne => absurd rfl hne, fun _ hc => (by cases hc), ?_, h.read⟩
    · rw [waiting, contents_publish _ hroom, h.written b hp, Putting.inHand, List.append_nil]
      exact hflow
    · intro _
      cases he : s.ring.publish.isEmpty with
      | false => rfl
      | true =>
        have hheld := s.ring.held_publish hroom
        rw [(isEmpty_iff _).mp he] at hheld
        omega

theorem Sound.take {s : Shared α n} (h : s.Sound) : (s.turn .take).Sound := by
  cases ht : s.taking with
  | idle =>
    have hturn : s.turn .take = { s with taking := if s.ring.isEmpty then .idle else .fetch } := by simp only [turn, ht]
    rw [hturn]
    refine ⟨h.flow, h.room, h.written, ?_, ?_⟩
    · intro hne
      cases he : s.ring.isEmpty with
      | false => rfl
      | true => exact absurd (if_pos he) hne
    · intro a ha
      cases he : s.ring.isEmpty <;> simp [he] at ha
  | fetch =>
    have hturn : s.turn .take = { s with taking := .advance s.ring.front } := by simp only [turn, ht]
    rw [hturn]
    refine ⟨h.flow, h.room, h.written, fun _ => h.item (by simp [ht]), ?_⟩
    rintro a ha
    cases ha
    rfl
  | advance a =>
    have hitem := h.item (by simp [ht])
    have hturn : s.turn .take = { s with ring := s.ring.advance, taking := .idle, taken := s.taken ++ [a] } := by
      simp only [turn, ht]
    have hcons := s.ring.contents_advance hitem
    rw [hturn]
    refine ⟨?_, ?_, h.written, fun hne => absurd rfl hne, fun _ ha => (by cases ha)⟩
    · have hflow := h.flow
      rw [waiting, hcons, ← h.read a ht] at hflow
      rw [waiting, List.append_assoc]
      exact hflow
    · intro _
      cases hf : s.ring.advance.isFull with
      | false => rfl
      | true =>
        have hheld := congrArg List.length hcons
        rw [List.length_cons, length_contents, length_contents, (isFull_iff _).mp hf] at hheld
        have := s.ring.held_le
        omega

theorem Sound.turn {s : Shared α n} (h : s.Sound) (t : Turn α) : (s.turn t).Sound := by
  cases t with
  | put a => exact h.put a
  | take => exact h.take

/-- A whole `push`, by a party that cannot be stopped in it. -/
def putWhole (s : Shared α n) (a : α) : Shared α n :=
  { s with ring := (s.ring.push a).2, offered := s.offered ++ [(a, s.ring.held)] }

/-- A whole `pop`, by a party that cannot be stopped in it. -/
def takeWhole (s : Shared α n) : Shared α n :=
  { s with ring := s.ring.pop.2, taken := s.taken ++ s.ring.pop.1.toList }

theorem putWhole_eq {s : Shared α n} (h : s.putting = .idle) (a : α) :
    s.putWhole a = if s.ring.isFull then s.turn (.put a) else ((s.turn (.put a)).turn (.put a)).turn (.put a) := by
  cases hf : s.ring.isFull <;> simp [putWhole, push, Shared.turn, h, hf]

theorem takeWhole_eq {s : Shared α n} (h : s.taking = .idle) :
    s.takeWhole = if s.ring.isEmpty then s.turn .take else ((s.turn .take).turn .take).turn .take := by
  cases he : s.ring.isEmpty <;> simp [takeWhole, pop, Shared.turn, h, he]

theorem Sound.putWhole {s : Shared α n} (h : s.Sound) (hidle : s.putting = .idle) (a : α) : (s.putWhole a).Sound := by
  rw [putWhole_eq hidle]
  split
  · exact h.put a
  · exact ((h.put a).put a).put a

theorem Sound.takeWhole {s : Shared α n} (h : s.Sound) (hidle : s.taking = .idle) : s.takeWhole.Sound := by
  rw [takeWhole_eq hidle]
  split
  · exact h.take
  · exact h.take.take.take

end Shared

end RingBuffer

end DeskHop.Lib
