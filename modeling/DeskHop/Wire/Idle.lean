/-
  DeskHop.Wire.Idle — a stream of whole frames with idle flags between them, and one
  source of it, heard in sequence.

  `Carries` says of a decoder and the bytes still on the way to it which frames will come
  out; appending a frame, appending idle flags and taking the next byte each keep it.
  `Awaits` says of a replay window that the number a source uses next will pass.
-/

import DeskHop.Wire.Line

namespace DeskHop.Wire

open DeskHop.Lib

/-! ## Frames on the way to a decoder -/

/-- From `fr` on, the bytes hold just the frames, and end between two. -/
structure Carries (key : Key) (fr : Framer) (bs : List Byte) (fs : List Frame) : Prop where
  closed : Closed (feed (some key) fr bs).1
  frames : (feed (some key) fr bs).2.filterMap Except.toOption = fs.map (decoded · key)

theorem carries_nil {fr : Framer} (key : Key) (h : Closed fr) : Carries key fr [] [] := ⟨h, rfl⟩

theorem toOption_again (n : Nat) :
    (List.replicate n (.error .again : Except Result Frame)).filterMap Except.toOption = [] := by
  refine List.filterMap_eq_nil_iff.mpr fun r hr => ?_
  rw [List.eq_of_mem_replicate hr]
  rfl

variable {key : Key} {fr : Framer} {bs : List Byte} {fs : List Frame}

theorem Carries.frame (h : Carries key fr bs fs) {f : Frame} (ht : f.type ≤ 0x0F) (hp : f.payload.length ≤ maxPayload) :
    Carries key fr (bs ++ onWire f key) (fs ++ [f]) := by
  obtain ⟨hcoll, hres⟩ := feed_onWire (feed (some key) fr bs).1 key ht hp
  have hfirst := push_flag_of_closed (some key) h.closed
  constructor
  · rw [feed_append]
    exact hcoll.closed
  · rw [feed_append, hres, hfirst, List.filterMap_append, h.frames, List.map_append, List.append_right_inj,
      List.filterMap_append, ← List.replicate_succ, toOption_again]
    rfl

theorem Carries.flag (h : Carries key fr bs fs) : Carries key fr (bs ++ [flag]) fs := by
  have hfirst := push_flag_of_closed (some key) h.closed
  have hone : feed (some key) (feed (some key) fr bs).1 [Wire.flag] =
      ((framerPush (feed (some key) fr bs).1 Wire.flag (some key)).1, [.error .again]) := by
    rw [feed, hfirst]
    rfl
  constructor
  · rw [feed_append, hone]
    exact (push_flag _ _).closed
  · rw [feed_append, hone, List.filterMap_append, h.frames]
    exact List.append_nil _

/-- Idle flags between frames say nothing. -/
theorem Carries.idle (h : Carries key fr bs fs) (n : Nat) : Carries key fr (bs ++ List.replicate n Wire.flag) fs := by
  induction n with
  | zero =>
    rw [List.replicate_zero, List.append_nil]
    exact h
  | succ n ih =>
    rw [List.replicate_succ', ← List.append_assoc]
    exact ih.flag

/-- The next byte completes no frame, or the next one. -/
theorem Carries.next {b : Byte} (h : Carries key fr (b :: bs) fs) :
    (∃ r, (framerPush fr b (some key)).2 = .error r ∧ Carries key (framerPush fr b (some key)).1 bs fs) ∨
    ∃ f rest, fs = f :: rest ∧ (framerPush fr b (some key)).2 = .ok (decoded f key) ∧
      Carries key (framerPush fr b (some key)).1 bs rest := by
  obtain ⟨hclosed, hframes⟩ := h
  rw [feed] at hclosed hframes
  cases hr : (framerPush fr b (some key)).2 with
  | error r =>
    rw [hr] at hframes
    exact Or.inl ⟨r, rfl, hclosed, hframes⟩
  | ok g =>
    rw [hr] at hframes
    have hcons : (Except.ok g :: (feed (some key) (framerPush fr b (some key)).1 bs).2 :
        List (Except Result Frame)).filterMap Except.toOption =
        g :: (feed (some key) (framerPush fr b (some key)).1 bs).2.filterMap Except.toOption := rfl
    cases fs with
    | nil =>
      rw [hcons] at hframes
      cases hframes
    | cons f rest =>
      rw [hcons, List.map_cons, List.cons.injEq] at hframes
      exact Or.inr ⟨f, rest, rfl, by rw [hframes.1], hclosed, hframes.2⟩

theorem Carries.nil (h : Carries key fr [] fs) : fs = [] := by
  have hframes := h.frames
  exact List.map_eq_nil_iff.mp hframes.symm

/-! ## A source heard in sequence -/

/-- If `a` has been heard before, `seq` is the number after the last. -/
def Awaits (t : SeenTable) (a : Addr) (seq : UInt16) : Prop :=
  ∀ s, t.find? a = some s → s.primed = true → s.highSeq + 1 = seq

theorem seqDelta_next (n : UInt16) : seqDelta (n + 1) n = 1 := by
  have hone : n + 1 - n = 1 := by rw [UInt16.add_comm, UInt16.add_sub_cancel]
  rw [seqDelta, hone]
  decide

theorem Awaits.fresh {t : SeenTable} {a : Addr} {seq : UInt16} (h : Awaits t a seq) : (seqIsFresh t a seq).1 = true := by
  rw [← Bool.not_eq_false]
  intro hstale
  obtain ⟨-, s, hs, hprimed, -, hle⟩ := seqIsFresh_false hstale
  rw [← h s hs hprimed, seqDelta_next] at hle
  omega

theorem Awaits.heard {t : SeenTable} {a : Addr} {seq : UInt16} (h : Awaits t a seq) :
    Awaits (seqIsFresh t a seq).2 a (seq + 1) := by
  intro s hs _
  cases he : t.ensure (freshSeen a) with
  | none =>
    have hnone : t.find? a = none := by
      cases hf : t.find? a with
      | none => rfl
      | some s =>
        rw [Slots.ensure_of_find (a := freshSeen a) hf] at he
        cases he
    rw [seqIsFresh, he] at hs
    exact absurd (hnone.symm.trans hs) nofun
  | some e =>
    obtain ⟨s', t', he', hseen, -⟩ := seqIsFresh_true h.fresh (by rw [he]; exact Option.some_ne_none e)
    rw [hseen, Slots.find?_modify_self t' a (Seen.mark seq) fun _ hu hk => ⟨hu, hk⟩] at hs
    obtain ⟨_, -, rfl⟩ := Option.map_eq_some_iff.mp hs
    rfl

/-- What is heard of another source. -/
theorem Awaits.other {t : SeenTable} {a : Addr} {seq : UInt16} (h : Awaits t a seq) {src : Addr} (hsrc : a ≠ src)
    (n : UInt16) : Awaits (seqIsFresh t src n).2 a seq := by
  have hsame : (seqIsFresh t src n).2.find? a = t.find? a := by
    by_cases hfresh : (seqIsFresh t src n).1 = true
    · cases he : t.ensure (freshSeen src) with
      | none => rw [seqIsFresh, he]
      | some e =>
        obtain ⟨s', t', he', hseen, -⟩ := seqIsFresh_true hfresh (by rw [he]; exact Option.some_ne_none e)
        rw [hseen, Slots.find?_modify_ne t' hsrc (Seen.mark n) fun _ _ hk _ => hk]
        exact Slots.find?_ensure_ne he' hsrc
    · rw [(seqIsFresh_false (Bool.not_eq_true _ ▸ hfresh)).1]
  intro s hs
  rw [hsame] at hs
  exact h s hs

end DeskHop.Wire
