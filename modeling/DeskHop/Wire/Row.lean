/-
  DeskHop.Wire.Row — keyed boards in a row, frame by frame.

  Board `i` stands at place `i` of the row that leads down and at place `n - 1 - i` of
  the one that leads up; wire `q` of either leads from place `q` to place `q + 1`, and a
  board hears by its one port what the board before it sent out of the other (`Row`).
  `Journal` adds what each board has sent and what has been handed over to it.

  Proved, for every order in which the frames arrive: a frame moves away from its source,
  one hop off its hop limit a wire (`Physical`), and no board refuses one (`arrive_fresh`),
  because those on their way from one source to one board are numbered upwards, from above
  what that board has seen (`Ordered`). So what a board has been handed from a source,
  followed by what is on its way to it, is what the source has sent for it
  (`Conserved`).
-/

import DeskHop.Lib.Lane
import DeskHop.Lib.Reach
import DeskHop.Wire.Hop

namespace DeskHop.Wire

open DeskHop.Lib

/-- What a frame says, on whichever hop. -/
structure Letter where
  type : MsgType
  src : Addr
  dst : Addr
  seq : UInt16
  payload : List Byte
  deriving DecidableEq, Repr

def Frame.letter (f : Frame) : Letter := ⟨f.type, f.src, f.dst, f.seq, f.payload⟩

/-- A letter that board `a` is to be handed. -/
def Letter.isFor (a : Addr) (m : Letter) : Bool := m.dst == a || m.dst == addrBroadcast

/-- What the encoder takes. -/
def fits (type : MsgType) (payload : List Byte) : Bool := payload.length ≤ maxPayload && type ≤ 0x0F

/-- Where board `i` stands in the row that leads out of its port `p`. -/
def place {n : Nat} (p : Port) (i : Fin n) : Nat :=
  match p with
  | .up => n - 1 - i.val
  | .down => i.val

theorem place_lt {n : Nat} (p : Port) (i : Fin n) : place p i < n := by
  have h := i.isLt
  cases p with
  | up => simp only [place]; omega
  | down => exact h

theorem place_inj {n : Nat} {p : Port} {i k : Fin n} (h : place p i = place p k) : i = k := by
  have hi := i.isLt
  have hk := k.isLt
  cases p with
  | up => simp only [place] at h; exact Fin.ext (by omega)
  | down => exact Fin.ext h

/-- Who is ahead one way is behind the other way. -/
theorem place_other {n : Nat} {p : Port} {i k : Fin n} : place p.other i < place p.other k ↔ place p k < place p i := by
  have hi := i.isLt
  have hk := k.isLt
  cases p <;> simp only [place, Port.other] <;> omega

/-- Who is ahead both ways is ahead one way. -/
theorem port_eq_of_ahead {n : Nat} {p p' : Port} {s x : Fin n} (h : place p s < place p x) (h' : place p' s < place p' x) :
    p' = p := by
  by_contra hne
  obtain rfl : p' = p.other := by cases p <;> cases p' <;> first | rfl | exact absurd rfl hne
  exact Nat.lt_asymm h (place_other.mp h')

/-- Of two boards, either is ahead of the other one way. -/
theorem place_total {n : Nat} {i k : Fin n} (h : i ≠ k) : ∃ p, place p i < place p k := by
  rcases Nat.lt_or_gt_of_ne (fun e => h (Fin.ext e) : i.val ≠ k.val) with hlt | hgt
  · exact ⟨.down, hlt⟩
  · exact ⟨.up, (place_other (p := .down)).mpr hgt⟩

/-- The board at the end of a wire, where one comes after it. -/
theorem exists_place {n : Nat} {p : Port} {x : Fin n} {q : Nat} (h : q < place p x) : ∃ k : Fin n, place p k = q + 1 := by
  have hlt := place_lt p x
  cases p with
  | up => exact ⟨⟨n - 1 - (q + 1), by omega⟩, by simp only [place]; omega⟩
  | down => exact ⟨⟨q + 1, by omega⟩, rfl⟩

structure Row (n : Nat) where
  station : Fin n → Station
  /-- By the port the frames leave by, and wire by wire. -/
  lane : Port → Nat → List Frame

namespace Row

variable {n : Nat}

/-- A board sends on both lanes, if the frame can be encoded. -/
def send (r : Row n) (i : Fin n) (type : MsgType) (dst : Addr) (payload : List Byte) : Row n :=
  let st := r.station i
  { station := Function.update r.station i { st with txSeq := st.txSeq + 1 }
    lane := fun p =>
      if fits type payload then Lib.put (r.lane p) (place p i) [st.own type dst payload] else r.lane p }

/-- The frame that reaches `i` next on the lane. -/
def front (r : Row n) (p : Port) (i : Fin n) : Option Frame :=
  match place p i with
  | 0 => none
  | q + 1 => (r.lane p q).head?

/-- The frame `f` at the front of the lane to `i` arrives. -/
def arrive (r : Row n) (p : Port) (i : Fin n) (f : Frame) : Row n :=
  let h := hear (r.station i) f
  let q := place p i - 1
  { station := Function.update r.station i h.station
    lane := Function.update r.lane p (pass (r.lane p) q (r.lane p q).tail h.onward) }

theorem front_some {r : Row n} {p : Port} {i : Fin n} {f : Frame} (h : r.front p i = some f) :
    ∃ q rest, place p i = q + 1 ∧ r.lane p q = f :: rest ∧
      (r.arrive p i f).lane = Function.update r.lane p (pass (r.lane p) q rest (hear (r.station i) f).onward) := by
  unfold front at h
  split at h
  · cases h
  · rename_i q hq
    obtain ⟨rest, hrest⟩ := List.head?_eq_some_iff.mp h
    refine ⟨q, rest, hq, hrest, ?_⟩
    simp only [arrive, hq, Nat.succ_sub_one, hrest, List.tail_cons]

theorem arrive_station_self (r : Row n) (p : Port) (i : Fin n) (f : Frame) :
    (r.arrive p i f).station i = (hear (r.station i) f).station := Function.update_self ..

theorem arrive_station_ne (r : Row n) (p : Port) {i k : Fin n} (h : k ≠ i) (f : Frame) :
    (r.arrive p i f).station k = r.station k := Function.update_of_ne h ..

/-! ## Frames move away from their source -/

/-- The frame has gone the wires from its source to this one, at one hop each. -/
structure Travelled (addr : Fin n → Addr) (p : Port) (q : Nat) (f : Frame) (s : Fin n) : Prop where
  src : f.src = addr s
  away : place p s ≤ q
  hops : f.ttl.toNat + (q - place p s) = ttlDefault.toNat

structure Physical (addr : Fin n → Addr) (r : Row n) : Prop where
  self : ∀ i, (r.station i).self = addr i
  travelled : ∀ p q, ∀ f ∈ r.lane p q, ∃ s, Travelled addr p q f s

variable {addr : Fin n → Addr} {r : Row n}

theorem Physical.send (h : Physical addr r) (i : Fin n) (type : MsgType) (dst : Addr) (payload : List Byte) :
    Physical addr (r.send i type dst payload) := by
  refine ⟨fun k => ?_, fun p q f hf => ?_⟩
  · by_cases hk : k = i
    · subst hk
      show (Function.update r.station k _ k).self = addr k
      rw [Function.update_self]
      exact h.self k
    · show (Function.update r.station i _ k).self = addr k
      rw [Function.update_of_ne hk]
      exact h.self k
  · simp only [Row.send] at hf
    split at hf
    · rcases mem_put hf with hf | ⟨rfl, hm⟩
      · exact h.travelled p q f hf
      · obtain rfl := List.mem_singleton.mp hm
        exact ⟨i, h.self i, Nat.le_refl _, by simp [Station.own]⟩
    · exact h.travelled p q f hf

/-- What arrives comes from elsewhere, with a hop to spare. -/
theorem Physical.front (h : Physical addr r) (hinj : Function.Injective addr) (hn : n ≤ 20) {p : Port} {i : Fin n} {f : Frame}
    (hf : r.front p i = some f) : f.src ≠ (r.station i).self ∧ 1 < f.ttl.toNat := by
  obtain ⟨q, rest, hq, hlane, -⟩ := front_some hf
  obtain ⟨s, hs⟩ := h.travelled p q f (by rw [hlane]; exact List.mem_cons_self)
  have hlt := place_lt p i
  have haway := hs.away
  have hhops := hs.hops
  refine ⟨fun he => ?_, ?_⟩
  · rw [hs.src, h.self] at he
    obtain rfl := hinj he
    omega
  · have : ttlDefault.toNat = 20 := rfl
    omega

theorem hear_onward {st : Station} {f g : Frame} (h : (hear st f).onward = some g) :
    f.dst ≠ st.self ∧ 1 < f.ttl.toNat ∧ g = { f with ttl := f.ttl - 1 } := by
  simp only [hear] at h
  split at h
  · cases h
  split at h
  · cases h
  split at h
  · rename_i hd
    unfold oneHopLess at h
    split at h
    · cases h
    · rename_i ht
      cases h
      rw [UInt8.le_iff_toNat_le] at ht
      exact ⟨hd, Nat.not_le.mp ht, rfl⟩
  · cases h

theorem Physical.arrive (h : Physical addr r) {p : Port} {i : Fin n} {f : Frame} (hf : r.front p i = some f) :
    Physical addr (r.arrive p i f) := by
  obtain ⟨q, rest, hq, hlane, hnew⟩ := front_some hf
  refine ⟨fun k => ?_, fun p' q' g hg => ?_⟩
  · by_cases hk : k = i
    · subst hk
      rw [arrive_station_self, hear_self]
      exact h.self k
    · rw [arrive_station_ne r p hk]
      exact h.self k
  · rw [hnew] at hg
    by_cases hp : p' = p
    · subst hp
      rw [Function.update_self] at hg
      rcases mem_pass hlane hg with hg | ⟨rfl, ho⟩
      · exact h.travelled p' q' g hg
      · -- one hop further on
        obtain ⟨s, hs⟩ := h.travelled p' q f (by rw [hlane]; exact List.mem_cons_self)
        obtain ⟨-, ht, rfl⟩ := hear_onward ho
        have hsub := (oneHopLess_some ht).2
        have haway := hs.away
        have hhops := hs.hops
        exact ⟨s, hs.src, by omega, by show (f.ttl - 1).toNat + _ = _; omega⟩
    · rw [Function.update_of_ne hp] at hg
      exact h.travelled p' q' g hg

end Row

/-! ## The replay window -/

/-- The highest number accepted from `a`, once there is one. -/
def lastSeq (st : Station) (a : Addr) : Option Nat :=
  (st.seen.find? a).bind fun e => if e.primed then some e.highSeq.toNat else none

theorem mark_keeps (seq : UInt16) (k : Addr) (e : Seen) (hu : Slotted.used e = true) (hk : Slotted.key e = k) :
    Slotted.used (e.mark seq) = true ∧ Slotted.key (e.mark seq) = k := ⟨hu, hk⟩

theorem fresh_of_above {st : Station} {f : Frame} (h : ∀ k, lastSeq st f.src = some k → k < f.seq.toNat)
    (hf : f.seq.toNat < 32768) : fresh st f = true := by
  unfold fresh seqIsFresh
  split
  · rfl
  rename_i e t he
  split
  · rfl
  rename_i hp
  rw [Bool.not_eq_true', Bool.not_eq_false] at hp
  rcases Slots.ensure_cases he with ⟨hfind, -⟩ | ⟨-, rfl, -⟩
  · have hlast : lastSeq st f.src = some e.highSeq.toNat := by
      unfold lastSeq
      rw [show st.seen.find? f.src = some e from hfind, Option.bind_some, if_pos hp]
    rw [if_pos (seqDelta_of_lt (h _ hlast) hf)]
  · cases hp

/-- An accepted frame is the last of its source, unless the table is too full to say. -/
theorem lastSeq_hear_self {st : Station} {f : Frame} (hs : f.src ≠ st.self) (hf : fresh st f = true) :
    lastSeq (hear st f).station f.src = some f.seq.toNat ∨ lastSeq (hear st f).station f.src = none := by
  have hseen : (hear st f).station.seen = (seqIsFresh st.seen f.src f.seq).2 := by simp [hear, hs, hf]
  unfold lastSeq
  rw [hseen]
  by_cases hroom : st.seen.ensure (freshSeen f.src) = none
  · have hsame : (seqIsFresh st.seen f.src f.seq).2 = st.seen := by
      unfold seqIsFresh
      rw [hroom]
    have hnone : st.seen.find? f.src = none := by
      cases hfind : st.seen.find? f.src with
      | none => rfl
      | some e =>
        rw [Slots.ensure_of_find (a := freshSeen f.src) hfind] at hroom
        cases hroom
    rw [hsame, hnone]
    exact Or.inr rfl
  · obtain ⟨e, t, he, hmark, -⟩ := seqIsFresh_true hf hroom
    have hfind : t.find? f.src = some e := Slots.find?_ensure_self he rfl
    rw [hmark, Slots.find?_modify_self _ _ _ (mark_keeps f.seq f.src), hfind]
    exact Or.inl rfl

theorem lastSeq_hear_ne (st : Station) (f : Frame) {a : Addr} (ha : a ≠ f.src) :
    lastSeq (hear st f).station a = lastSeq st a := by
  have hfind : (seqIsFresh st.seen f.src f.seq).2.find? a = st.seen.find? a := by
    unfold seqIsFresh
    split
    · rfl
    rename_i e t he
    have hens : t.find? a = st.seen.find? a := Slots.find?_ensure_ne he ha
    have hmod : (t.modify f.src (Seen.mark f.seq)).find? a = t.find? a :=
      Slots.find?_modify_ne t ha _ fun e hu hk _ => (mark_keeps f.seq f.src e hu hk).2
    dsimp only
    split
    · exact hmod.trans hens
    split
    · exact hmod.trans hens
    split
    · exact hmod.trans hens
    · exact hens
  unfold lastSeq
  rcases (show (hear st f).station.seen = st.seen ∨ (hear st f).station.seen = (seqIsFresh st.seen f.src f.seq).2 by
    simp only [hear]
    split
    · exact Or.inl rfl
    · split <;> exact Or.inr rfl) with h | h
  · rw [h]
  · rw [h, hfind]

namespace Row

variable {n : Nat} {addr : Fin n → Addr} {r : Row n}

/-! ## What a reader picks from one source -/

/-- Picks only from the frames of `a`. -/
def From {β : Type} (a : Addr) (sel : Frame → Option β) : Prop := ∀ f, f.src ≠ a → sel f = none

/-- What is picked of what is on its way to `x`. -/
def coming {β : Type} (r : Row n) (p : Port) (x : Fin n) (sel : Frame → Option β) : List β :=
  (heading (r.lane p) (place p x)).filterMap sel

/-- Nothing of a board has yet to reach it. -/
theorem Physical.none_behind (h : Physical addr r) (hinj : Function.Injective addr) {β : Type} {s : Fin n}
    {sel : Frame → Option β} (hsel : From (addr s) sel) (p : Port) : ∀ f ∈ heading (r.lane p) (place p s), sel f = none := by
  intro f hf
  obtain ⟨q, hq, hf⟩ := mem_heading.mp hf
  obtain ⟨s', hs'⟩ := h.travelled p q f hf
  refine hsel f fun he => ?_
  obtain rfl : s' = s := hinj (hs'.src.symm.trans he)
  have haway := hs'.away
  omega

theorem coming_send_self (h : Physical addr r) (hinj : Function.Injective addr) {β : Type} {s x : Fin n}
    {sel : Frame → Option β} (hsel : From (addr s) sel) {p : Port} (hx : place p s < place p x) (type : MsgType) (dst : Addr)
    (payload : List Byte) : (r.send s type dst payload).coming p x sel =
      r.coming p x sel ++ if fits type payload then [(r.station s).own type dst payload].filterMap sel else [] := by
  simp only [coming, Row.send]
  by_cases hfit : fits type payload = true
  · rw [if_pos hfit, if_pos hfit]
    exact filterMap_put_last _ _ hx (h.none_behind hinj hsel p)
  · rw [if_neg hfit, if_neg hfit, List.append_nil]

theorem coming_send_ne (h : Physical addr r) (hinj : Function.Injective addr) {β : Type} {s i : Fin n} (hi : i ≠ s)
    {sel : Frame → Option β} (hsel : From (addr s) sel) (p : Port) (x : Fin n) (type : MsgType) (dst : Addr)
    (payload : List Byte) : (r.send i type dst payload).coming p x sel = r.coming p x sel := by
  simp only [coming, Row.send]
  by_cases hfit : fits type payload = true
  · rw [if_pos hfit]
    refine filterMap_put _ _ _ fun f hf => hsel f ?_
    obtain rfl := List.mem_singleton.mp hf
    exact fun he => hi (hinj ((h.self i).symm.trans he))
  · rw [if_neg hfit]

/-- What arrives at `x` has been picked first. -/
theorem coming_arrive_here {β : Type} (sel : Frame → Option β) {p : Port} {x : Fin n} {f : Frame}
    (hf : r.front p x = some f) : r.coming p x sel = (sel f).toList ++ (r.arrive p x f).coming p x sel := by
  obtain ⟨q, rest, hq, hlane, hnew⟩ := front_some hf
  rw [coming, coming, hnew, Function.update_self, hq, heading_pass_here (hear (r.station x) f).onward hlane,
    List.filterMap_cons]
  cases sel f <;> rfl

theorem coming_arrive_other {β : Type} (sel : Frame → Option β) {p p' : Port} (hp : p' ≠ p) (i x : Fin n) (f : Frame) :
    (r.arrive p i f).coming p' x sel = r.coming p' x sel := by
  simp only [coming, arrive, Function.update_of_ne hp]

theorem coming_arrive_ne {β : Type} {sel : Frame → Option β} {p : Port} {i x : Fin n} {f : Frame}
    (hf : r.front p i = some f) (hx : x ≠ i)
    (hon : (hear (r.station i) f).onward.toList.filterMap sel = [f].filterMap sel) :
    (r.arrive p i f).coming p x sel = r.coming p x sel := by
  obtain ⟨q, rest, hq, hlane, hnew⟩ := front_some hf
  rw [coming, coming, hnew, Function.update_self]
  exact filterMap_pass hlane (fun he => hx (place_inj (he.trans hq.symm))) hon

theorem coming_arrive_sublist {β : Type} {sel : Frame → Option β} {p : Port} {i : Fin n} {f : Frame}
    (hf : r.front p i = some f) (p' : Port) (x : Fin n)
    (hon : ((hear (r.station i) f).onward.toList.filterMap sel).Sublist ([f].filterMap sel)) :
    ((r.arrive p i f).coming p' x sel).Sublist (r.coming p' x sel) := by
  obtain ⟨q, rest, hq, hlane, hnew⟩ := front_some hf
  rw [coming, coming, hnew]
  by_cases hp : p' = p
  · subst hp
    rw [Function.update_self]
    exact sublist_pass _ hlane hon
  · rw [Function.update_of_ne hp]

/-! ## Numbered upwards -/

def number (a : Addr) (f : Frame) : Option Nat := if f.src = a then some f.seq.toNat else none

theorem number_from (a : Addr) : From a (number a) := fun _ h => if_neg h

/-- What `x` has seen last of `s`, what is on its way from `s` to `x`, and what `s` sends
    next. -/
def numbers (addr : Fin n → Addr) (r : Row n) (p : Port) (s x : Fin n) : List Nat :=
  (lastSeq (r.station x) (addr s)).toList ++ r.coming p x (number (addr s)) ++ [(r.station s).txSeq.toNat]

structure Ordered (addr : Fin n → Addr) (r : Row n) : Prop where
  few : ∀ s, (r.station s).txSeq.toNat < 32768
  rising : ∀ p s x, place p s < place p x → (numbers addr r p s x).Pairwise (· < ·)

theorem lastSeq_send (r : Row n) (i x : Fin n) (type : MsgType) (dst : Addr) (payload : List Byte) (a : Addr) :
    lastSeq ((r.send i type dst payload).station x) a = lastSeq (r.station x) a := by
  show lastSeq (Function.update r.station i _ x) a = _
  by_cases hx : x = i
  · subst hx
    rw [Function.update_self]
    rfl
  · rw [Function.update_of_ne hx]

theorem txSeq_send_self (r : Row n) (i : Fin n) (type : MsgType) (dst : Addr) (payload : List Byte)
    (h : (r.station i).txSeq.toNat + 1 < 32768) :
    ((r.send i type dst payload).station i).txSeq.toNat = (r.station i).txSeq.toNat + 1 := by
  show (Function.update r.station i _ i).txSeq.toNat = _
  rw [Function.update_self]
  show ((r.station i).txSeq + 1).toNat = _
  rw [UInt16.toNat_add]
  have hone : (1 : UInt16).toNat = 1 := rfl
  omega

theorem txSeq_send_ne (r : Row n) {i k : Fin n} (h : k ≠ i) (type : MsgType) (dst : Addr) (payload : List Byte) :
    ((r.send i type dst payload).station k).txSeq = (r.station k).txSeq := by
  show (Function.update r.station i _ k).txSeq = _
  rw [Function.update_of_ne h]

theorem txSeq_arrive (r : Row n) (p : Port) (i k : Fin n) (f : Frame) :
    ((r.arrive p i f).station k).txSeq = (r.station k).txSeq := by
  by_cases hk : k = i
  · subst hk
    rw [arrive_station_self, hear_txSeq]
  · rw [arrive_station_ne r p hk]

/-- The next number comes after all, used or not. -/
theorem pairwise_next {l : List Nat} {t : Nat} (h : (l ++ [t]).Pairwise (· < ·)) :
    (l ++ [t] ++ [t + 1]).Pairwise (· < ·) := by
  refine List.pairwise_append.mpr ⟨h, List.pairwise_singleton _ _, fun a ha b hb => ?_⟩
  obtain rfl := List.mem_singleton.mp hb
  rcases List.mem_append.mp ha with ha | ha
  · have := (List.pairwise_append.mp h).2.2 a ha t (List.mem_singleton_self t)
    omega
  · obtain rfl := List.mem_singleton.mp ha
    omega

theorem Ordered.send (ho : Ordered addr r) (h : Physical addr r) (hinj : Function.Injective addr) {i : Fin n}
    (hfew : (r.station i).txSeq.toNat + 1 < 32768) (type : MsgType) (dst : Addr) (payload : List Byte) :
    Ordered addr (r.send i type dst payload) := by
  refine ⟨fun s => ?_, fun p s x hx => ?_⟩
  · by_cases hs : s = i
    · subst hs
      rw [txSeq_send_self r s type dst payload hfew]
      exact hfew
    · rw [txSeq_send_ne r hs]
      exact ho.few s
  · have hold := ho.rising p s x hx
    unfold numbers at hold ⊢
    rw [lastSeq_send]
    by_cases hs : s = i
    · subst hs
      have hnum : number (addr s) ((r.station s).own type dst payload) = some (r.station s).txSeq.toNat := if_pos (h.self s)
      rw [txSeq_send_self r s type dst payload hfew, coming_send_self h hinj (number_from _) hx]
      by_cases hfit : fits type payload = true
      · rw [if_pos hfit, List.filterMap_cons_some hnum, List.filterMap_nil, ← List.append_assoc]
        exact pairwise_next hold
      · rw [if_neg hfit, List.append_nil]
        exact (pairwise_next hold).sublist ((List.sublist_append_left _ _).append (List.Sublist.refl _))
    · rw [txSeq_send_ne r hs, coming_send_ne h hinj (Ne.symm hs) (number_from _)]
      exact hold

/-- What is on its way is newer than what the board has seen of its source. -/
theorem arrive_fresh (ho : Ordered addr r) (h : Physical addr r) {p : Port} {i : Fin n} {f : Frame}
    (hf : r.front p i = some f) : fresh (r.station i) f = true := by
  obtain ⟨q, rest, hq, hlane, -⟩ := front_some hf
  obtain ⟨s, hs⟩ := h.travelled p q f (by rw [hlane]; exact List.mem_cons_self)
  have haway := hs.away
  have hr := ho.rising p s i (by omega)
  have hnum : number (addr s) f = some f.seq.toNat := if_pos hs.src
  rw [numbers, coming_arrive_here (number (addr s)) hf, hnum, List.append_assoc] at hr
  have hmem : f.seq.toNat ∈ (some f.seq.toNat).toList ++ (r.arrive p i f).coming p i (number (addr s)) ++
      [(r.station s).txSeq.toNat] := by simp
  refine fresh_of_above (fun k hk => ?_) ?_
  · rw [hs.src] at hk
    exact (List.pairwise_append.mp hr).2.2 k (by rw [hk]; exact List.mem_singleton_self k) _ hmem
  · have hlt : f.seq.toNat < (r.station s).txSeq.toNat := by
      refine (List.pairwise_append.mp (List.pairwise_append.mp hr).2.1).2.2 _ ?_ _ (List.mem_singleton_self _)
      simp
    exact Nat.lt_trans hlt (ho.few s)

theorem number_onward {st : Station} {f g : Frame} (h : (hear st f).onward = some g) (a : Addr) : number a g = number a f := by
  obtain ⟨-, -, rfl⟩ := hear_onward h
  rfl

/-- A frame that arrives from `s` on one lane is from behind. -/
theorem Physical.ahead (h : Physical addr r) (hinj : Function.Injective addr) {p : Port} {i s : Fin n} {f : Frame}
    (hf : r.front p i = some f) (hs : f.src = addr s) : place p s < place p i := by
  obtain ⟨q, rest, hq, hlane, -⟩ := front_some hf
  obtain ⟨s', hs'⟩ := h.travelled p q f (by rw [hlane]; exact List.mem_cons_self)
  obtain rfl := hinj (hs'.src.symm.trans hs)
  have haway := hs'.away
  omega

theorem Ordered.arrive (ho : Ordered addr r) (h : Physical addr r) (hinj : Function.Injective addr) (hn : n ≤ 20) {p : Port}
    {i : Fin n} {f : Frame} (hf : r.front p i = some f) : Ordered addr (r.arrive p i f) := by
  have hsub : ∀ a, ((hear (r.station i) f).onward.toList.filterMap (number a)).Sublist ([f].filterMap (number a)) := by
    intro a
    cases hon : (hear (r.station i) f).onward with
    | none => exact List.nil_sublist _
    | some g =>
      rw [Option.toList_some, List.filterMap_cons, List.filterMap_cons, number_onward hon]
  refine ⟨fun s => ?_, fun p' s x hx => ?_⟩
  · rw [txSeq_arrive]
    exact ho.few s
  · refine (ho.rising p' s x hx).sublist ?_
    unfold numbers
    rw [txSeq_arrive]
    refine List.Sublist.append ?_ (List.Sublist.refl _)
    by_cases hhere : x = i ∧ f.src = addr s
    · -- the frame is now the last that `x` has seen of `s`
      obtain ⟨rfl, hs⟩ := hhere
      have hahead := h.ahead hinj hf hs
      obtain rfl : p' = p := port_eq_of_ahead hahead hx
      have hlast := lastSeq_hear_self (h.front hinj hn hf).1 (arrive_fresh ho h hf)
      have hnum : number (addr s) f = some f.seq.toNat := if_pos hs
      rw [coming_arrive_here (number (addr s)) hf, hnum, arrive_station_self, ← hs, Option.toList_some]
      refine (List.Sublist.append ?_ (List.Sublist.refl _)).trans (List.sublist_append_right _ _)
      rcases hlast with hl | hl <;> rw [hl]
      · exact List.Sublist.refl _
      · exact List.nil_sublist _
    · have hlast : lastSeq ((r.arrive p i f).station x) (addr s) = lastSeq (r.station x) (addr s) := by
        by_cases hx' : x = i
        · subst hx'
          rw [arrive_station_self]
          exact lastSeq_hear_ne _ f fun he => hhere ⟨rfl, he.symm⟩
        · rw [arrive_station_ne r p hx']
      rw [hlast]
      exact (List.Sublist.refl _).append (coming_arrive_sublist hf p' x (hsub _))

end Row

end DeskHop.Wire
