/-
  DeskHop.Wire.Replay — no frame is accepted twice.

  A run is one keyed link and whatever bytes are presented on its two ports: frames of
  the chain, copies of them made by somebody with a tap on the wire, noise. Beside the
  link it records the frames the link has accepted, that is delivered or relayed
  (`Tap`).

  Proved, for every run in which no frame of a source is presented that lies more than
  1024 behind the highest of it that was accepted (`no_replay`): a frame of that source
  that the link has accepted is neither delivered nor relayed again.

  Behind that the link takes a frame to come from a board that restarted, and accepts
  it: whoever replays the first frame of a source after its 1026th gets it through
  (`stale_copy_is_accepted`).
-/

import DeskHop.Lib.Reach
import DeskHop.Wire.Link
import Mathlib.Data.List.Dedup

namespace DeskHop.Wire

open DeskHop.Lib

/-- The frame a received byte completes, past the decoder's checks. -/
def arrival (l : Link) (p : Port) (byte : Byte) : Option Frame :=
  match (framerPush (l.port p).framer byte (if l.hasKey then some l.key else none)).2 with
  | .ok f => some f
  | .error _ => none

/-- The link delivers or relays the frame. -/
def accepts (l : Link) (f : Frame) : Bool :=
  (l.hasKey || f.type == msgPair) && f.src != l.self && (seqIsFresh l.seen f.src f.seq).1

/-- What of a frame no board along the way changes: its body without hop limit and CRC. -/
def Frame.origin (f : Frame) : List Byte :=
  f.body.take offTtl ++ (f.body.drop offSrc).take (f.body.length - offSrc - crcBytes)

structure Tap where
  l : Link
  /-- The frames the link has accepted, latest first. -/
  accepted : List Frame
  deriving DecidableEq

namespace Tap

inductive Event where
  | byte (p : Port) (b : Byte) (now : Time)
  | send (type : MsgType) (dst : Addr) (payload : List Byte)
  | tick (now : Time)

def taken (l : Link) (p : Port) (b : Byte) : Option Frame := (arrival l p b).filter (accepts l)

def step (t : Tap) : Event → Tap
  | .byte p b now => ⟨(linkRxByte t.l p b now).1, (taken t.l p b).toList ++ t.accepted⟩
  | .send type dst payload => ⟨(linkSend t.l type dst payload).2, t.accepted⟩
  | .tick now => ⟨linkTick t.l now, t.accepted⟩

def Keyed (self : Addr) (key : Key) (t : Tap) : Prop := t = ⟨linkSetKey (linkInit self) key, []⟩

/-- The sources of the frames accepted, and of one more. -/
def sources (t : Tap) (f : Frame) : List Addr := (f.src :: t.accepted.map (·.src)).dedup

/-- At most 16 sources, and no source numbers two frames alike: none has originated
    65536 frames, and none has restarted. -/
def honest (t : Tap) (f : Frame) : Bool :=
  (t.sources f).length ≤ maxBoards &&
    t.accepted.all fun g => !(g.src == f.src && g.seq == f.seq) || g.origin == f.origin

/-- A frame of `a` is not far behind what was accepted of `a`. -/
def recent (t : Tap) (a : Addr) (f : Frame) : Bool :=
  f.src != a || t.accepted.all fun g => g.src != a || g.seq.toNat ≤ f.seq.toNat + 1024

def Honest (t : Tap) : Event → Prop
  | .byte p b _ => (arrival t.l p b).all t.honest = true
  | _ => True

def Recent (a : Addr) (t : Tap) : Event → Prop
  | .byte p b _ => (arrival t.l p b).all (fun f => t.honest f && t.recent a f) = true
  | _ => True

instance (t : Tap) (e : Event) : Decidable (Honest t e) := by
  unfold Honest
  cases e <;> infer_instance

instance (a : Addr) (t : Tap) (e : Event) : Decidable (Recent a t e) := by
  unfold Recent
  cases e <;> infer_instance

/-- The byte delivers nothing, and puts nothing on a wire. -/
def Refused (l : Link) (p : Port) (b : Byte) (now : Time) : Prop :=
  (∀ f, (linkRxByte l p b now).2 ≠ .ok f) ∧ (linkRxByte l p b now).1.wire = l.wire

/-- A copy of an accepted frame of `a` is refused. -/
def NoReplay (a : Addr) (t : Tap) : Prop :=
  ∀ p b now f g, arrival t.l p b = some f → f.src = a → g ∈ t.accepted → g.src = f.src → g.seq = f.seq →
    g.origin = f.origin → Refused t.l p b now

/-! ## What a byte does -/

section keyed

variable {l : Link} (hk : l.hasKey = true) {p : Port} {b : Byte}
include hk

/-- The link with the decoder of the port one byte further. -/
theorem linkRxByte_of_taken {f : Frame} (h : taken l p b = some f) (now : Time) :
    (linkRxByte l p b now).1.seen = (seqIsFresh l.seen f.src f.seq).2 ∧ (linkRxByte l p b now).1.hasKey = l.hasKey ∧
      (linkRxByte l p b now).1.self = l.self := by
  obtain ⟨harr, hacc⟩ := Option.filter_eq_some_iff.mp h
  simp only [accepts, hk, Bool.true_or, Bool.true_and, Bool.and_eq_true, bne_iff_ne, ne_eq] at hacc
  unfold arrival at harr
  simp only [linkRxByte]
  split at harr
  · rename_i f' hr
    cases harr
    simp only [hr, accept]
    rw [if_neg (by simp [hk]), if_neg (by simpa using hacc.1)]
    simp only [setPort_seen, hacc.2, Bool.not_true, Bool.false_eq_true, if_false]
    by_cases hd : f.dst = l.self <;> simp [hd, relay_same]
  · cases harr

theorem linkRxByte_of_not_taken (h : taken l p b = none) (now : Time) :
    Refused l p b now ∧ (linkRxByte l p b now).1.seen = l.seen ∧ (linkRxByte l p b now).1.hasKey = l.hasKey ∧
      (linkRxByte l p b now).1.self = l.self := by
  unfold Refused
  simp only [linkRxByte]
  cases hr : (framerPush (l.port p).framer b (if l.hasKey then some l.key else none)).2 with
  | error e => simp
  | ok f =>
    have harr : arrival l p b = some f := by simp only [arrival, hr]
    have hacc : accepts l f = false := by
      rw [taken, harr, Option.filter_some] at h
      by_contra hc
      rw [if_pos (by simpa using hc)] at h
      cases h
    simp only [accepts, hk, Bool.true_or, Bool.true_and, Bool.and_eq_false_iff, bne_eq_false_iff_eq] at hacc
    simp only [accept]
    rw [if_neg (by simp [hk])]
    by_cases hs : f.src = l.self
    · rw [if_pos (by simpa using hs)]
      simp
    · rw [if_neg (by simpa using hs)]
      have hold := hacc.resolve_left hs
      simp [hold, (seqIsFresh_false hold).1]

end keyed

/-! ## The invariant -/

/-- What the replay window says of the frames accepted, and of those of `a` in particular. -/
structure Inv (a : Addr) (t : Tap) : Prop where
  keyed : t.l.hasKey = true
  unique : t.l.seen.Unique
  /-- Every entry is for the source of an accepted frame. -/
  heard : ∀ s ∈ t.l.seen.cells, s.used = true → s.addr ∈ t.accepted.map (·.src)
  /-- No accepted frame of `a` is past the mark. -/
  below : ∀ g ∈ t.accepted, g.src = a → ∃ s, t.l.seen.find? a = some s ∧ g.seq.toNat ≤ s.highSeq.toNat
  /-- The mark is that of an accepted frame. -/
  mark : ∀ s, t.l.seen.find? a = some s → s.primed = true ∧ ∃ g ∈ t.accepted, g.src = a ∧ g.seq = s.highSeq

theorem keyed_inv {a self : Addr} {key : Key} {t : Tap} (h : Keyed self key t) : Inv a t := by
  obtain rfl := h
  have hfind : ∀ k, (linkSetKey (linkInit self) key).seen.find? k = none := Slots.find?_replicate_none rfl
  refine ⟨rfl, Slots.unique_replicate rfl, fun s hs hu => ?_, fun g hg => (by cases hg), fun s hs => ?_⟩
  · rw [(List.mem_replicate.mp hs).2] at hu
    cases hu
  · rw [hfind] at hs
    cases hs

/-- With at most 16 sources there is a slot for each. -/
theorem room {a : Addr} {t : Tap} {f : Frame} (hi : Inv a t) (hh : t.honest f = true) :
    t.l.seen.ensure (freshSeen f.src) ≠ none := by
  intro hn
  obtain ⟨hnodup, hlen, hnot, hused⟩ := hi.unique.full hn
  simp only [honest, Bool.and_eq_true, decide_eq_true_eq] at hh
  -- the sources in the table, and the new one, are 17
  have hsub : (f.src :: t.l.seen.cells.map Slotted.key) ⊆ t.sources f := by
    intro k hk
    refine List.mem_dedup.mpr ?_
    rcases List.mem_cons.mp hk with rfl | hk
    · exact List.mem_cons_self
    · obtain ⟨s, hs, rfl⟩ := List.mem_map.mp hk
      exact List.mem_cons_of_mem _ (hi.heard s hs (hused s hs))
  have hle := (List.nodup_cons.mpr ⟨hnot, hnodup⟩).subperm hsub |>.length_le
  rw [List.length_cons, hlen] at hle
  omega

theorem mark_key (seq : UInt16) (k : Addr) (s : Seen) (hu : Slotted.used s = true) (hk : Slotted.key s = k) :
    Slotted.used (Seen.mark seq s) = true ∧ Slotted.key (Seen.mark seq s) = k := ⟨hu, hk⟩

/-- What the acceptance of a frame does to the window. -/
theorem step_inv_of_taken {a : Addr} {t : Tap} {p : Port} {b : Byte} {now : Time} {f : Frame} (hi : Inv a t)
    (hh : t.honest f = true) (hr : t.recent a f = true) (h : taken t.l p b = some f) : Inv a (t.step (.byte p b now)) := by
  obtain ⟨hseen, hkey, _⟩ := linkRxByte_of_taken hi.keyed h now
  have hfresh : (seqIsFresh t.l.seen f.src f.seq).1 = true := by
    have hacc := (Option.filter_eq_some_iff.mp h).2
    simp only [accepts, Bool.and_eq_true] at hacc
    exact hacc.2
  obtain ⟨s, t', hens, htab, hdelta⟩ := seqIsFresh_true hfresh (room hi hh)
  have hacc : (t.step (.byte p b now)).accepted = f :: t.accepted := by simp [step, h]
  have hcells : (t.step (.byte p b now)).l.seen = t'.modify f.src (Seen.mark f.seq) := hseen.trans htab
  have hself : (t'.modify f.src (Seen.mark f.seq)).find? f.src = some (Seen.mark f.seq s) := by
    rw [Slots.find?_modify_self t' f.src _ fun x hu hk => mark_key f.seq f.src x hu hk,
      show t'.find? f.src = some s from Slots.find?_ensure_self hens rfl]
    rfl
  have hother : ∀ k, k ≠ f.src → (t'.modify f.src (Seen.mark f.seq)).find? k = t.l.seen.find? k := by
    intro k hk
    rw [Slots.find?_modify_ne t' hk _ fun x hu hx _ => (mark_key f.seq f.src x hu hx).2]
    exact Slots.find?_ensure_ne hens hk
  refine ⟨hkey.trans hi.keyed, ?_, fun e he hu => ?_, fun g hg hga => ?_, fun e he => ?_⟩
  · rw [hcells]
    exact (hi.unique.ensure hens).modify fun x hu hk _ => (mark_key f.seq f.src x hu hk).2
  · rw [hcells] at he
    rw [hacc, List.map_cons]
    have hsrc : ∀ x ∈ t'.cells, x.used = true → x.addr ∈ f.src :: t.accepted.map (·.src) := by
      intro x hx hxu
      rcases Slots.mem_ensure hens hx with hx | rfl
      · exact List.mem_cons_of_mem _ (hi.heard x hx hxu)
      · exact List.mem_cons_self
    rcases Slots.mem_modify he with he | ⟨x, hx, hxu, _, rfl⟩
    · exact hsrc e he hu
    · exact hsrc x hx hxu
  · rw [hcells]
    rw [hacc] at hg
    by_cases hfa : f.src = a
    · refine ⟨Seen.mark f.seq s, by rw [← hfa]; exact hself, ?_⟩
      rcases List.mem_cons.mp hg with rfl | hg
      · exact Nat.le_refl _
      · -- a frame of `a` that is not far behind and was accepted is past the mark
        obtain ⟨s', hs', hle⟩ := hi.below g hg hga
        have hss : s = s' := by
          rw [← hfa] at hs'
          rw [Slots.ensure_of_find (a := freshSeen f.src) hs'] at hens
          exact (congrArg Prod.fst (Option.some.inj hens)).symm
        subst hss
        obtain ⟨hp, g', hg', hg'a, hmark⟩ := hi.mark s hs'
        have hrecent : s.highSeq.toNat ≤ f.seq.toNat + 1024 := by
          simp only [recent, Bool.or_eq_true, bne_iff_ne, ne_eq, List.all_eq_true, decide_eq_true_eq] at hr
          have := (hr.resolve_left (not_not.mpr hfa) g' hg').resolve_left (not_not.mpr hg'a)
          rw [← hmark]
          exact this
        show g.seq.toNat ≤ f.seq.toNat
        by_contra hlt
        obtain ⟨h1, h2⟩ := seqDelta_of_le (a := f.seq) (b := s.highSeq) (by omega) hrecent
        have := hdelta hp
        omega
    · rw [hother a fun e => hfa e.symm]
      rcases List.mem_cons.mp hg with rfl | hg
      · exact absurd hga hfa
      · exact hi.below g hg hga
  · rw [hcells] at he
    rw [hacc]
    by_cases hfa : f.src = a
    · rw [← hfa, hself] at he
      cases he
      exact ⟨rfl, f, List.mem_cons_self, hfa, rfl⟩
    · rw [hother a fun e => hfa e.symm] at he
      obtain ⟨hp, g, hg, hga, hm⟩ := hi.mark e he
      exact ⟨hp, g, List.mem_cons_of_mem _ hg, hga, hm⟩

theorem step_inv {a : Addr} {t : Tap} {e : Event} (hi : Inv a t) (ho : Recent a t e) : Inv a (t.step e) := by
  cases e with
  | byte p b now =>
    cases h : taken t.l p b with
    | some f =>
      have harr := (Option.filter_eq_some_iff.mp h).1
      have ho' : (t.honest f && t.recent a f) = true := by
        have := ho
        rw [Recent, harr] at this
        exact this
      rw [Bool.and_eq_true] at ho'
      exact step_inv_of_taken hi ho'.1 ho'.2 h
    | none =>
      obtain ⟨_, hseen, hkey, _⟩ := linkRxByte_of_not_taken hi.keyed h now
      have hacc : (t.step (.byte p b now)).accepted = t.accepted := by simp [step, h]
      have hl : (t.step (.byte p b now)).l.seen = t.l.seen := hseen
      exact ⟨hkey.trans hi.keyed, by rw [hl]; exact hi.unique, by rw [hl, hacc]; exact hi.heard,
        by rw [hl, hacc]; exact hi.below, by rw [hl, hacc]; exact hi.mark⟩
  | send type dst payload =>
    obtain ⟨hkey, _, hseen, _⟩ := linkSend_same t.l type dst payload
    have hl : (t.step (.send type dst payload)).l.seen = t.l.seen := hseen
    exact ⟨hkey.trans hi.keyed, by rw [hl]; exact hi.unique, by rw [hl]; exact hi.heard, by rw [hl]; exact hi.below,
      by rw [hl]; exact hi.mark⟩
  | tick now =>
    obtain ⟨hkey, _, hseen, _⟩ := linkTick_same t.l now
    have hl : (t.step (.tick now)).l.seen = t.l.seen := hseen
    exact ⟨hkey.trans hi.keyed, by rw [hl]; exact hi.unique, by rw [hl]; exact hi.heard, by rw [hl]; exact hi.below,
      by rw [hl]; exact hi.mark⟩

end Tap

open Tap

/-- While no frame of `a` is presented from far behind, none of them is accepted twice. -/
theorem no_replay {self a : Addr} {key : Key} {t : Tap} (h : Reach (Keyed self key) (Recent a) Tap.step t) (p : Port)
    (b : Byte) (now : Time) (ho : Recent a t (.byte p b now)) {f g : Frame} (hf : arrival t.l p b = some f)
    (hfa : f.src = a) (hg : g ∈ t.accepted) (hsrc : g.src = f.src) (hseq : g.seq = f.seq) : Refused t.l p b now := by
  have hi : Inv a t := h.inv (I := Inv a) (fun _ hk => keyed_inv hk) fun _ _ hi ho => step_inv hi ho
  obtain ⟨s, hs, hle⟩ := hi.below g hg (hsrc.trans hfa)
  obtain ⟨hp, g', hg', hga', hmark⟩ := hi.mark s hs
  have hrecent : s.highSeq.toNat ≤ f.seq.toNat + 1024 := by
    rw [Recent, hf] at ho
    simp only [Option.all_some, Bool.and_eq_true, recent, Bool.or_eq_true, bne_iff_ne, ne_eq, List.all_eq_true,
      decide_eq_true_eq] at ho
    have := (ho.2.resolve_left (not_not.mpr hfa) g' hg').resolve_left (not_not.mpr hga')
    rw [← hmark]
    exact this
  obtain ⟨h1, h2⟩ := seqDelta_of_le (a := f.seq) (b := s.highSeq) (hseq ▸ hle) hrecent
  -- the window turns the number down
  have hold : (seqIsFresh t.l.seen f.src f.seq).1 = false := by
    by_contra hc
    have hens := Slots.ensure_of_find (a := freshSeen f.src) (t := t.l.seen) (b := s) (by rw [← hfa] at hs; exact hs)
    obtain ⟨s', t', hens', _, hd⟩ := seqIsFresh_true (by simpa using hc) (by rw [hens]; simp)
    rw [hens] at hens'
    cases hens'
    have := hd hp
    omega
  have hnot : taken t.l p b = none := by
    rw [taken, hf, Option.filter_some, if_neg]
    simp [accepts, hold]
  exact (linkRxByte_of_not_taken hi.keyed hnot now).1

/-! ## A copy from far behind -/

def tapKey : Key := Bytes.zero 16

/-- A RESIGN of board 2. -/
def resignFrame (seq : UInt16) : Frame :=
  { type := msgResign, ttl := ttlDefault, src := 2, dst := addrBroadcast, seq := seq, payload := [], body := [] }

/-- Its bytes as they come in on the up port. -/
def resignBytes (seq : UInt16) : List Tap.Event :=
  (flag :: (frameBody (resignFrame seq) tapKey).flatMap stuff ++ [flag]).map fun b => .byte .up b 0

/-- The bytes are those the board puts on the wire. -/
example : (frameEncode (resignFrame 1025) tapKey wireMax).toOption =
    some (flag :: (frameBody (resignFrame 1025) tapKey).flatMap stuff ++ [flag]) := by decide +kernel

def tapped : Tap := ⟨linkSetKey (linkInit 1) tapKey, []⟩

/-- The frames 0 and 1025 of board 2, and a copy of the frame 0 up to its closing flag. -/
def staleBytes : List Tap.Event := resignBytes 0 ++ resignBytes 1025 ++ (resignBytes 0).dropLast

/-- The closing flag of the copy delivers it. -/
theorem stale_copy_is_accepted :
    ¬ ∀ (self : Addr) (key : Key) (t : Tap), Reach (Keyed self key) Honest Tap.step t → ∀ a, NoReplay a t := by
  intro h
  have h0 : Reach (Keyed 1 tapKey) Honest Tap.step tapped := .init rfl
  have hr : Reach (Keyed 1 tapKey) Honest Tap.step (staleBytes.foldl Tap.step tapped) :=
    h0.run staleBytes (by decide +kernel)
  have hlaw := h 1 tapKey _ hr 2 .up flag 0
  -- the copy is complete, and a frame like it has been accepted
  obtain ⟨f, hf⟩ : ∃ f, arrival (staleBytes.foldl Tap.step tapped).l .up flag = some f :=
    Option.isSome_iff_exists.mp (by decide +kernel)
  have hold : (staleBytes.foldl Tap.step tapped).accepted.any (fun g =>
      (arrival (staleBytes.foldl Tap.step tapped).l .up flag).any fun f =>
        f.src == 2 && g.src == f.src && g.seq == f.seq && g.origin == f.origin) = true := by decide +kernel
  obtain ⟨g, hg, hsame⟩ := List.any_eq_true.mp hold
  rw [hf] at hsame
  simp only [Option.any_some, Bool.and_eq_true, beq_iff_eq] at hsame
  obtain ⟨⟨⟨h1, h2⟩, h3⟩, h4⟩ := hsame
  have hdelivered : (linkRxByte (staleBytes.foldl Tap.step tapped).l .up flag 0).2.toOption.isSome = true := by
    decide +kernel
  obtain ⟨f', hf'⟩ := Option.isSome_iff_exists.mp hdelivered
  refine (hlaw f g hf h1 hg h2 h3 h4).1 f' ?_
  cases hres : (linkRxByte (staleBytes.foldl Tap.step tapped).l .up flag 0).2 with
  | error e =>
    rw [hres] at hf'
    cases hf'
  | ok f'' =>
    rw [hres] at hf'
    cases hf'
    rfl

/-- The frame 0 and a copy of it at once. -/
def freshBytes : List Tap.Event := resignBytes 0 ++ (resignBytes 0).dropLast

theorem no_replay_of_a_fresh_copy : Refused (freshBytes.foldl Tap.step tapped).l .up flag 0 := by
  have h0 : Reach (Keyed 1 tapKey) (Recent 2) Tap.step tapped := .init rfl
  have hr : Reach (Keyed 1 tapKey) (Recent 2) Tap.step (freshBytes.foldl Tap.step tapped) :=
    h0.run freshBytes (by decide +kernel)
  obtain ⟨f, hf⟩ : ∃ f, arrival (freshBytes.foldl Tap.step tapped).l .up flag = some f :=
    Option.isSome_iff_exists.mp (by decide +kernel)
  have hold : (freshBytes.foldl Tap.step tapped).accepted.any (fun g =>
      (arrival (freshBytes.foldl Tap.step tapped).l .up flag).any fun f =>
        f.src == 2 && g.src == f.src && g.seq == f.seq) = true := by decide +kernel
  obtain ⟨g, hg, hsame⟩ := List.any_eq_true.mp hold
  rw [hf] at hsame
  simp only [Option.any_some, Bool.and_eq_true, beq_iff_eq] at hsame
  exact no_replay hr .up flag 0 (by decide +kernel) hf hsame.1.1 hg hsame.1.2 hsame.2

end DeskHop.Wire
