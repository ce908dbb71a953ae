/-
  DeskHop.Wire.Course — what becomes of the frames of an honest source.

  A run is one link, any bytes on its two ports, any sends, ticks and changes of key; and
  beside it one other board, the source, which numbers its frames 0, 1, 2, … modulo 2^16,
  restarts at 0 when it reboots, and some of whose frames go elsewhere (`Course`). Some of
  the bytes complete the source's next frame; all others are free, those included that
  complete an old frame of the source once more.

  Proved, for every run (`source_heard_iff`): every frame of the source that arrives in
  turn is accepted exactly when each is numbered, modulo 2^16, more than 1024 behind or
  else ahead of the last frame of the source that was accepted, or the table of sources is
  full without it. `reboot_is_refused` is a source that reboots after its first frame and
  is not heard.
-/

import DeskHop.Wire.Replay

namespace DeskHop.Wire

open DeskHop.Lib

structure Course where
  l : Link
  /-- The number the source gives its next frame. -/
  next : UInt16
  /-- The number of the last frame of the source that the link accepted. -/
  last : Option UInt16
  deriving DecidableEq

namespace Course

inductive Event where
  /-- The byte that completes the source's next frame. -/
  | arrives (p : Port) (b : Byte) (now : Time)
  /-- The source's next frame does not come this way, or not in turn. -/
  | elsewhere
  | reboot
  | byte (p : Port) (b : Byte) (now : Time)
  | send (type : MsgType) (dst : Addr) (payload : List Byte)
  | tick (now : Time)
  | setKey (key : Key)
  | clearKey

/-- The number of the last accepted frame of `a`, one byte further. -/
def noted (a : Addr) (c : Course) (p : Port) (b : Byte) : Option UInt16 :=
  (((Tap.taken c.l p b).filter (·.src == a)).map (·.seq)).or c.last

def step (a : Addr) (c : Course) : Event → Course
  | .arrives p b now => ⟨(linkRxByte c.l p b now).1, c.next + 1, noted a c p b⟩
  | .elsewhere => { c with next := c.next + 1 }
  | .reboot => { c with next := 0 }
  | .byte p b now => { c with l := (linkRxByte c.l p b now).1, last := noted a c p b }
  | .send type dst payload => { c with l := (linkSend c.l type dst payload).2 }
  | .tick now => { c with l := linkTick c.l now }
  | .setKey key => { c with l := linkSetKey c.l key }
  | .clearKey => { c with l := linkClearKey c.l }

def start (self : Addr) : Course := ⟨linkInit self, 0, none⟩

/-- The source's next frame, and one that the link can judge: without a key it drops all
    but pairing frames unread. -/
def inTurn (a : Addr) (c : Course) (f : Frame) : Bool :=
  f.src == a && f.seq == c.next && (c.l.hasKey || f.type == msgPair)

def Genuine (a : Addr) (c : Course) : Event → Prop
  | .arrives p b _ => (arrival c.l p b).any (inTurn a c) = true
  | _ => True

/-- What the link says of a frame it accepts: it delivers what is for us, and relays the rest. -/
def welcome (l : Link) (f : Frame) : Except Result Frame :=
  if f.dst = l.self || f.dst = addrBroadcast then .ok f else .error .again

/-- The source's frame is accepted. -/
def Heard (c : Course) : Event → Prop
  | .arrives p b now => ∀ f ∈ arrival c.l p b, (linkRxByte c.l p b now).2 = welcome c.l f
  | _ => True

instance (a : Addr) (c : Course) (e : Event) : Decidable (Genuine a c e) := by
  unfold Genuine
  cases e <;> infer_instance

instance (c : Course) (e : Event) : Decidable (Heard c e) := by
  unfold Heard
  cases e <;> infer_instance

/-- Sixteen other sources fill the table. -/
def crowded (t : SeenTable) (a : Addr) : Bool := (t.ensure (freshSeen a)).isNone

/-- The source's next number is not among the 1024 up to the last one accepted, nor that
    one, modulo 2^16. -/
def Spaced (a : Addr) (c : Course) : Event → Prop
  | .arrives _ _ _ => crowded c.l.seen a = true ∨ ∀ m ∈ c.last, 1024 < (m - c.next).toNat
  | _ => True

instance (a : Addr) (c : Course) (e : Event) : Decidable (Spaced a c e) := by
  -- the one number there may be, rather than every number
  have hlast : Decidable (∀ m ∈ c.last, 1024 < (m - c.next).toNat) :=
    Option.decidableForallMem c.last
  unfold Spaced
  cases e <;> infer_instance

end Course

/-! ## One number against another -/

/-- The signed comparison turns down the 1024 numbers up to the mark, and the mark. -/
theorem seqDelta_iff (seq m : UInt16) :
    (seqDelta seq m > 0 ∨ seqDelta seq m < restartJump) ↔ 1024 < (m - seq).toNat := by
  have hs := seq.toNat_lt
  have hm := m.toNat_lt
  have hd : (seq - m).toBitVec.toNat = (2 ^ 16 - m.toNat + seq.toNat) % 2 ^ 16 := UInt16.toNat_sub seq m
  have hb : (m - seq).toNat = (2 ^ 16 - seq.toNat + m.toNat) % 2 ^ 16 := UInt16.toNat_sub m seq
  rw [seqDelta, restartJump, BitVec.toInt_eq_toNat_cond, hd, hb]
  split <;> omega

namespace Course

open Tap

theorem seqIsFresh_of_crowded {t : SeenTable} {a : Addr} (h : crowded t a = true) (seq : UInt16) :
    seqIsFresh t a seq = (true, t) := by
  rw [crowded, Option.isNone_iff_eq_none] at h
  simp only [seqIsFresh, h]

theorem seqIsFresh_of_listed {t : SeenTable} {a : Addr} {s : Seen} (hs : t.find? a = some s) (hp : s.primed = true)
    (seq : UInt16) : (seqIsFresh t a seq).1 = true ↔ 1024 < (s.highSeq - seq).toNat := by
  have hens : t.ensure (freshSeen a) = some (s, t) := Slots.ensure_of_find (a := freshSeen a) hs
  rw [← seqDelta_iff]
  simp only [seqIsFresh, hens, hp, Bool.not_true, Bool.false_eq_true, if_false]
  by_cases h1 : seqDelta seq s.highSeq > 0
  · simp [h1]
  · by_cases h2 : seqDelta seq s.highSeq < restartJump <;> simp [h1, h2]

theorem seqIsFresh_of_unlisted {t : SeenTable} {a : Addr} (hn : t.find? a = none) (seq : UInt16) :
    (seqIsFresh t a seq).1 = true := by
  by_contra hc
  obtain ⟨_, s, hs, _⟩ := seqIsFresh_false (Bool.eq_false_iff.mpr hc)
  rw [hn] at hs
  cases hs

/-! ## What a byte does to the table -/

/-- The link has the key for the frame, and it is not its own. -/
def judges (l : Link) (f : Frame) : Bool := (l.hasKey || f.type == msgPair) && f.src != l.self

theorem accept_judged {l : Link} {f : Frame} (h : judges l f = true) (p : Port) :
    (accept l p f).2 = (if (seqIsFresh l.seen f.src f.seq).1 then welcome l f else .error .replay) ∧
      (accept l p f).1.seen = (seqIsFresh l.seen f.src f.seq).2 := by
  simp only [judges, Bool.and_eq_true, bne_iff_ne, ne_eq] at h
  have hkey : ¬ (!l.hasKey && f.type != msgPair) = true := by
    have hj := h.1
    cases hk : l.hasKey <;> simp_all
  simp only [accept, if_neg hkey, if_neg h.2]
  cases hfresh : (seqIsFresh l.seen f.src f.seq).1 with
  | false => simp
  | true =>
    by_cases hd : f.dst = l.self
    · simp [hd, welcome]
    · have hr := relay_same { l with seen := (seqIsFresh l.seen f.src f.seq).2 } p f
      simp [hd, welcome, hr.2.2.1, hr.2.2.2]

theorem accept_unjudged {l : Link} {f : Frame} (h : judges l f = false) (p : Port) : (accept l p f).1 = l := by
  unfold accept
  split
  · rfl
  split
  · rfl
  · rename_i hkey hself
    simp only [judges, Bool.and_eq_false_iff, bne_eq_false_iff_eq] at h
    rcases h with hj | hs
    · simp only [Bool.or_eq_false_iff] at hj
      simp [hj.1, bne, hj.2] at hkey
    · exact absurd hs hself

theorem accepts_eq (l : Link) (f : Frame) : accepts l f = (judges l f && (seqIsFresh l.seen f.src f.seq).1) := rfl

theorem rx_of_arrival {l : Link} {p : Port} {b : Byte} {f : Frame} (h : arrival l p b = some f) (now : Time) :
    ∃ l' : Link, l'.self = l.self ∧ l'.hasKey = l.hasKey ∧ l'.seen = l.seen ∧ linkRxByte l p b now = accept l' p f := by
  unfold arrival at h
  split at h
  · rename_i f' hr
    cases h
    simp only [linkRxByte, hr]
    exact ⟨_, by simp, by simp, by simp, rfl⟩
  · cases h

/-- The table after a byte: touched by a frame that is accepted, and by nothing else. -/
theorem linkRxByte_seen (l : Link) (p : Port) (b : Byte) (now : Time) :
    (linkRxByte l p b now).1.seen = ((taken l p b).map fun f => (seqIsFresh l.seen f.src f.seq).2).getD l.seen := by
  cases h : arrival l p b with
  | none =>
    have hnone : taken l p b = none := by rw [taken, h]; rfl
    rw [hnone]
    unfold arrival at h
    split at h
    · cases h
    · rename_i e hr
      simp only [linkRxByte, hr]
      simp
  | some f =>
    obtain ⟨l', hself, hkey, hseen, hrx⟩ := rx_of_arrival h now
    have hjudges : judges l' f = judges l f := by unfold judges; rw [hself, hkey]
    rw [hrx, taken, h, Option.filter_some, accepts_eq]
    cases hj : judges l f with
    | false =>
      rw [accept_unjudged (hjudges.trans hj), hseen]
      rfl
    | true =>
      rw [(accept_judged (hjudges.trans hj) p).2, hseen]
      cases hfresh : (seqIsFresh l.seen f.src f.seq).1 with
      | false =>
        rw [(seqIsFresh_false hfresh).1]
        rfl
      | true => rfl

/-- A judged frame is accepted, or turned down as a replay. -/
theorem linkRxByte_verdict {l : Link} {p : Port} {b : Byte} {f : Frame} (h : arrival l p b = some f)
    (hj : judges l f = true) (now : Time) :
    (linkRxByte l p b now).2 = (if (seqIsFresh l.seen f.src f.seq).1 then welcome l f else .error .replay) := by
  obtain ⟨l', hself, hkey, hseen, hrx⟩ := rx_of_arrival h now
  have hjudges : judges l' f = judges l f := by unfold judges; rw [hself, hkey]
  rw [hrx, (accept_judged (hjudges.trans hj) p).1, hseen]
  unfold welcome
  rw [hself]

/-! ## The mark is the last number accepted -/

theorem crowded_iff {t : SeenTable} {a : Addr} :
    crowded t a = true ↔ t.find? a = none ∧ ∀ s ∈ t.cells, s.used = true := by
  rw [crowded, Option.isNone_iff_eq_none]
  constructor
  · intro h
    unfold Slots.ensure at h
    split at h
    · cases h
    · rename_i hf
      exact ⟨hf, fun s hs => Slots.used_of_claim_none (Option.map_eq_none_iff.mp h) hs⟩
  · rintro ⟨hf, hu⟩
    have hany : t.cells.any (fun s => !Slotted.used s) = false := by
      rw [List.any_eq_false]
      intro s hs
      have hu : Slotted.used s = true := hu s hs
      simpa using hu
    have hf : t.find? (Slotted.key (freshSeen a)) = none := hf
    rw [Slots.ensure, hf]
    simp only [Slots.claim, hany, Bool.false_eq_true, if_false, Option.map_none]

/-- The table after the judgement of a number, in all three cases. -/
theorem seqIsFresh_table (t : SeenTable) (k : Addr) (seq : UInt16) :
    (seqIsFresh t k seq).2 = t ∨ ∃ s t', t.ensure (freshSeen k) = some (s, t') ∧
      ((seqIsFresh t k seq).2 = t' ∨ (seqIsFresh t k seq).2 = t'.modify k (Seen.mark seq)) := by
  unfold seqIsFresh
  split
  · exact Or.inl rfl
  · rename_i s t' he
    refine Or.inr ⟨s, t', he, ?_⟩
    split
    · exact Or.inr rfl
    dsimp only
    split
    · exact Or.inr rfl
    split
    · exact Or.inr rfl
    · exact Or.inl rfl

theorem seqIsFresh_other {t : SeenTable} {a k : Addr} (hk : a ≠ k) (seq : UInt16) :
    (seqIsFresh t k seq).2.find? a = t.find? a := by
  have hmark : ∀ t' : SeenTable, (t'.modify k (Seen.mark seq)).find? a = t'.find? a := fun t' =>
    Slots.find?_modify_ne t' hk _ fun x hu hx _ => (mark_key seq k x hu hx).2
  rcases seqIsFresh_table t k seq with h | ⟨s, t', he, h | h⟩
  · rw [h]
  · rw [h, Slots.find?_ensure_ne he hk]
  · rw [h, hmark, Slots.find?_ensure_ne he hk]

theorem crowded_kept {t : SeenTable} {a : Addr} (h : crowded t a = true) (k : Addr) (seq : UInt16) :
    crowded (seqIsFresh t k seq).2 a = true := by
  by_cases hk : a = k
  · rw [← hk, seqIsFresh_of_crowded h]
    exact h
  · obtain ⟨hf, hu⟩ := crowded_iff.mp h
    refine crowded_iff.mpr ⟨(seqIsFresh_other hk seq).trans hf, fun s hs => ?_⟩
    have hens : ∀ {t' : SeenTable} {x}, t.ensure (freshSeen k) = some (x, t') → ∀ s ∈ t'.cells, s.used = true := by
      intro t' x he s hs
      rcases Slots.mem_ensure he hs with hs | rfl
      · exact hu s hs
      · rfl
    rcases seqIsFresh_table t k seq with h | ⟨x, t', he, h | h⟩
    · rw [h] at hs
      exact hu s hs
    · rw [h] at hs
      exact hens he s hs
    · rw [h] at hs
      rcases Slots.mem_modify hs with hs | ⟨y, hy, hyu, _, rfl⟩
      · exact hens he s hs
      · exact hyu

/-- An accepted number becomes the mark, if there is room for one. -/
theorem seqIsFresh_self {t : SeenTable} {a : Addr} {seq : UInt16} (h : (seqIsFresh t a seq).1 = true)
    (hc : crowded t a = false) : ∃ s, (seqIsFresh t a seq).2.find? a = some (Seen.mark seq s) := by
  have hroom : t.ensure (freshSeen a) ≠ none := by
    intro hn
    rw [crowded, hn] at hc
    cases hc
  obtain ⟨s, t', he, ht, _⟩ := seqIsFresh_true h hroom
  refine ⟨s, ?_⟩
  rw [ht, Slots.find?_modify_self t' a _ fun x hu hk => mark_key seq a x hu hk,
    show t'.find? a = some s from Slots.find?_ensure_self he rfl]
  rfl

/-- The mark of `a`, if it has one, is `last`. -/
structure Marks (a : Addr) (t : SeenTable) (last : Option UInt16) : Prop where
  marked : ∀ s, t.find? a = some s → s.primed = true ∧ last = some s.highSeq
  unmarked : t.find? a = none → last = none ∨ crowded t a = true

theorem Marks.other {a k : Addr} {t : SeenTable} {last : Option UInt16} (h : Marks a t last) (hk : a ≠ k) (seq : UInt16) :
    Marks a (seqIsFresh t k seq).2 last := by
  refine ⟨fun s hs => ?_, fun hn => ?_⟩
  · rw [seqIsFresh_other hk] at hs
    exact h.marked s hs
  · rw [seqIsFresh_other hk] at hn
    exact (h.unmarked hn).imp_right fun hc => crowded_kept hc k seq

theorem Marks.own {a : Addr} {t : SeenTable} {seq : UInt16}
    (hfresh : (seqIsFresh t a seq).1 = true) : Marks a (seqIsFresh t a seq).2 (some seq) := by
  cases hc : crowded t a with
  | true =>
    have hc' := crowded_kept hc a seq
    refine ⟨fun s hs => ?_, fun _ => Or.inr hc'⟩
    rw [(crowded_iff.mp hc').1] at hs
    cases hs
  | false =>
    obtain ⟨s, hs⟩ := seqIsFresh_self hfresh hc
    refine ⟨fun s' hs' => ?_, fun hn => ?_⟩
    · rw [hs] at hs'
      cases hs'
      exact ⟨rfl, rfl⟩
    · rw [hs] at hn
      cases hn

/-- The number is accepted if it keeps its distance from the last. -/
theorem Marks.fresh_iff {a : Addr} {t : SeenTable} {last : Option UInt16} (h : Marks a t last) (seq : UInt16) :
    (seqIsFresh t a seq).1 = true ↔ crowded t a = true ∨ ∀ m ∈ last, 1024 < (m - seq).toNat := by
  cases hf : t.find? a with
  | none =>
    rw [seqIsFresh_of_unlisted hf]
    refine iff_of_true rfl ((h.unmarked hf).symm.imp_right fun hl m hm => ?_)
    rw [hl] at hm
    cases hm
  | some s =>
    obtain ⟨hp, hlast⟩ := h.marked s hf
    have hc : ¬ crowded t a = true := by
      intro hc
      rw [(crowded_iff.mp hc).1] at hf
      cases hf
    rw [seqIsFresh_of_listed hf hp, hlast, or_iff_right hc]
    refine ⟨fun hlt m hm => ?_, fun hall => hall _ rfl⟩
    cases hm
    exact hlt

/-! ## The run -/

structure Inv (a : Addr) (c : Course) : Prop where
  other : a ≠ c.l.self
  marks : Marks a c.l.seen c.last

theorem inv_start {a self : Addr} (ha : a ≠ self) : Inv a (start self) := by
  have hnone : (start self).l.seen.find? a = none := Slots.find?_replicate_none rfl a
  refine ⟨ha, fun s hs => ?_, fun _ => Or.inl rfl⟩
  rw [hnone] at hs
  cases hs

theorem inv_byte {a : Addr} {c : Course} (h : Inv a c) (p : Port) (b : Byte) (now : Time) (next : UInt16) :
    Inv a ⟨(linkRxByte c.l p b now).1, next, noted a c p b⟩ := by
  refine ⟨by rw [(linkRxByte_same c.l p b now).2.2]; exact h.other, ?_⟩
  show Marks a (linkRxByte c.l p b now).1.seen (noted a c p b)
  rw [linkRxByte_seen, noted]
  cases ht : taken c.l p b with
  | none => exact h.marks
  | some f =>
    have hfresh : (seqIsFresh c.l.seen f.src f.seq).1 = true := by
      have hacc := (Option.filter_eq_some_iff.mp ht).2
      simp only [accepts, Bool.and_eq_true] at hacc
      exact hacc.2
    by_cases hsrc : f.src = a
    · rw [Option.filter_some, if_pos (by simpa using hsrc)]
      rw [hsrc] at hfresh
      show Marks a (seqIsFresh c.l.seen f.src f.seq).2 (some f.seq)
      rw [hsrc]
      exact Marks.own hfresh
    · rw [Option.filter_some, if_neg (by simpa using hsrc)]
      exact h.marks.other (Ne.symm hsrc) f.seq

theorem inv_step {a : Addr} {c : Course} (h : Inv a c) (e : Event) : Inv a (c.step a e) := by
  cases e with
  | arrives p b now => exact inv_byte h p b now (c.next + 1)
  | byte p b now => exact inv_byte h p b now c.next
  | elsewhere => exact ⟨h.other, h.marks⟩
  | reboot => exact ⟨h.other, h.marks⟩
  | setKey key => exact ⟨h.other, h.marks⟩
  | clearKey => exact ⟨h.other, h.marks⟩
  | send type dst payload =>
    obtain ⟨_, _, hseen, hself⟩ := linkSend_same c.l type dst payload
    exact ⟨by rw [step, hself]; exact h.other, by rw [step, hseen]; exact h.marks⟩
  | tick now =>
    obtain ⟨_, _, hseen, hself⟩ := linkTick_same c.l now
    exact ⟨by rw [step, hself]; exact h.other, by rw [step, hseen]; exact h.marks⟩

/-- One frame: what the window says of it. -/
theorem heard_iff {a : Addr} {c : Course} (h : Inv a c) {e : Event} (hg : Genuine a c e) : Heard c e ↔ Spaced a c e := by
  cases e with
  | arrives p b now =>
    obtain ⟨f, hf⟩ : ∃ f, arrival c.l p b = some f := by
      refine Option.isSome_iff_exists.mp ?_
      exact Option.isSome_of_any hg
    simp only [Genuine, hf, Option.any_some, inTurn, Bool.and_eq_true, beq_iff_eq] at hg
    obtain ⟨⟨hsrc, hseq⟩, hkey⟩ := hg
    have hj : judges c.l f = true := by
      simp only [judges, hkey, Bool.true_and, bne_iff_ne, ne_eq, hsrc]
      exact h.other
    have hheard : Heard c (.arrives p b now) ↔ (linkRxByte c.l p b now).2 = welcome c.l f := by
      simp only [Heard, hf, Option.mem_some_iff, forall_eq']
    rw [hheard, linkRxByte_verdict hf hj, hsrc, hseq, Spaced, ← h.marks.fresh_iff]
    cases (seqIsFresh c.l.seen a c.next).1 with
    | true => simp
    | false =>
      simp only [Bool.false_eq_true, if_false, iff_false, welcome]
      split <;> simp
  | _ => exact Iff.rfl

theorem admitted_iff {a : Addr} {c : Course} (h : Inv a c) {es : List Event}
    (hg : Reach.Admitted (Genuine a) (step a) c es) :
    Reach.Admitted Heard (step a) c es ↔ Reach.Admitted (Spaced a) (step a) c es := by
  induction es generalizing c with
  | nil => exact Iff.rfl
  | cons e es ih => exact and_congr (heard_iff h hg.1) (ih (inv_step h e) hg.2)

end Course

open Course

/-- In every run: all frames of the source that arrive in turn are accepted, exactly when
    each keeps its distance from the last. -/
theorem source_heard_iff {self a : Addr} (ha : a ≠ self) {es : List Course.Event}
    (hg : Reach.Admitted (Genuine a) (Course.step a) (start self) es) :
    Reach.Admitted Course.Heard (Course.step a) (start self) es ↔ Reach.Admitted (Spaced a) (Course.step a) (start self) es :=
  admitted_iff (inv_start ha) hg

/-! ## A reboot too soon -/

/-- A RESIGN of board 2, up to the byte that completes it. -/
def resigns (seq : UInt16) : List Course.Event :=
  (flag :: (frameBody (resignFrame seq) tapKey).flatMap stuff).map (.byte .up · 0)

/-- Board 2 sends its first frame, and later its third. -/
def spacedRun : List Course.Event :=
  [.setKey tapKey] ++ resigns 0 ++ [.arrives .up flag 0, .elsewhere] ++ resigns 2 ++ [.arrives .up flag 0]

theorem spaced_source_is_heard : Reach.Admitted Course.Heard (Course.step 2) (start 1) spacedRun := by
  have hgenuine : Reach.Admitted (Genuine 2) (Course.step 2) (start 1) spacedRun := by decide +kernel
  exact (source_heard_iff (by decide) hgenuine).mpr (by decide +kernel)

/-- Board 2 sends its first frame, reboots, and sends its first frame. -/
def rebootRun : List Course.Event :=
  [.setKey tapKey] ++ resigns 0 ++ [.arrives .up flag 0, .reboot] ++ resigns 0 ++ [.arrives .up flag 0]

theorem reboot_is_refused :
    ¬ ∀ (self a : Addr) (es : List Course.Event), a ≠ self → Reach.Admitted (Genuine a) (Course.step a) (start self) es →
      Reach.Admitted Course.Heard (Course.step a) (start self) es := by
  intro h
  have hgenuine : Reach.Admitted (Genuine 2) (Course.step 2) (start 1) rebootRun := by decide +kernel
  have hheard := h 1 2 rebootRun (by decide) hgenuine
  exact absurd hheard (by decide +kernel)

end DeskHop.Wire
