/-
  DeskHop.Bulk.Receiver — the receiving endpoint.

  As long as what reaches it comes from the sender (`Genuine`), each of its streams has
  handed over exactly the chunks before the next one it expects (`Slot`), its log keeps
  the contract (`Judge`), and what it answers claims no more than it reported
  (`Answer`). While the application runs inside a chunk hook the stream of that chunk is
  one chunk ahead of its counter: the invariant leaves it out (`hold`) and
  `run_frozen` brings it back unchanged.
-/

import DeskHop.Bulk.Transfer

namespace DeskHop.Bulk

open DeskHop.Lib DeskHop.Wire

/-! ## Chunks of a content -/

/-- A content that 65535 chunks hold, declared by its length. -/
structure Declared (c : List Byte) (total : UInt32) : Prop where
  pos : 1 ≤ c.length
  le : c.length ≤ contentMax
  total : total = UInt32.ofNat c.length

theorem Declared.toNat {c : List Byte} {total : UInt32} (h : Declared c total) : total.toNat = c.length := by
  have := h.le
  rw [h.total, UInt32.toNat_ofNat', contentMax] at *
  omega

/-- Up to the largest content, the 16 bits of the count are enough. -/
theorem chunksFor_toNat {total : UInt32} (h : total.toNat ≤ contentMax) :
    (chunksFor total).toNat = (total.toNat + 59) / 60 := by
  rw [contentMax] at h
  have h1 : (total + 60 - 1).toNat = total.toNat + 59 := by
    rw [UInt32.toNat_sub, UInt32.toNat_add]
    have h60 : (60 : UInt32).toNat = 60 := rfl
    have h1 : (1 : UInt32).toNat = 1 := rfl
    rw [h60, h1]
    omega
  rw [chunksFor, UInt32.toNat_toUInt16, UInt32.toNat_div, h1]
  have h60 : (60 : UInt32).toNat = 60 := rfl
  rw [h60]
  omega

theorem Declared.chunks {c : List Byte} {total : UInt32} (h : Declared c total) :
    (chunksFor total).toNat = (c.length + 59) / 60 := by
  rw [chunksFor_toNat (h.toNat ▸ h.le), h.toNat]

theorem offsetOf_toNat (seq : UInt16) : (offsetOf seq).toNat = 60 * seq.toNat := by
  have := seq.toNat_lt
  rw [offsetOf, UInt32.toNat_mul, UInt16.toNat_toUInt32]
  have h60 : (60 : UInt32).toNat = 60 := rfl
  rw [h60]
  omega

/-- The pieces before `seq`, and `seq` itself. -/
theorem take_piece (c : List Byte) (seq : UInt16) :
    c.take (60 * seq.toNat) ++ piece c seq = c.take (60 * (seq.toNat + 1)) := by
  have h60 : chunkBytes = 60 := rfl
  rw [piece, h60, Nat.mul_comm seq.toNat 60, Nat.mul_succ, List.take_add]

theorem toNat_succ {seq total : UInt16} (h : seq < total) : (seq + 1).toNat = seq.toNat + 1 := by
  have h1 := UInt16.lt_iff_toNat_lt.mp h
  have := total.toNat_lt
  rw [UInt16.toNat_add]
  have h1 : (1 : UInt16).toNat = 1 := rfl
  rw [h1]
  omega

/-! ## Messages -/

/-- A message of the sender, whose contents are known by their stream ids. -/
structure Genuine (contents : UInt8 → Option (List Byte)) (p : List Byte) : Prop where
  op : byteAt p 0 = opOffer ∨ byteAt p 0 = opChunk ∨ byteAt p 0 = opAbort
  offer : byteAt p 0 = opOffer → ∃ c, contents (byteAt p 1) = some c ∧ Declared c (get32 (p.drop 2) 1)
  chunk : byteAt p 0 = opChunk → ∃ c, contents (byteAt p 1) = some c ∧
    (p.drop 2).drop 2 = piece c (get16 (p.drop 2) 0)
  abort : byteAt p 0 = opAbort → resultOf (p.drop 2) dataCancelled ≠ dataOk

/-- A message of the receiver: it says "sound" only of what it has reported so, and
    never as a reason to stop. -/
structure Answer (reported : UInt8 → Prop) (p : List Byte) : Prop where
  op : byteAt p 0 ≠ opOffer ∧ byteAt p 0 ≠ opChunk
  done : byteAt p 0 = opDone → resultOf (p.drop 2) dataOk = dataOk → reported (byteAt p 1)
  reject : byteAt p 0 = opReject → resultOf (p.drop 2) dataRefused ≠ dataOk
  abort : byteAt p 0 = opAbort → resultOf (p.drop 2) dataCancelled ≠ dataOk

theorem Answer.mono {r r' : UInt8 → Prop} {p : List Byte} (h : Answer r p) (hr : ∀ id, r id → r' id) : Answer r' p :=
  ⟨h.op, fun h1 h2 => hr _ (h.done h1 h2), h.reject, h.abort⟩

theorem Genuine.mono {r r' : UInt8 → Option (List Byte)} {p : List Byte} (h : Genuine r p)
    (hr : ∀ id c, r id = some c → r' id = some c) : Genuine r' p := by
  refine ⟨h.op, fun ho => ?_, fun hc => ?_, h.abort⟩
  · obtain ⟨c, h1, h2⟩ := h.offer ho
    exact ⟨c, hr _ _ h1, h2⟩
  · obtain ⟨c, h1, h2⟩ := h.chunk hc
    exact ⟨c, hr _ _ h1, h2⟩

/-- By the opcode alone. -/
theorem answer_intro {reported : UInt8 → Prop} {op : Byte} {id : UInt8} {extra : List Byte}
    (hop : op ≠ opOffer ∧ op ≠ opChunk) (hdone : op = opDone → resultOf extra dataOk = dataOk → reported id)
    (hreject : op = opReject → resultOf extra dataRefused ≠ dataOk)
    (habort : op = opAbort → resultOf extra dataCancelled ≠ dataOk) : Answer reported (op :: id :: extra) :=
  ⟨hop, hdone, hreject, habort⟩

/-- An answer that carries no verdict. -/
theorem answer_of_op (reported : UInt8 → Prop) {op : Byte} (h : op = opAccept ∨ op = opAck) (id : UInt8)
    (extra : List Byte) : Answer reported (op :: id :: extra) := by
  rcases h with rfl | rfl <;>
    exact answer_intro (by decide) (fun h => absurd h (by decide)) (fun h => absurd h (by decide))
      fun h => absurd h (by decide)

theorem answer_of_reason (reported : UInt8 → Prop) {op : Byte} (h : op = opReject ∨ op = opAbort) (id : UInt8)
    {reason : Byte} (hr : reason ≠ dataOk) : Answer reported [op, id, reason] := by
  rcases h with rfl | rfl <;>
    exact answer_intro (by decide) (fun h => absurd h (by decide)) (fun _ => hr) fun _ => hr

theorem answer_of_verdict {reported : UInt8 → Prop} {id : UInt8} {verdict : Byte}
    (h : verdict = dataOk → reported id) : Answer reported [opDone, id, verdict] :=
  answer_intro (by decide) (fun _ hv => h hv) (fun h => absurd h (by decide)) fun h => absurd h (by decide)

namespace Receiver

variable (contents : UInt8 → Option (List Byte))

/-- A stream in use has handed over the chunks before the one it expects next. -/
structure Slot (notes : List Note) (i : Handle) (s : Stream) : Prop where
  inbound : s.outbound = false
  stream : streamOf i notes = some s.id
  content : ∃ c, contents s.id = some c ∧ Declared c s.total ∧ delivered i notes = c.take (60 * s.nextSeq.toNat)
  more : s.nextSeq < chunksFor s.total

/-- A log entry keeps the contract. -/
def Judge (pre : List Note) : Note → Prop
  | .chunk h off data => ∃ id c, streamOf h pre = some id ∧ contents id = some c ∧
      off.toNat = (delivered h pre).length ∧ delivered h pre ++ data <+: c
  | .received h r => r = dataOk → ∃ id c, streamOf h pre = some id ∧ contents id = some c ∧ delivered h pre = c
  | .begun _ _ _ | .sent _ _ => False
  | .offered .. => True

/-- `base` is the log the turn began with, `hold` the stream whose chunk hook runs. -/
structure Inv (base : List Note) (hold : Option Handle) (d : Data) : Prop where
  grown : base <+: d.notes
  slots : ∀ i, hold ≠ some i → (d.s i).state ≠ .free → Slot contents d.notes i (d.s i)
  out : ∀ m ∈ d.out, Answer (Reported d.notes) m.2
  notes : Each (Judge contents) d.notes

variable {contents} {base : List Note} {hold : Option Handle} {d : Data}

/-! ## Primitive updates -/

theorem Slot.other {notes : List Note} {i : Handle} {s : Stream} (h : Slot contents notes i s) {n : Note}
    (hn : n.handle ≠ i) : Slot contents (notes ++ [n]) i s := by
  obtain ⟨c, h1, h2, h3⟩ := h.content
  exact ⟨h.inbound, (streamOf_other notes hn).trans h.stream, ⟨c, h1, h2, (delivered_other notes hn).trans h3⟩, h.more⟩

theorem Inv.upd (h : Inv contents base hold d) (i : Handle) (f : Stream → Stream)
    (hf : hold ≠ some i → (f (d.s i)).state ≠ .free → Slot contents d.notes i (f (d.s i))) :
    Inv contents base hold (d.upd i f) := by
  refine ⟨h.grown, fun j hj hs => ?_, h.out, h.notes⟩
  by_cases hji : j = i
  · subst hji
    rw [Data.upd_self] at hs ⊢
    exact hf hj hs
  · rw [Data.upd_ne _ _ _ hji] at hs ⊢
    exact h.slots j hj hs

/-- An update of fields the invariant does not look at. -/
theorem Inv.touch (h : Inv contents base hold d) (i : Handle) (f : Stream → Stream)
    (hf : ∀ s, (f s).state = s.state ∧ (f s).outbound = s.outbound ∧ (f s).id = s.id ∧ (f s).total = s.total ∧
      (f s).nextSeq = s.nextSeq) : Inv contents base hold (d.upd i f) := by
  obtain ⟨hst, hout, hid, htot, hseq⟩ := hf (d.s i)
  refine h.upd i f fun hj hs => ?_
  have hi := h.slots i hj (hst ▸ hs)
  obtain ⟨c, h1, h2, h3⟩ := hi.content
  exact ⟨hout.trans hi.inbound, hid ▸ hi.stream, ⟨c, hid ▸ h1, htot ▸ h2, hseq ▸ h3⟩, by rw [hseq, htot]; exact hi.more⟩

theorem Inv.free (h : Inv contents base hold d) (i : Handle) : Inv contents base hold (d.upd i fun _ => .zero) :=
  h.upd i _ fun _ hs => absurd rfl hs

theorem Inv.emit (h : Inv contents base hold d) (peer : Addr) (id : UInt8) (op : Byte) (extra : List Byte)
    (ha : Answer (Reported d.notes) (op :: id :: extra)) : Inv contents base hold (d.emit peer id op extra) := by
  refine ⟨h.grown, h.slots, fun m hm => ?_, h.notes⟩
  rcases List.mem_append.mp hm with hm | hm
  · exact h.out m hm
  · rw [List.mem_singleton] at hm
    exact hm ▸ ha

theorem Inv.sendOp (h : Inv contents base hold d) (i : Handle) (op : Byte) (extra : List Byte) (now : Time)
    (ha : Answer (Reported d.notes) (op :: (d.s i).id :: extra)) : Inv contents base hold (d.sendOp i op extra now) :=
  (h.emit _ _ _ _ ha).touch i _ fun _ => ⟨rfl, rfl, rfl, rfl, rfl⟩

theorem grown_snoc {notes : List Note} (h : base <+: notes) (n : Note) : base <+: notes ++ [n] :=
  h.trans (List.prefix_append _ _)

/-- A log entry about a stream that is not in use, or left out. -/
theorem Inv.note (h : Inv contents base hold d) {n : Note} (hj : Judge contents d.notes n)
    (hfree : hold = some n.handle ∨ (d.s n.handle).state = .free) : Inv contents base hold (d.note n) := by
  refine ⟨grown_snoc h.grown n, fun j hj hs => ?_, fun m hm => ?_, each_snoc.mpr ⟨h.notes, hj⟩⟩
  · have hn : n.handle ≠ j := by
      rintro rfl
      rcases hfree with hf | hf
      · exact hj hf
      · exact hs hf
    exact (h.slots j hj hs).other hn
  · exact (h.out m hm).mono fun _ => Reported.mono (List.prefix_append _ _)

theorem Inv.counted (h : Inv contents base hold d) (r : UInt32) :
    Inv contents base hold { d with nReceived := r } := ⟨h.grown, h.slots, h.out, h.notes⟩

/-- What the application makes of a hook keeps the invariant. -/
def Keeps (contents : UInt8 → Option (List Byte)) (base : List Note) (hold : Option Handle) (app : App) : Prop :=
  ∀ d, Inv contents base hold d → Inv contents base hold (app d)

/-- A stream given up for a reason. -/
theorem Inv.finish (h : Inv contents base hold d) {i : Handle} (hin : (d.s i).outbound = false) {r : Byte}
    (hr : r ≠ dataOk) {app : App} (happ : Keeps contents base hold app) : Inv contents base hold (d.finish i r app) := by
  simp only [Data.finish, hin, Bool.false_eq_true, if_false]
  have hfree : ((d.upd i fun _ => .zero).s i).state = .free := congrArg Stream.state (Data.upd_self d i _)
  exact happ _ (((h.free i).counted _).note (fun h => absurd h hr) (Or.inr hfree))

/-! ## The application's calls -/

theorem accept_inv (h : Inv contents base hold d) (stream : UInt8) (now : Time) :
    Inv contents base hold (dataAccept d stream now) := by
  unfold dataAccept
  split
  · exact h
  rename_i i hi
  split
  · exact h
  rename_i hs
  refine Inv.sendOp ?_ i _ _ now (answer_of_op _ (Or.inl rfl) _ _)
  refine h.upd i _ fun hj _ => ?_
  have hi := h.slots i hj (Data.byHandle_some d hi).2
  exact ⟨hi.inbound, hi.stream, hi.content, hi.more⟩

theorem reject_inv (h : Inv contents base hold d) (stream : UInt8) (now : Time) :
    Inv contents base hold (dataReject d stream now) := by
  unfold dataReject
  split
  · exact h
  split
  · exact h
  · rename_i i _ _
    have h1 := h.sendOp i opReject [dataRefused] now (answer_of_reason _ (Or.inl rfl) _ (by decide))
    exact Inv.free (d := { d.sendOp i opReject [dataRefused] now with
      nRefused := (d.sendOp i opReject [dataRefused] now).nRefused + 1 }) ⟨h1.grown, h1.slots, h1.out, h1.notes⟩ i

theorem cancel_inv (h : Inv contents base hold d) {stream : UInt8} (hc : ∀ i, hold = some i → stream.toNat ≠ i.val)
    (now : Time) {app : App} (happ : Keeps contents base hold app) :
    Inv contents base hold (dataCancel d stream now app) := by
  unfold dataCancel
  split
  · exact h
  rename_i i hi
  obtain ⟨hval, hused⟩ := Data.byHandle_some d hi
  have hin := (h.slots i (fun hh => hc i hh hval) hused).inbound
  refine (h.sendOp i _ _ now (answer_of_reason _ (Or.inr rfl) _ (by decide))).finish ?_ (by decide) happ
  rw [Data.sendOp_self]
  exact hin

/-- What the receiving application may call: no send, and inside a chunk hook no cancel
    of that chunk's stream. -/
def allowed (hold : Option Handle) (c : Call) : Bool := !c.isSend && hold.all fun i => !c.isCancel i

theorem perform_inv (h : Inv contents base hold d) {c : Call} (hc : allowed hold c = true) (now : Time) {app : App}
    (happ : Keeps contents base hold app) : Inv contents base hold (c.perform now app d) := by
  cases c with
  | accept stream => exact accept_inv h stream now
  | reject stream => exact reject_inv h stream now
  | cancel stream =>
    refine cancel_inv h ?_ now happ
    rintro i rfl
    simpa [allowed, Call.isSend, Call.isCancel] using hc
  | send peer kind name data => cases hc

theorem run_keeps {script : Script} (hs : script.all (allowed hold) = true) (now : Time) :
    Keeps contents base hold (script.run now) := by
  induction script with
  | done => exact fun _ h => h
  | call c inner rest ihInner ihRest =>
    simp only [Script.all, Bool.and_eq_true] at hs
    exact fun d h => ihRest hs.2 _ (perform_inv h hs.1.1 now (ihInner hs.1.2))

/-! ## The stream whose chunk hook runs -/

/-- Stream `i` and what the log says of it are untouched. -/
structure Frozen (i : Handle) (d d' : Data) : Prop where
  stream : d'.s i = d.s i
  streamOf : Bulk.streamOf i d'.notes = Bulk.streamOf i d.notes
  delivered : Bulk.delivered i d'.notes = Bulk.delivered i d.notes

theorem Frozen.refl (i : Handle) (d : Data) : Frozen i d d := ⟨rfl, rfl, rfl⟩

theorem Frozen.trans {i : Handle} {d1 d2 d3 : Data} (h1 : Frozen i d1 d2) (h2 : Frozen i d2 d3) : Frozen i d1 d3 :=
  ⟨h2.stream.trans h1.stream, h2.streamOf.trans h1.streamOf, h2.delivered.trans h1.delivered⟩

theorem frozen_upd (d : Data) {i j : Handle} (hij : i ≠ j) (f : Stream → Stream) : Frozen i d (d.upd j f) :=
  ⟨Data.upd_ne _ _ _ hij, rfl, rfl⟩

theorem frozen_sendOp (d : Data) {i j : Handle} (hij : i ≠ j) (op : Byte) (extra : List Byte) (now : Time) :
    Frozen i d (d.sendOp j op extra now) := ⟨Data.sendOp_ne _ _ _ _ _ hij, rfl, rfl⟩

/-- A reaction that leaves a receiving stream `i` untouched. -/
def Freezes (i : Handle) (app : App) : Prop := ∀ d, (d.s i).state = .receiving → Frozen i d (app d)

theorem Freezes.after {i : Handle} {app : App} (happ : Freezes i app) {d d' : Data} (h : Frozen i d d')
    (hs : (d.s i).state = .receiving) : Frozen i d (app d') := h.trans (happ d' (by rw [h.stream]; exact hs))

theorem finish_frozen {d : Data} {i j : Handle} (hs : (d.s i).state = .receiving) (hij : i ≠ j) (r : Byte) {app : App}
    (happ : Freezes i app) : Frozen i d (d.finish j r app) := by
  have hcleared : Frozen i d (d.upd j fun _ => .zero) := frozen_upd d hij _
  simp only [Data.finish]
  split
  · exact happ.after ⟨hcleared.stream, streamOf_other d.notes (Ne.symm hij), delivered_other d.notes (Ne.symm hij)⟩ hs
  · exact happ.after ⟨hcleared.stream, streamOf_other d.notes (Ne.symm hij), delivered_other d.notes (Ne.symm hij)⟩ hs

theorem perform_frozen {d : Data} {i : Handle} (hs : (d.s i).state = .receiving) {c : Call}
    (hc : allowed (some i) c = true) (now : Time) {app : App} (happ : Freezes i app) :
    Frozen i d (c.perform now app d) := by
  -- a call on stream `i` itself finds it receiving, and does nothing but cancel it
  cases c with
  | accept stream =>
    simp only [Call.perform, dataAccept]
    split
    · exact .refl i d
    rename_i j _
    split
    · exact .refl i d
    rename_i hj
    have hij : i ≠ j := by
      rintro rfl
      rw [hs] at hj
      exact hj (by decide)
    exact (frozen_upd d hij _).trans (frozen_sendOp _ hij _ _ _)
  | reject stream =>
    simp only [Call.perform, dataReject]
    split
    · exact .refl i d
    rename_i j _
    split
    · exact .refl i d
    rename_i hj
    have hij : i ≠ j := by
      rintro rfl
      rw [hs] at hj
      exact hj (by decide)
    exact (frozen_sendOp d hij opReject [dataRefused] now).trans
      ⟨Data.upd_ne _ _ _ hij, rfl, rfl⟩
  | cancel stream =>
    simp only [Call.perform, dataCancel]
    split
    · exact .refl i d
    rename_i j hj
    have hij : i ≠ j := by
      rintro rfl
      have := (Data.byHandle_some d hj).1
      simp [allowed, Call.isSend, Call.isCancel, this] at hc
    have hop := frozen_sendOp d hij opAbort [dataCancelled] now
    exact hop.trans (finish_frozen (by rw [hop.stream]; exact hs) hij _ happ)
  | send peer kind name data => cases hc

theorem run_freezes {i : Handle} {script : Script} (hs : script.all (allowed (some i)) = true) (now : Time) :
    Freezes i (script.run now) := by
  induction script with
  | done => exact fun d _ => .refl i d
  | call c inner rest ihInner ihRest =>
    simp only [Script.all, Bool.and_eq_true] at hs
    exact fun d hd => (ihRest hs.2).after (perform_frozen hd hs.1.1 now (ihInner hs.1.2)) hd

/-! ## Messages of the sender -/

theorem sendAck_inv (h : Inv contents base hold d) (i : Handle) (now : Time) :
    Inv contents base hold (sendAck d i now) := h.sendOp i _ _ now (answer_of_op _ (Or.inr rfl) _ _)

theorem rxOffer_inv (h : Inv contents base none d) {peer : Addr} {id : UInt8} {p : List Byte} (now : Time)
    {c : List Byte} (hc : contents id = some c) (hdecl : Declared c (get32 p 1)) {app : App}
    (happ : Keeps contents base none app) : Inv contents base none (rxOffer d peer id p now app) := by
  simp only [rxOffer]
  split
  · exact h
  split
  · split
    · exact sendAck_inv h _ now
    · exact h
  split
  · exact h.emit _ _ _ _ (answer_of_reason _ (Or.inl rfl) _ (by decide))
  rename_i i hfree
  split
  · -- refused for its size
    refine ⟨h.grown, fun j hj hs => ?_, ?_, h.notes⟩
    · by_cases hji : j = i
      · subst hji
        rw [Data.upd_self] at hs
        exact absurd rfl hs
      · rw [Data.upd_ne _ _ _ hji, Data.sendOp_ne _ _ _ _ _ hji, Data.upd_ne _ _ _ hji] at hs ⊢
        exact h.slots j hj hs
    · intro m hm
      simp only [Data.upd_out, Data.sendOp_out, List.mem_append, List.mem_singleton] at hm
      rcases hm with hm | rfl
      · exact h.out m hm
      · exact answer_of_reason _ (Or.inl rfl) _ (by decide)
  · refine happ _ ⟨grown_snoc h.grown _, fun j hj hs => ?_, fun m hm => ?_, each_snoc.mpr ⟨h.notes, trivial⟩⟩
    · by_cases hji : j = i
      · subst hji
        simp only [Data.note_s, Data.upd_self, Data.note_notes, Data.upd_notes] at hs ⊢
        have hchunks : (0 : UInt16) < chunksFor (get32 p 1) := by
          have := hdecl.chunks
          have hpos := hdecl.pos
          rw [UInt16.lt_iff_toNat_lt, this]
          have h0 : (0 : UInt16).toNat = 0 := rfl
          omega
        refine ⟨rfl, ?_, ⟨c, hc, hdecl, ?_⟩, hchunks⟩
        · rw [streamOf_snoc]
          exact if_pos rfl
        · rw [delivered_snoc]
          exact (if_pos rfl).trans (List.take_zero.symm)
      · simp only [Data.note_s, Data.upd_ne _ _ _ hji, Data.note_notes, Data.upd_notes] at hs ⊢
        exact (h.slots j hj hs).other (Ne.symm hji)
    · exact (h.out m hm).mono fun _ => Reported.mono (List.prefix_append _ _)

/-! ## A chunk -/

/-- The stream left out is back in step. -/
theorem Inv.release {i : Handle} (h : Inv contents base (some i) d)
    (hi : (d.s i).state ≠ .free → Slot contents d.notes i (d.s i)) : Inv contents base none d := by
  refine ⟨h.grown, fun j _ hs => ?_, h.out, h.notes⟩
  by_cases hji : j = i
  · subst hji
    exact hi hs
  · exact h.slots j (fun h => hji (Option.some.inj h).symm) hs

theorem Inv.leaveOut (h : Inv contents base none d) (i : Handle) : Inv contents base (some i) d :=
  ⟨h.grown, fun j _ => h.slots j (by simp), h.out, h.notes⟩

/-- Stream `i` has handed over one chunk more than its counter says. -/
structure Ahead (contents : UInt8 → Option (List Byte)) (i : Handle) (c : List Byte) (d : Data) : Prop where
  inbound : (d.s i).outbound = false
  stream : streamOf i d.notes = some (d.s i).id
  content : contents (d.s i).id = some c
  declared : Declared c (d.s i).total
  delivered : delivered i d.notes = c.take (60 * ((d.s i).nextSeq.toNat + 1))
  more : (d.s i).nextSeq < chunksFor (d.s i).total

/-- With the last chunk handed over, the content is whole. -/
theorem take_last {c : List Byte} {total seq : UInt16} {t : UInt32} (hd : Declared c t) (ht : chunksFor t = total)
    (hlt : seq < total) (hge : seq + 1 ≥ total) : c.take (60 * (seq.toNat + 1)) = c := by
  have h1 := toNat_succ hlt
  have h2 : total.toNat ≤ (seq + 1).toNat := UInt16.le_iff_toNat_le.mp hge
  have h3 := hd.chunks
  rw [ht] at h3
  exact List.take_of_length_le (by omega)

theorem afterChunk_inv {i : Handle} {c : List Byte} (h : Inv contents base (some i) d) (ha : Ahead contents i c d)
    (now : Time) {app : App} (happ : Keeps contents base none app) :
    Inv contents base none (afterChunk d i now app) := by
  obtain ⟨hin, hstream, hcontent, hdecl, hdel, hmore⟩ := ha
  have hsucc := toNat_succ hmore
  have hslots : ∀ j, j ≠ i → (d.s j).state ≠ .free → Slot contents d.notes j (d.s j) := fun j hji =>
    h.slots j fun h => hji (Option.some.inj h).symm
  simp only [afterChunk, Data.upd_self]
  split
  · -- the verdict: reported and sent
    rename_i hlast
    have hwhole := take_last hdecl rfl hmore hlast
    have hrep : ∀ r, r = dataOk → Reported (d.notes ++ [.received i r]) (d.s i).id := by
      rintro r rfl
      exact Reported.snoc hstream
    simp only [Data.finish, Data.sendOp_self, Data.upd_self, hin, Bool.false_eq_true, if_false]
    refine happ _ ⟨grown_snoc h.grown _, fun j _ hs => ?_, fun m hm => ?_, each_snoc.mpr ⟨h.notes, fun _ => ?_⟩⟩
    · by_cases hji : j = i
      · subst hji
        simp only [Data.note_s, Data.upd_self] at hs
        exact absurd rfl hs
      · simp only [Data.note_s, Data.upd_ne _ _ _ hji, Data.sendOp_ne _ _ _ _ _ hji, Data.note_notes, Data.upd_notes,
          Data.sendOp_notes] at hs ⊢
        exact (hslots j hji hs).other (Ne.symm hji)
    · simp only [Data.note_out, Data.upd_out, Data.sendOp_out, Data.upd_self, List.mem_append, List.mem_singleton,
        Data.note_notes, Data.upd_notes, Data.sendOp_notes] at hm ⊢
      rcases hm with hm | rfl
      · exact (h.out m hm).mono fun _ => Reported.mono (List.prefix_append _ _)
      · exact answer_of_verdict (hrep _)
    · exact ⟨_, c, hstream, hcontent, hdel.trans hwhole⟩
  · rename_i hnot
    have hnext : (d.s i).nextSeq + 1 < chunksFor (d.s i).total := UInt16.not_le.mp hnot
    have hstep : Inv contents base none (d.upd i fun s => { s with nextSeq := s.nextSeq + 1, acked := s.nextSeq + 1 }) := by
      refine Inv.release (i := i) (h.upd i _ fun hh => absurd rfl hh) fun _ => ?_
      rw [Data.upd_self]
      exact ⟨hin, hstream, ⟨c, hcontent, hdecl, by rw [hsucc]; exact hdel⟩, hnext⟩
    split
    · exact sendAck_inv hstep i now
    · exact hstep

/-- A chunk handed to the application: it runs with the stream one chunk ahead, and
    leaves it so. -/
theorem handed_inv (h : Inv contents base none d) {i : Handle} (hs : (d.s i).state = .receiving) {c : List Byte} (data : List Byte)
    (hc : contents (d.s i).id = some c) (hp : data = piece c (d.s i).nextSeq) (now : Time) {app : Fin 2 → App}
    (hkeeps : Keeps contents base (some i) (app 0)) (hfreezes : Freezes i (app 0))
    (h1 : Keeps contents base none (app 1)) :
    Inv contents base none
      (afterChunk (app 0 (d.note (.chunk i (offsetOf (d.s i).nextSeq) data))) i now (app 1)) := by
  have hi := h.slots i (by simp) (by rw [hs]; decide)
  obtain ⟨c', hc', hdecl, hdel⟩ := hi.content
  rw [hc] at hc'
  cases hc'
  have hoffset : (offsetOf (d.s i).nextSeq).toNat = (delivered i d.notes).length := by
    have h1 := UInt16.lt_iff_toNat_lt.mp hi.more
    have h2 := hdecl.chunks
    rw [offsetOf_toNat, hdel, List.length_take]
    omega
  have hpiece : delivered i d.notes ++ data = c.take (60 * ((d.s i).nextSeq.toNat + 1)) := by rw [hdel, hp, take_piece]
  have hjudge : Judge contents d.notes (.chunk i (offsetOf (d.s i).nextSeq) data) :=
    ⟨_, c, hi.stream, hc, hoffset, hpiece ▸ List.take_prefix _ _⟩
  have hfrozen := hfreezes (d.note (.chunk i (offsetOf (d.s i).nextSeq) data)) hs
  refine afterChunk_inv (c := c) (hkeeps _ ((h.leaveOut i).note hjudge (Or.inl rfl))) ?_ now h1
  refine ⟨?_, ?_, ?_, ?_, ?_, ?_⟩
  all_goals simp only [hfrozen.stream, hfrozen.streamOf, hfrozen.delivered, Data.note_s]
  · exact hi.inbound
  · exact (streamOf_snoc i d.notes _).trans hi.stream
  · exact hc
  · exact hdecl
  · exact (delivered_snoc i d.notes _).trans ((if_pos rfl).trans hpiece)
  · exact hi.more

theorem rxChunk_inv (h : Inv contents base none d) {i : Handle} (hs : (d.s i).state ≠ .free) {p c : List Byte}
    (hc : contents (d.s i).id = some c) (hp : p.drop 2 = piece c (get16 p 0)) (now : Time) {app : Fin 2 → App}
    (h0 : Keeps contents base none (app 0)) (h1 : Keeps contents base none (app 1))
    (hchunk : get16 p 0 = (d.s i).nextSeq → 2 ≤ p.length → (d.s i).state = .receiving →
      ¬ offsetOf (get16 p 0) + UInt32.ofNat (p.drop 2).length > (d.s i).total →
      Keeps contents base (some i) (app 0) ∧ Freezes i (app 0)) :
    Inv contents base none (rxChunk d i p now app) := by
  have hi := h.slots i (by simp) hs
  simp only [rxChunk]
  split
  · exact h
  rename_i hrecv
  simp only [Bool.or_eq_true, decide_eq_true_eq, bne_iff_ne, ne_eq, not_or, Nat.not_lt, not_not] at hrecv
  have htouched : Inv contents base none (d.upd i fun s => { s with lastRx := now }) :=
    h.touch i _ fun _ => ⟨rfl, rfl, rfl, rfl, rfl⟩
  split
  · split
    · exact sendAck_inv htouched i now
    · exact htouched
  rename_i hseq
  rw [Data.upd_self, ne_eq, not_not] at hseq
  have hseq' : get16 p 0 = (d.s i).nextSeq := hseq
  split
  · refine (htouched.sendOp i _ _ now (answer_of_reason _ (Or.inr rfl) _ (by decide))).finish ?_ (by decide) h0
    rw [Data.sendOp_self, Data.upd_self]
    exact hi.inbound
  rename_i hfits
  rw [Data.upd_self] at hfits
  obtain ⟨hkeeps, hfreezes⟩ := hchunk hseq' hrecv.1 hrecv.2 hfits
  have hrunning := htouched.touch i (fun s => { s with running := adler32Update s.running (p.drop 2) })
    fun _ => ⟨rfl, rfl, rfl, rfl, rfl⟩
  rw [hseq'] at hp ⊢
  simpa only [Data.upd_self] using handed_inv hrunning (i := i) (c := c)
    (by simpa only [Data.upd_self] using hrecv.2) (p.drop 2) (by simpa only [Data.upd_self] using hc)
    (by simpa only [Data.upd_self] using hp) now hkeeps hfreezes h1

theorem rxStream_inv (h : Inv contents base none d) {i : Handle} {payload : List Byte} (hg : Genuine contents payload)
    (hnot : byteAt payload 0 ≠ opOffer) (hused : (d.s i).state ≠ .free) (hid : (d.s i).id = byteAt payload 1) (now : Time)
    {app : Fin 2 → App} (happ : ∀ k, Keeps contents base none (app k))
    (hchunk : byteAt payload 0 = opChunk → get16 (payload.drop 2) 0 = (d.s i).nextSeq → 2 ≤ (payload.drop 2).length →
      (d.s i).state = .receiving →
      ¬ offsetOf (get16 (payload.drop 2) 0) + UInt32.ofNat ((payload.drop 2).drop 2).length > (d.s i).total →
      Keeps contents base (some i) (app 0) ∧ Freezes i (app 0)) :
    Inv contents base none (rxStream d i (byteAt payload 0) (payload.drop 2) now app) := by
  have hin := (h.slots i (by simp) hused).inbound
  have htouched : Inv contents base none (d.upd i fun s => { s with lastRx := now, retries := 0 }) :=
    h.touch i _ fun _ => ⟨rfl, rfl, rfl, rfl, rfl⟩
  simp only [rxStream]
  rcases hg.op with hop | hop | hop
  · exact absurd hop hnot
  · obtain ⟨c, hc, hp⟩ := hg.chunk hop
    rw [hop, if_neg (by decide), if_neg (by decide), if_pos rfl]
    refine rxChunk_inv htouched ?_ ?_ hp now (happ 0) (happ 1) ?_
    · rw [Data.upd_self]
      exact hused
    · rw [Data.upd_self]
      exact hid ▸ hc
    · rw [Data.upd_self]
      exact hchunk hop
  · rw [hop, if_neg (by decide), if_neg (by decide), if_neg (by decide), if_neg (by decide), if_neg (by decide),
      if_pos rfl]
    refine htouched.finish ?_ (hg.abort hop) (happ 0)
    rw [Data.upd_self]
    exact hin

theorem rx_inv (h : Inv contents base none d) {f : Frame} (hg : Genuine contents f.payload)
    (now : Time) {app : Fin 2 → App} (happ : ∀ k, Keeps contents base none (app k))
    (hchunk : ∀ i, d.handsChunk f.src f.payload = some i → Keeps contents base (some i) (app 0) ∧ Freezes i (app 0)) :
    Inv contents base none (dataRx d f now app) := by
  unfold dataRx
  split
  · exact h
  by_cases hop : byteAt f.payload 0 = opOffer
  · obtain ⟨c, hc, hdecl⟩ := hg.offer hop
    rw [if_pos hop]
    exact rxOffer_inv h now hc hdecl (happ 0)
  rw [if_neg hop]
  cases haddr : d.addressee f.src (byteAt f.payload 1) (byteAt f.payload 0) with
  | none => exact h
  | some i =>
    obtain ⟨hused, hid, -⟩ := Data.addressee_some d haddr
    refine rxStream_inv h hg hop hused hid now happ fun hopc hseq hlen hrecv hfits => hchunk i ?_
    rw [hopc] at haddr
    rw [Data.handsChunk, haddr]
    refine Option.filter_eq_some_iff.mpr ⟨rfl, ?_⟩
    simp only [Bool.and_eq_true, beq_iff_eq, decide_eq_true_eq]
    exact ⟨⟨⟨⟨hopc, hlen⟩, hrecv⟩, hseq⟩, UInt32.not_lt.mp hfits⟩

/-! ## Ticks and turns -/

theorem tickSlot_inv (h : Inv contents base none d) (now : Time) {app : Handle → App}
    (happ : ∀ i, Keeps contents base none (app i)) (i : Handle) : Inv contents base none (tickSlot now app d i) := by
  simp only [tickSlot]
  split
  · exact h
  rename_i hused
  have hin := (h.slots i (by simp) hused).inbound
  split
  · exact h.finish hin (by decide) (happ i)
  · rw [if_pos (by simp [hin])]
    exact h

theorem tick_inv (h : Inv contents base none d) (now : Time) {app : Handle → App}
    (happ : ∀ i, Keeps contents base none (app i)) : Inv contents base none (dataTick d now app) := by
  unfold dataTick
  induction List.finRange 8 generalizing d with
  | nil => exact h
  | cons i is ih => exact ih (tickSlot_inv h now happ i)

/-- A turn of the receiver, whose application sends nothing and cancels no stream inside
    its own chunk hook. -/
theorem turn_inv (h : Inv contents base none d) {inbox : List (List Byte)} (src dst : Addr)
    (hg : ∀ p ∈ inbox, Genuine contents p) {e : Act} (he : e.all (fun c => !c.isSend) = true)
    (hcalm : ∀ react now, e = .rx react now → ∀ i, inbox.head?.bind (d.handsChunk src) = some i →
      (react 0).all (fun c => !c.isCancel i) = true) : Inv contents base none (turn d inbox src dst e) := by
  have hkeeps {script : Script} (hs : script.all (fun c => !c.isSend) = true) (now : Time) :
      Keeps contents base none (script.run now) := by
    refine run_keeps ?_ now
    rwa [show allowed none = fun c => !c.isSend from funext fun c => Bool.and_true _]
  cases e with
  | app script now => exact hkeeps he now d h
  | tick react now => exact tick_inv h now fun i => hkeeps (of_decide_eq_true he i) now
  | rx react now =>
    cases inbox with
    | nil => exact h
    | cons p rest =>
      refine rx_inv h (hg p List.mem_cons_self) now (fun k => hkeeps (of_decide_eq_true he k) now) fun i hi => ?_
      have hallowed : (react 0).all (allowed (some i)) = true := (all_and _ _ _).mpr ⟨of_decide_eq_true he 0, hcalm react now rfl i hi⟩
      exact ⟨run_keeps hallowed now, run_freezes hallowed now⟩

end Receiver

end DeskHop.Bulk
