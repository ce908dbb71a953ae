/-
  DeskHop.Bulk.Sender — the sending endpoint.

  While its stream ids have not come round (fewer than 255 sends), each of its streams
  carries the content its id stands for (`Slot`), so whatever window, rewind or timeout
  has it send, the message is `Genuine`; and it reports a stream sent and sound only on
  the receiver's word (`Judge`).
-/

import DeskHop.Bulk.Receiver

namespace DeskHop.Bulk

open DeskHop.Lib DeskHop.Wire

namespace Sender

/-- A stream in use is under way, with the content of its id. -/
structure Slot (notes : List Note) (i : Handle) (s : Stream) : Prop where
  outbound : s.outbound = true
  state : s.state ≠ .offered ∧ s.state ≠ .receiving
  stream : streamOf i notes = some s.id
  content : contentOf notes s.id = some s.src
  declared : Declared s.src s.total

/-- A log entry keeps the contract; `reported` is what the receiver has reported sound. -/
def Judge (reported : UInt8 → Prop) (pre : List Note) : Note → Prop
  | .sent h r => r = dataOk → ∃ id, streamOf h pre = some id ∧ reported id
  | _ => True

/-- `base` is the log the turn began with. -/
structure Inv (base : List Note) (reported : UInt8 → Prop) (d : Data) : Prop where
  grown : base <+: d.notes
  /-- Ids are given out in order, one for each successful send. -/
  fresh : ∀ h id c, Note.begun h id c ∈ d.notes → id.toNat < d.nextId.toNat
  nextId : d.nextId.toNat ≤ d.sends + 1
  slots : ∀ i, (d.s i).state ≠ .free → Slot d.notes i (d.s i)
  out : ∀ m ∈ d.out, Genuine (contentOf d.notes) m.2
  notes : Each (Judge reported) d.notes

/-- The invariant holds until the ids come round. -/
def InvUpTo (base : List Note) (reported : UInt8 → Prop) (d : Data) : Prop := d.sends < 255 → Inv base reported d

def Keeps (base : List Note) (reported : UInt8 → Prop) (app : App) : Prop :=
  ∀ d, InvUpTo base reported d → InvUpTo base reported (app d)

variable {base : List Note} {reported : UInt8 → Prop} {d : Data}

/-! ## Messages -/

/-- By the opcode alone. -/
theorem genuine_intro {contents : UInt8 → Option (List Byte)} {op : Byte} {id : UInt8} {extra : List Byte}
    (hop : op = opOffer ∨ op = opChunk ∨ op = opAbort)
    (hoffer : op = opOffer → ∃ c, contents id = some c ∧ Declared c (get32 extra 1))
    (hchunk : op = opChunk → ∃ c, contents id = some c ∧ extra.drop 2 = piece c (get16 extra 0))
    (habort : op = opAbort → resultOf extra dataCancelled ≠ dataOk) : Genuine contents (op :: id :: extra) :=
  ⟨hop, hoffer, hchunk, habort⟩

theorem genuine_offer {contents : UInt8 → Option (List Byte)} {s : Stream} (hc : contents s.id = some s.src)
    (hd : Declared s.src s.total) : Genuine contents (opOffer :: s.id :: offerExtra s) := by
  have htotal : get32 (offerExtra s) 1 = s.total := by
    rw [offerExtra, List.append_assoc, List.append_assoc]
    exact (get32_append_add [s.kind] _ 0).trans (get32_put32 _ _)
  refine genuine_intro (Or.inl rfl) (fun _ => ⟨s.src, hc, ?_⟩) (fun h => absurd h (by decide)) fun h => absurd h (by decide)
  rw [htotal]
  exact hd

theorem genuine_chunk {contents : UInt8 → Option (List Byte)} {id : UInt8} {c : List Byte} (hc : contents id = some c)
    (seq : UInt16) : Genuine contents (opChunk :: id :: (put16 seq ++ piece c seq)) := by
  refine genuine_intro (Or.inr (Or.inl rfl)) (fun h => absurd h (by decide)) (fun _ => ⟨c, hc, ?_⟩)
    fun h => absurd h (by decide)
  rw [get16_put16]
  rfl

theorem genuine_abort (contents : UInt8 → Option (List Byte)) (id : UInt8) {reason : Byte} (hr : reason ≠ dataOk) :
    Genuine contents [opAbort, id, reason] :=
  genuine_intro (Or.inr (Or.inr rfl)) (fun h => absurd h (by decide)) (fun h => absurd h (by decide)) fun _ => hr

/-! ## Primitive updates -/

theorem Inv.upd (h : Inv base reported d) (i : Handle) (f : Stream → Stream)
    (hf : (f (d.s i)).state ≠ .free → Slot d.notes i (f (d.s i))) : Inv base reported (d.upd i f) := by
  refine ⟨h.grown, h.fresh, h.nextId, fun j hs => ?_, h.out, h.notes⟩
  by_cases hji : j = i
  · subst hji
    rw [Data.upd_self] at hs ⊢
    exact hf hs
  · rw [Data.upd_ne _ _ _ hji] at hs ⊢
    exact h.slots j hs

/-- An update of a stream in use that leaves its content alone. -/
theorem Inv.touch (h : Inv base reported d) {i : Handle} (hu : (d.s i).state ≠ .free) (f : Stream → Stream)
    (hf : ∀ s, (f s).outbound = s.outbound ∧ (f s).id = s.id ∧ (f s).src = s.src ∧ (f s).total = s.total ∧
      ((f s).state = s.state ∨ (f s).state = .sending ∨ (f s).state = .draining)) :
    Inv base reported (d.upd i f) ∧ ((d.upd i f).s i).state ≠ .free := by
  obtain ⟨hout, hid, hsrc, htot, hst⟩ := hf (d.s i)
  have hi := h.slots i hu
  have hstate : (f (d.s i)).state ≠ .free ∧ (f (d.s i)).state ≠ .offered ∧ (f (d.s i)).state ≠ .receiving := by
    rcases hst with hst | hst | hst
    · rw [hst]
      exact ⟨hu, hi.state.1, hi.state.2⟩
    · rw [hst]
      decide
    · rw [hst]
      decide
  refine ⟨h.upd i f fun _ => ?_, ?_⟩
  · refine ⟨hout.trans hi.outbound, hstate.2, by rw [hid]; exact hi.stream, ?_, ?_⟩
    · rw [hid, hsrc]
      exact hi.content
    · rw [hsrc, htot]
      exact hi.declared
  · rw [Data.upd_self]
    exact hstate.1

theorem Inv.counted (h : Inv base reported d) (sent retransmits : UInt32) :
    Inv base reported { d with nSent := sent, nRetransmits := retransmits } :=
  ⟨h.grown, h.fresh, h.nextId, h.slots, h.out, h.notes⟩

theorem Inv.sendOp (h : Inv base reported d) {i : Handle} (hu : (d.s i).state ≠ .free) {op : Byte} {extra : List Byte}
    (hg : Genuine (contentOf d.notes) (op :: (d.s i).id :: extra)) (now : Time) :
    Inv base reported (d.sendOp i op extra now) ∧ ((d.sendOp i op extra now).s i).state ≠ .free := by
  have hemit : Inv base reported (d.emit (d.s i).peer (d.s i).id op extra) := by
    refine ⟨h.grown, h.fresh, h.nextId, h.slots, fun m hm => ?_, h.notes⟩
    rcases List.mem_append.mp hm with hm | hm
    · exact h.out m hm
    · rw [List.mem_singleton] at hm
      exact hm ▸ hg
  exact hemit.touch hu _ fun _ => ⟨rfl, rfl, rfl, rfl, Or.inl rfl⟩

theorem Slot.other {notes : List Note} {i : Handle} {s : Stream} (h : Slot notes i s) {n : Note} (hn : n.handle ≠ i) :
    Slot (notes ++ [n]) i s :=
  ⟨h.outbound, h.state, (streamOf_other notes hn).trans h.stream, contentOf_mono (List.prefix_append _ _) h.content,
    h.declared⟩

/-- A stream given up: its slot is cleared, and the hook told. -/
theorem finish_inv (h : InvUpTo base reported d) {i : Handle} (hu : (d.s i).state ≠ .free) {r : Byte}
    (hr : Inv base reported d → r = dataOk → reported (d.s i).id) {app : App} (happ : Keeps base reported app) :
    InvUpTo base reported (d.finish i r app) := by
  by_cases hs : d.sends < 255
  · have hd := h hs
    have hi := hd.slots i hu
    simp only [Data.finish, hi.outbound, if_true]
    refine happ _ fun _ => ⟨hd.grown.trans (List.prefix_append _ _), ?_, hd.nextId, fun j hj => ?_, fun m hm => ?_, ?_⟩
    · intro k id c hmem
      rcases List.mem_append.mp hmem with hmem | hmem
      · exact hd.fresh k id c hmem
      · cases List.mem_singleton.mp hmem
    · by_cases hji : j = i
      · subst hji
        simp only [Data.note_s, Data.upd_self] at hj
        exact absurd rfl hj
      · simp only [Data.note_s, Data.upd_ne _ _ _ hji, Data.note_notes, Data.upd_notes] at hj ⊢
        exact (hd.slots j hj).other (Ne.symm hji)
    · exact (hd.out m hm).mono fun _ _ => contentOf_mono (List.prefix_append _ _)
    · exact each_snoc.mpr ⟨hd.notes, fun hok => ⟨_, hi.stream, hr hd hok⟩⟩
  · simp only [Data.finish]
    split
    · exact happ _ fun h => absurd h hs
    · exact happ _ fun h => absurd h hs

/-! ## Chunks -/

theorem sendChunk_inv (h : Inv base reported d) {i : Handle} (hu : (d.s i).state ≠ .free) (now : Time) :
    Inv base reported (sendChunk d i now) ∧ ((sendChunk d i now).s i).state ≠ .free := by
  have hsent := h.sendOp hu (genuine_chunk (h.slots i hu).content (d.s i).nextSeq) now
  exact hsent.1.touch hsent.2 _ fun _ => ⟨rfl, rfl, rfl, rfl, Or.inl rfl⟩

theorem pumpLoop_inv (totalChunks : UInt16) (i : Handle) (now : Time) (n : Nat) (h : Inv base reported d)
    (hu : (d.s i).state ≠ .free) : Inv base reported (pumpLoop totalChunks i now n d) ∧
      ((pumpLoop totalChunks i now n d).s i).state ≠ .free := by
  induction n generalizing d with
  | zero => exact ⟨h, hu⟩
  | succ n ih =>
    unfold pumpLoop
    split
    · have hc := sendChunk_inv h hu now
      exact ih hc.1 hc.2
    · exact ⟨h, hu⟩

theorem pumpSender_inv (h : Inv base reported d) {i : Handle} (hu : (d.s i).state ≠ .free) (now : Time) :
    Inv base reported (pumpSender d i now) := by
  have hp := pumpLoop_inv (chunksFor (d.s i).total) i now ((chunksFor (d.s i).total).toNat - (d.s i).nextSeq.toNat) h hu
  simp only [pumpSender]
  split
  · exact (hp.1.touch hp.2 Stream.drain fun _ => ⟨rfl, rfl, rfl, rfl, Or.inr (Or.inr rfl)⟩).1
  · exact hp.1

theorem resume_inv (h : Inv base reported d) {i : Handle} (hu : (d.s i).state ≠ .free) (p : List Byte) (k : Nat)
    (now : Time) : Inv base reported (pumpSender ((d.upd i (Stream.takeWindow p k)).upd i Stream.resume) i now) := by
  have h1 := h.touch hu (Stream.takeWindow p k) fun s => by
    unfold Stream.takeWindow
    split <;> exact ⟨rfl, rfl, rfl, rfl, Or.inl rfl⟩
  have h2 := h1.1.touch h1.2 Stream.resume fun _ => ⟨rfl, rfl, rfl, rfl, Or.inr (Or.inl rfl)⟩
  exact pumpSender_inv h2.1 h2.2 now

theorem pumpLoop_sends (totalChunks : UInt16) (i : Handle) (now : Time) (n : Nat) (d : Data) :
    (pumpLoop totalChunks i now n d).sends = d.sends := by
  induction n generalizing d with
  | zero => rfl
  | succ n ih =>
    unfold pumpLoop
    split
    · exact ih (sendChunk d i now)
    · rfl

theorem pumpSender_sends (d : Data) (i : Handle) (now : Time) : (pumpSender d i now).sends = d.sends := by
  simp only [pumpSender]
  split <;> exact pumpLoop_sends _ _ _ _ _

theorem rxAccept_inv (h : Inv base reported d) {i : Handle} (hu : (d.s i).state ≠ .free) (p : List Byte) (now : Time) :
    Inv base reported (rxAccept d i p now) := by
  unfold rxAccept
  split
  · exact resume_inv h hu p 0 now
  · exact h

theorem rxAccept_sends (d : Data) (i : Handle) (p : List Byte) (now : Time) : (rxAccept d i p now).sends = d.sends := by
  unfold rxAccept
  split
  · exact pumpSender_sends _ _ _
  · rfl

/-- Whatever the acknowledgement says of progress, loss and window. -/
theorem rxAck_inv (h : Inv base reported d) {i : Handle} (hu : (d.s i).state ≠ .free) (p : List Byte) (now : Time) :
    Inv base reported (rxAck d i p now) := by
  simp only [rxAck]
  split
  · have h1 := h.touch hu (Stream.progress (get16 p 0)) fun s => by
      unfold Stream.progress
      split <;> exact ⟨rfl, rfl, rfl, rfl, Or.inl rfl⟩
    split
    · have h2 := (h1.1.counted d.nSent (d.nRetransmits + 1)).touch h1.2 (Stream.rewind (get16 p 0))
        fun _ => ⟨rfl, rfl, rfl, rfl, Or.inl rfl⟩
      exact resume_inv h2.1 h2.2 p 2 now
    · exact resume_inv h1.1 h1.2 p 2 now
  · exact h

theorem rxAck_sends (d : Data) (i : Handle) (p : List Byte) (now : Time) : (rxAck d i p now).sends = d.sends := by
  simp only [rxAck]
  split
  · split <;> exact pumpSender_sends _ _ _
  · rfl

theorem resend_inv (h : Inv base reported d) {i : Handle} (hu : (d.s i).state ≠ .free) (now : Time) :
    Inv base reported (resend d i now) := by
  have hrestart := h.touch hu Stream.restart fun _ => ⟨rfl, rfl, rfl, rfl, Or.inr (Or.inl rfl)⟩
  unfold resend
  split
  · exact (h.sendOp hu (genuine_offer (h.slots i hu).content (h.slots i hu).declared) now).1
  · exact pumpSender_inv (hrestart.1.counted d.nSent (d.nRetransmits + 1)) hrestart.2 now
  · exact pumpSender_inv (hrestart.1.counted d.nSent (d.nRetransmits + 1)) hrestart.2 now
  · exact h

theorem resend_sends (d : Data) (i : Handle) (now : Time) : (resend d i now).sends = d.sends := by
  unfold resend
  split
  · rfl
  · exact pumpSender_sends _ _ _
  · exact pumpSender_sends _ _ _
  · rfl

/-! ## The application's calls -/

theorem cancel_inv (h : InvUpTo base reported d) (stream : UInt8) (now : Time) {app : App}
    (happ : Keeps base reported app) : InvUpTo base reported (dataCancel d stream now app) := by
  unfold dataCancel
  split
  · exact h
  rename_i i hi
  have hu := (Data.byHandle_some d hi).2
  have hsent : InvUpTo base reported (d.sendOp i opAbort [dataCancelled] now) := fun hs =>
    ((h hs).sendOp hu (genuine_abort _ _ (by decide)) now).1
  refine finish_inv hsent ?_ (fun _ h => absurd h (by decide)) happ
  rw [Data.sendOp_self]
  exact hu

/-- Of an outbound stream there is no offer to decide on. -/
theorem accept_inv (h : InvUpTo base reported d) (stream : UInt8) (now : Time) :
    InvUpTo base reported (dataAccept d stream now) := by
  unfold dataAccept
  split
  · exact h
  rename_i i hi
  split
  · exact h
  · rename_i hs
    intro hlt
    exact absurd (not_not.mp hs) ((h hlt).slots i (Data.byHandle_some d hi).2).state.1

theorem reject_inv (h : InvUpTo base reported d) (stream : UInt8) (now : Time) :
    InvUpTo base reported (dataReject d stream now) := by
  unfold dataReject
  split
  · exact h
  rename_i i hi
  split
  · exact h
  · rename_i hs
    intro hlt
    exact absurd (not_not.mp hs) ((h hlt).slots i (Data.byHandle_some d hi).2).state.1

/-- An id not given out stands for nothing, until the content that takes it. -/
theorem contentOf_fresh {notes : List Note} {id : UInt8} (hid : ∀ h c, Note.begun h id c ∉ notes) (h : Handle)
    (c : List Byte) : contentOf (notes ++ [.begun h id c]) id = some c := by
  have hnone : contentOf notes id = none := by
    refine List.findSome?_eq_none_iff.mpr fun n hn => ?_
    cases n with
    | begun h' id' c' =>
      refine if_neg ?_
      rintro rfl
      exact hid _ _ hn
    | _ => rfl
  rw [contentOf] at hnone
  rw [contentOf, List.findSome?_append, hnone]
  simp

theorem nextId_succ (id : UInt8) (h : id.toNat < 255) :
    (if id + 1 = 0 then 1 else id + 1).toNat = id.toNat + 1 := by
  have hsucc : (id + 1).toNat = id.toNat + 1 := by
    rw [UInt8.toNat_add]
    have h1 : (1 : UInt8).toNat = 1 := rfl
    rw [h1]
    omega
  have hne : id + 1 ≠ 0 := by
    intro h0
    rw [h0] at hsucc
    have h0 : (0 : UInt8).toNat = 0 := rfl
    omega
  rw [if_neg hne, hsucc]

/-- A content takes the next id, which no other has had. -/
theorem begun_inv (h : Inv base reported d) (hnext : d.nextId.toNat ≤ d.sends) (hlt : d.sends < 255) {i : Handle}
    {s : Stream} (hid : s.id = d.nextId) (hout : s.outbound = true) (hst : s.state = .offering)
    (hdecl : Declared s.src s.total) :
    Inv base reported
      (Data.note { d.upd i (fun _ => s) with nextId := if d.nextId + 1 = 0 then 1 else d.nextId + 1 }
        (.begun i s.id s.src)) := by
  have hsucc := nextId_succ d.nextId (by omega)
  have hfresh : ∀ k c, Note.begun k s.id c ∉ d.notes := fun k c hmem => by
    have := h.fresh k s.id c hmem
    rw [hid] at this
    omega
  refine ⟨h.grown.trans (List.prefix_append _ _), ?_, ?_, fun j hj => ?_, fun m hm => ?_,
    each_snoc.mpr ⟨h.notes, trivial⟩⟩
  · intro k id c hmem
    show id.toNat < (if d.nextId + 1 = 0 then 1 else d.nextId + 1).toNat
    rw [hsucc]
    rcases List.mem_append.mp hmem with hmem | hmem
    · have := h.fresh k id c hmem
      omega
    · cases List.mem_singleton.mp hmem
      rw [hid]
      exact Nat.lt_succ_self _
  · show (if d.nextId + 1 = 0 then 1 else d.nextId + 1).toNat ≤ d.sends + 1
    omega
  · simp only [Data.note_s, Data.note_notes, Data.upd_notes] at hj ⊢
    by_cases hji : j = i
    · subst hji
      rw [Data.upd_self]
      refine ⟨hout, by rw [hst]; decide, ?_, contentOf_fresh hfresh _ _, hdecl⟩
      rw [streamOf_snoc]
      exact if_pos rfl
    · rw [Data.upd_ne _ _ _ hji] at hj ⊢
      exact (h.slots j hj).other (Ne.symm hji)
  · exact (h.out m hm).mono fun _ _ => contentOf_mono (List.prefix_append _ _)

theorem send_inv (h : InvUpTo base reported d) {addr peer : Addr} {maxInbound : UInt32} {kind : UInt8}
    {name data : List Byte} (hfits : Call.fits addr maxInbound (.send peer kind name data) = true) (now : Time) :
    InvUpTo base reported (dataSend d peer kind name data now).2 := by
  simp only [Call.fits, Bool.and_eq_true, decide_eq_true_eq] at hfits
  obtain ⟨⟨⟨-, hpos⟩, hmax⟩, -⟩ := hfits
  have hcounted : d.sends + 1 < 255 → Inv base reported { d with sends := d.sends + 1 } ∧
      d.nextId.toNat ≤ d.sends + 1 := by
    intro hlt
    have hd := h (by omega)
    have hnext := hd.nextId
    exact ⟨⟨hd.grown, hd.fresh, Nat.le_succ_of_le hnext, hd.slots, hd.out, hd.notes⟩, hnext⟩
  simp only [dataSend]
  rw [if_neg (by omega)]
  split
  · exact fun hlt => (hcounted hlt).1
  · rename_i i _
    intro hlt
    obtain ⟨hd, hnext⟩ := hcounted hlt
    have hself := Data.upd_self { d with sends := d.sends + 1 } i fun _ => outboundStream d peer kind name data now
    have hb := begun_inv hd hnext hlt (i := i) (s := outboundStream d peer kind name data now) rfl rfl rfl ⟨hpos, hmax, rfl⟩
    have hused : (({ d with sends := d.sends + 1 }.upd i fun _ => outboundStream d peer kind name data now).s i).state ≠
        .free := by
      rw [hself]
      exact fun h => by cases h
    have hslot := hb.slots i hused
    rw [Data.note_s, hself] at hslot
    refine (hb.sendOp hused ?_ now).1
    rw [Data.note_s, hself]
    exact genuine_offer hslot.content hslot.declared

theorem perform_inv (h : InvUpTo base reported d) {peer : Addr} {maxInbound : UInt32} {c : Call}
    (hc : c.fits peer maxInbound = true) (now : Time) {app : App} (happ : Keeps base reported app) :
    InvUpTo base reported (c.perform now app d) := by
  cases c with
  | accept stream => exact accept_inv h stream now
  | reject stream => exact reject_inv h stream now
  | cancel stream => exact cancel_inv h stream now happ
  | send dst kind name data => exact send_inv h hc now

theorem run_keeps {peer : Addr} {maxInbound : UInt32} {script : Script}
    (hs : script.all (Call.fits peer maxInbound) = true) (now : Time) : Keeps base reported (script.run now) := by
  induction script with
  | done => exact fun _ h => h
  | call c inner rest ihInner ihRest =>
    simp only [Script.all, Bool.and_eq_true] at hs
    exact fun d h => ihRest hs.2 _ (perform_inv h hs.1.1 now (ihInner hs.1.2))

/-! ## Answers and ticks -/

theorem rxStream_inv (h : InvUpTo base reported d) {i : Handle} {payload : List Byte} (ha : Answer reported payload)
    (hu : (d.s i).state ≠ .free) (hid : (d.s i).id = byteAt payload 1) (now : Time) {app : Fin 2 → App}
    (happ : ∀ k, Keeps base reported (app k)) :
    InvUpTo base reported (rxStream d i (byteAt payload 0) (payload.drop 2) now app) := by
  have htouch (hs : d.sends < 255) := (h hs).touch hu (fun s => { s with lastRx := now, retries := 0 })
    fun _ => ⟨rfl, rfl, rfl, rfl, Or.inl rfl⟩
  have hused : ((d.upd i fun s => { s with lastRx := now, retries := 0 }).s i).state ≠ .free := by
    rw [Data.upd_self]
    exact hu
  have hid' : ((d.upd i fun s => { s with lastRx := now, retries := 0 }).s i).id = byteAt payload 1 := by
    rw [Data.upd_self]
    exact hid
  have hinv : InvUpTo base reported (d.upd i fun s => { s with lastRx := now, retries := 0 }) := fun hs => (htouch hs).1
  simp only [rxStream]
  by_cases h1 : byteAt payload 0 = opAccept
  · rw [if_pos h1]
    intro hs
    rw [rxAccept_sends] at hs
    exact rxAccept_inv (htouch hs).1 hused _ now
  rw [if_neg h1]
  by_cases h2 : byteAt payload 0 = opReject
  · rw [if_pos h2]
    exact finish_inv hinv hused (fun _ hr => absurd hr (ha.reject h2)) (happ 0)
  rw [if_neg h2, if_neg ha.op.2]
  by_cases h3 : byteAt payload 0 = opAck
  · rw [if_pos h3]
    intro hs
    rw [rxAck_sends] at hs
    exact rxAck_inv (htouch hs).1 hused _ now
  rw [if_neg h3]
  by_cases h4 : byteAt payload 0 = opDone
  · rw [if_pos h4]
    refine finish_inv hinv hused (fun _ hr => ?_) (happ 0)
    rw [hid']
    exact ha.done h4 hr
  rw [if_neg h4]
  by_cases h5 : byteAt payload 0 = opAbort
  · rw [if_pos h5]
    exact finish_inv hinv hused (fun _ hr => absurd hr (ha.abort h5)) (happ 0)
  · rw [if_neg h5]
    exact hinv

theorem rx_inv (h : InvUpTo base reported d) {f : Frame} (ha : Answer reported f.payload) (now : Time)
    {app : Fin 2 → App} (happ : ∀ k, Keeps base reported (app k)) : InvUpTo base reported (dataRx d f now app) := by
  unfold dataRx
  split
  · exact h
  rw [if_neg ha.op.1]
  cases haddr : d.addressee f.src (byteAt f.payload 1) (byteAt f.payload 0) with
  | none => exact h
  | some i =>
    obtain ⟨hu, hid, -⟩ := Data.addressee_some d haddr
    exact rxStream_inv h ha hu hid now happ

theorem tickSlot_inv (h : InvUpTo base reported d) (now : Time) {app : Handle → App}
    (happ : ∀ i, Keeps base reported (app i)) (i : Handle) : InvUpTo base reported (tickSlot now app d i) := by
  simp only [tickSlot]
  by_cases hu : (d.s i).state = .free
  · rw [if_pos hu]
    exact h
  rw [if_neg hu]
  split
  · exact finish_inv h hu (fun _ hr => absurd hr (by decide)) (happ i)
  split
  · exact h
  split
  · exact h
  have htouch (hs : d.sends < 255) := (h hs).touch hu (fun s => { s with retries := s.retries + 1 })
    fun _ => ⟨rfl, rfl, rfl, rfl, Or.inl rfl⟩
  have hused : ((d.upd i fun s => { s with retries := s.retries + 1 }).s i).state ≠ .free := by
    rw [Data.upd_self]
    exact hu
  split
  · have hsent : InvUpTo base reported
        ((d.upd i fun s => { s with retries := s.retries + 1 }).sendOp i opAbort [dataTimeout] now) := fun hs =>
      ((htouch hs).1.sendOp hused (genuine_abort _ _ (by decide)) now).1
    refine finish_inv hsent ?_ (fun _ hr => absurd hr (by decide)) (happ i)
    rw [Data.sendOp_self]
    exact hused
  intro hs
  rw [resend_sends] at hs
  exact resend_inv (htouch hs).1 hused now

theorem tick_inv (h : InvUpTo base reported d) (now : Time) {app : Handle → App}
    (happ : ∀ i, Keeps base reported (app i)) : InvUpTo base reported (dataTick d now app) := by
  unfold dataTick
  induction List.finRange 8 generalizing d with
  | nil => exact h
  | cons i is ih => exact ih (tickSlot_inv h now happ i)

/-- A turn of the sender, whose application sends contents that fit. -/
theorem turn_inv (h : InvUpTo base reported d) {inbox : List (List Byte)} (src dst : Addr)
    (ha : ∀ p ∈ inbox, Answer reported p) {maxInbound : UInt32} {e : Act}
    (he : e.all (Call.fits src maxInbound) = true) : InvUpTo base reported (turn d inbox src dst e) := by
  cases e with
  | app script now => exact run_keeps he now d h
  | tick react now => exact tick_inv h now fun i => run_keeps (of_decide_eq_true he i) now
  | rx react now =>
    cases inbox with
    | nil => exact h
    | cons p rest => exact rx_inv h (ha p List.mem_cons_self) now fun k => run_keeps (of_decide_eq_true he k) now

end Sender

end DeskHop.Bulk
