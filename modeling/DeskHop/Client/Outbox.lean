/-
  DeskHop.Client.Outbox — the buffer a client sends from (`client/src/main.c`: `tx_buf`,
  `send_owned`, `on_sent`).

  The transport refers to the caller's memory until it calls `on_sent`. `send_owned` takes a
  buffer over: it frees it where it cannot send it, and else `on_sent` does.

  `handed` and `freed` are ghosts: the buffers `send_owned` was given, and what was freed.

  Proved, of every run, whatever arrives (`sends_from_its_buffer`): while a stream goes out it
  is the only one, and its bytes are those of the buffer that is held; the buffer is held just
  so long, the busy flag says so, and every other buffer handed over has been freed, once.
-/

import DeskHop.Bulk.Sending
import DeskHop.Bulk.Speaking
import DeskHop.Client.Clipboard

namespace DeskHop.Client

open DeskHop.Bulk DeskHop.Lib DeskHop.Wire Relation

/-! ## State -/

structure Sender where
  m : Machine
  txBuf : Option (List Byte)
  handed : List (List Byte)
  freed : List (List Byte)

namespace Sender

def sendOwned (s : Sender) (kind : UInt8) (name data : List Byte) (now : Time) : Bool × Sender :=
  let s := { s with handed := s.handed ++ [data] }
  if s.m.txBusy then (false, { s with freed := s.freed ++ [data] })
  else
    let s := { s with txBuf := some data }
    match dataSend s.m.data s.m.peer kind name data now with
    | (.error _, d) =>
      (false, { s with m := { s.m with data := d, txBusy := false }, txBuf := none, freed := s.freed ++ s.txBuf.toList })
    | (.ok _, d) => (true, { s with m := { s.m with data := d, txBusy := true } })

def onSent (s : Sender) : Sender := { s with txBuf := none, freed := s.freed ++ s.txBuf.toList }

/-- The hooks the transport called, and what the client has become. -/
def after (s : Sender) (m : Machine) : Sender :=
  (m.data.notes.drop s.m.data.notes.length).foldl (fun s n => match n with
    | .sent .. => s.onSent
    | _ => s) { s with m := m }

/-- `poll_clipboard`, with what it sends. -/
def poll (s : Sender) (malloc : Bool) (now : Time) : Sender :=
  let m := s.m.pollClipboard malloc now
  if !s.m.available || s.m.txBusy || !timeAfter now s.m.nextClipPoll then { s with m := m }
  else
    match s.m.clipboardGet with
    | none => { s with m := m }
    | some cur =>
      if s.m.inbound.lastClip = some cur then { s with m := m }
      else { (s.sendOwned dataText Machine.clipboardName cur now).2 with m := m }

inductive Event where
  | copy (bytes : List Byte)
  | poll (malloc : Bool) (now : Time)
  /-- By the control socket. -/
  | send (kind : UInt8) (name data : List Byte) (now : Time)
  | aim (peer : Addr)
  | rx (f : Frame) (heap : Option (Nat → Byte)) (world : World) (now : Time)
  | tick (world : World) (now : Time)

def step (s : Sender) : Event → Sender
  | .copy bytes => { s with m := s.m.copy bytes }
  | .poll malloc now => s.poll malloc now
  | .send kind name data now => (s.sendOwned kind name data now).2
  | .aim peer => { s with m := { s.m with peer := peer } }
  | .rx f heap world now => s.after (s.m.rx f heap world now)
  | .tick world now => s.after (s.m.tick world now)

/-- Nothing is being sent. -/
def Fresh (s : Sender) : Prop :=
  Transfer.Idle s.m.data ∧ s.m.txBusy = false ∧ s.txBuf = none ∧ s.handed = [] ∧ s.freed = []

end Sender

/-! ## What goes out -/

theorem goesOut_iff {i : Handle} {s : Stream} (h : Sided i s) : s.goesOut ↔ s.outbound = true := by
  constructor
  · exact fun hout => (h.outbound hout).1
  · intro hout
    unfold Stream.goesOut
    cases hs : s.state with
    | free =>
      have hin := h.free hs
      rw [hout] at hin
      cases hin
    | offering => exact Or.inl rfl
    | sending => exact Or.inr (Or.inl rfl)
    | draining => exact Or.inr (Or.inr rfl)
    | offered =>
      have hin := (h.inbound (Or.inl hs)).1
      rw [hout] at hin
      cases hin
    | receiving =>
      have hin := (h.inbound (Or.inr hs)).1
      rw [hout] at hin
      cases hin

/-- The buffer is that of the one stream that goes out, if one does. -/
structure Backed (d : Data) (buf : Option (List Byte)) : Prop where
  backs : ∀ i, (d.s i).goesOut → buf = some (d.s i).src
  one : ∀ i j, (d.s i).goesOut → (d.s j).goesOut → i = j
  held : buf ≠ none → ∃ i, (d.s i).goesOut

def isSentNote : Note → Bool
  | .sent .. => true
  | _ => false

/-- What is left of the buffer after these calls. -/
def bufAfter (buf : Option (List Byte)) (ns : List Note) : Option (List Byte) := if ns.any isSentNote then none else buf

theorem bufAfter_append (buf : Option (List Byte)) (ns ns' : List Note) :
    bufAfter buf (ns ++ ns') = bufAfter (bufAfter buf ns) ns' := by
  unfold bufAfter
  rw [List.any_append]
  cases ns.any isSentNote <;> cases ns'.any isSentNote <;> rfl

section becomes

variable {d d' : Data} {i : Handle} {s : Stream} {msgs : List (Addr × List Byte)} {ns : List Note}
  {buf : Option (List Byte)}

/-- A stream goes on as it is, as far as this is concerned. -/
theorem Backed.stays (h : Backed d buf) (hb : Becomes d i s msgs ns d') (hout : s.goesOut ↔ (d.s i).goesOut)
    (hsrc : s.goesOut → s.src = (d.s i).src) (hns : ns.any isSentNote = false) : Backed d' (bufAfter buf ns) := by
  have hbuf : bufAfter buf ns = buf := if_neg (by rw [hns]; decide)
  have hsame (j : Handle) : ((d'.s j).goesOut ↔ (d.s j).goesOut) ∧ ((d'.s j).goesOut → (d'.s j).src = (d.s j).src) := by
    by_cases hj : j = i
    · rw [hj, hb.self]
      exact ⟨hout, hsrc⟩
    · rw [hb.ne hj]
      exact ⟨Iff.rfl, fun _ => rfl⟩
  rw [hbuf]
  refine ⟨fun j hj => ?_, fun j k hj hk => ?_, fun hne => ?_⟩
  · rw [(hsame j).2 hj]
    exact h.backs j ((hsame j).1.mp hj)
  · exact h.one j k ((hsame j).1.mp hj) ((hsame k).1.mp hk)
  · obtain ⟨j, hj⟩ := h.held hne
    exact ⟨j, (hsame j).1.mpr hj⟩

/-- A stream ends, and its hook is called. -/
theorem Backed.ends (h : Backed d buf) (hd : d.Sorted) {r : Byte} (hb : Becomes d i .zero msgs [endNote (d.s i) i r] d') :
    Backed d' (bufAfter buf [endNote (d.s i) i r]) := by
  have hiff := goesOut_iff (hd i)
  by_cases hout : (d.s i).goesOut
  · have hnote : endNote (d.s i) i r = .sent i r := if_pos (hiff.mp hout)
    have hnone (j : Handle) : ¬ (d'.s j).goesOut := by
      by_cases hj : j = i
      · rw [hj, hb.self]
        exact not_goesOut_zero
      · rw [hb.ne hj]
        exact fun hk => hj (h.one j i hk hout)
    rw [hnote]
    exact ⟨fun j hj => absurd hj (hnone j), fun j _ hj => absurd hj (hnone j), fun hne => absurd rfl hne⟩
  · have hnote : endNote (d.s i) i r = .received i r := if_neg (mt hiff.mpr hout)
    rw [hnote] at hb ⊢
    exact h.stays hb (iff_of_false not_goesOut_zero hout) (fun hz => absurd hz not_goesOut_zero) rfl

theorem callMove_backed {calm : Prop} {held : Option Handle} {now : Time} (hm : CallMove calm held now d d')
    (hsends : d'.sends = d.sends) (hd : d.Sorted) (h : Backed d buf) :
    ∃ ns, d'.notes = d.notes ++ ns ∧ Backed d' (bufAfter buf ns) := by
  cases hm with
  | @accept _ j hs hb =>
    refine ⟨_, hb.notes, h.stays hb (iff_of_false ?_ ?_) (fun _ => rfl) rfl⟩
    · rintro (hout | hout | hout) <;> cases hout
    · rintro (hout | hout | hout) <;> exact absurd (hs.symm.trans hout) (by decide)
  | @reject _ j hs hb =>
    refine ⟨_, hb.notes, h.stays hb (iff_of_false not_goesOut_zero ?_) (fun hz => absurd hz not_goesOut_zero) rfl⟩
    rintro (hout | hout | hout) <;> exact absurd (hs.symm.trans hout) (by decide)
  | cancel _ _ hb => exact ⟨_, hb.notes, h.ends hd hb⟩
  | fail => exact absurd hsends (Nat.succ_ne_self _)
  | send _ _ _ _ _ hmore => exact absurd (hmore.symm.trans hsends) (Nat.succ_ne_self _)

/-- Whatever a move does to a stream, unless it begins a send. -/
theorem move_backed {g : Given} {m m' : Mid} (hm : Move g m m') (hsends : m'.d.sends = m.d.sends) (hd : m.d.Sorted)
    (h : Backed m.d buf) : ∃ ns, m'.d.notes = m.d.notes ++ ns ∧ Backed m'.d (bufAfter buf ns) := by
  have hzero {t : Stream} : Stream.zero.goesOut → Stream.zero.src = t.src := fun hz => absurd hz not_goesOut_zero
  cases hm with
  | call hc => exact callMove_backed hc hsends hd h
  | stamp _ hb => exact ⟨_, hb.notes, h.stays hb Iff.rfl (fun _ => rfl) rfl⟩
  | decline _ _ hs _ hb =>
    refine ⟨_, hb.notes, ?_⟩
    rcases hs with rfl | ⟨hfree, rfl⟩
    · exact h.stays hb Iff.rfl (fun _ => rfl) rfl
    · refine h.stays hb (iff_of_false not_goesOut_zero ?_) hzero rfl
      rintro (hout | hout | hout) <;> exact absurd (hfree.symm.trans hout) (by decide)
  | opened _ _ _ hfree hs _ hb =>
    subst hs
    have hstate := Data.slotFree_some _ hfree
    refine ⟨_, hb.notes, h.stays hb (iff_of_false ?_ ?_) ?_ rfl⟩
    · rintro (hout | hout | hout) <;> cases hout
    · rintro (hout | hout | hout) <;> exact absurd (hstate.symm.trans hout) (by decide)
    · rintro (hout | hout | hout) <;> cases hout
  | ack _ hb => exact ⟨_, hb.notes, h.stays hb Iff.rfl (fun _ => rfl) rfl⟩
  | hand _ _ _ _ _ hb => exact ⟨_, hb.notes, h.stays hb Iff.rfl (fun _ => rfl) rfl⟩
  | count hs _ hb =>
    subst hs
    exact ⟨_, hb.notes, h.stays hb Iff.rfl (fun _ => rfl) rfl⟩
  | verdict _ _ hb => exact ⟨_, hb.notes, h.ends hd hb⟩
  | quit _ _ _ hb => exact ⟨_, hb.notes, h.ends hd hb⟩
  | told _ _ _ _ _ hb => exact ⟨_, hb.notes, h.ends hd hb⟩
  | steer hs hb =>
    exact ⟨_, hb.notes, h.stays hb (iff_of_true (Or.inr (Or.inl rfl)) (hs.imp_left And.left)) (fun _ => rfl) rfl⟩
  | push _ hb => exact ⟨_, hb.notes, h.stays hb Iff.rfl (fun _ => rfl) rfl⟩
  | drain hs hb =>
    exact ⟨_, hb.notes, h.stays hb (iff_of_true (Or.inr (Or.inr rfl)) (Or.inr (Or.inl hs))) (fun _ => rfl) rfl⟩
  | offer _ hb => exact ⟨_, hb.notes, h.stays hb Iff.rfl (fun _ => rfl) rfl⟩

/-- A turn in which nothing is sent. -/
theorem moves_backed {g : Given} (hm : Moves g d d') (hsends : d'.sends = d.sends) (hd : d.Sorted) (h : Backed d buf) :
    d'.Sorted ∧ ∃ ns, d'.notes = d.notes ++ ns ∧ Backed d' (bufAfter buf ns) := by
  have hkept := moves_keep hm (P := fun mid => d.sends ≤ mid.d.sends ∧ mid.d.Sorted ∧
    (mid.d.sends = d.sends → ∃ ns, mid.d.notes = d.notes ++ ns ∧ Backed mid.d (bufAfter buf ns)))
    (fun mid mid' hmove ih => ?_) ⟨Nat.le_refl _, hd, fun _ => ⟨[], (List.append_nil _).symm, h⟩⟩
  · exact ⟨hkept.2.1, hkept.2.2 hsends⟩
  · obtain ⟨hle, hsorted, hback⟩ := ih
    have hmore := hmove.sends_le
    refine ⟨hle.trans hmore, hmove.sorted hsorted, fun hsame => ?_⟩
    obtain ⟨ns, hns, hb⟩ := hback (by omega)
    obtain ⟨more, hnotes, hb'⟩ := move_backed hmove (by omega) hsorted hb
    exact ⟨ns ++ more, by rw [hnotes, hns, List.append_assoc], bufAfter_append buf ns more ▸ hb'⟩

end becomes

/-! ## What sends nothing -/

/-- The application makes no send of what it is told. -/
def Quiet (app : App) : Prop := ∀ d, (app d).sends = d.sends

section quiet

variable (d : Data) (i : Handle) (p : List Byte) (now : Time)

theorem finish_sends (r : Byte) {app : App} (happ : Quiet app) : (d.finish i r app).sends = d.sends := by
  rw [finish_eq, happ]
  exact (ended_becomes d i r).sends

theorem rxOffer_sends (peer : Addr) (id : UInt8) {app : App} (happ : Quiet app) :
    (rxOffer d peer id p now app).sends = d.sends := by
  unfold rxOffer
  dsimp only
  repeat' split
  all_goals first | rfl | exact happ _

theorem afterChunk_sends {app : App} (happ : Quiet app) : (afterChunk d i now app).sends = d.sends := by
  unfold afterChunk
  dsimp only
  split
  · exact finish_sends _ i _ happ
  split
  · rfl
  · rfl

theorem rxChunk_sends {app : Fin 2 → App} (happ : ∀ k, Quiet (app k)) : (rxChunk d i p now app).sends = d.sends := by
  unfold rxChunk
  dsimp only
  split
  · rfl
  split
  · split
    · rfl
    · rfl
  split
  · exact finish_sends _ i _ (happ 0)
  · rw [afterChunk_sends _ i now (happ 1), happ 0]
    rfl

theorem dataRx_sends (f : Frame) {app : Fin 2 → App} (happ : ∀ k, Quiet (app k)) :
    (dataRx d f now app).sends = d.sends := by
  unfold dataRx
  split
  · rfl
  dsimp only
  split
  · exact rxOffer_sends d _ now _ _ (happ 0)
  cases d.addressee f.src (byteAt f.payload 1) (byteAt f.payload 0) with
  | none => rfl
  | some i =>
    dsimp only
    unfold rxStream
    dsimp only
    split
    · exact Sender.rxAccept_sends _ i _ now
    split
    · exact finish_sends _ i _ (happ 0)
    split
    · exact rxChunk_sends _ i _ now happ
    split
    · exact Sender.rxAck_sends _ i _ now
    split
    · exact finish_sends _ i _ (happ 0)
    split
    · exact finish_sends _ i _ (happ 0)
    · rfl

theorem tickSlot_sends {app : Handle → App} (happ : ∀ i, Quiet (app i)) : (tickSlot now app d i).sends = d.sends := by
  unfold tickSlot
  dsimp only
  split
  · rfl
  split
  · exact finish_sends d i _ (happ i)
  split
  · rfl
  split
  · rfl
  split
  · exact finish_sends _ i _ (happ i)
  · exact Sender.resend_sends _ i now

theorem dataTick_sends {app : Handle → App} (happ : ∀ i, Quiet (app i)) : (dataTick d now app).sends = d.sends := by
  unfold dataTick
  induction List.finRange 8 generalizing d with
  | nil => rfl
  | cons i is ih =>
    rw [List.foldl_cons, ih]
    exact tickSlot_sends d i now happ

theorem accept_sends (stream : UInt8) : (dataAccept d stream now).sends = d.sends := by
  unfold dataAccept
  split
  · rfl
  split
  · rfl
  · rfl

theorem reject_sends (stream : UInt8) : (dataReject d stream now).sends = d.sends := by
  unfold dataReject
  split
  · rfl
  split
  · rfl
  · rfl

/-- The client accepts or rejects. -/
theorem answer_quiet (m : Machine) (heap : Option (Nat → Byte)) : Quiet (m.answer heap now) := by
  intro d
  unfold Machine.answer
  split
  · rename_i h _ _ kind total name _
    have hcall : (onOffer m.inbound (Machine.handleByte h) kind total name heap).1 = .accept (Machine.handleByte h) ∨
        (onOffer m.inbound (Machine.handleByte h) kind total name heap).1 = .reject (Machine.handleByte h) := by
      unfold onOffer
      dsimp only
      repeat' split
      all_goals first | exact Or.inl rfl | exact Or.inr rfl
    rcases hcall with hcall | hcall <;> rw [hcall]
    · exact accept_sends d now _
    · exact reject_sends d now _
  · rfl

end quiet

/-! ## The hooks -/

theorem hooks_machine (heap : Option (Nat → Byte)) (world : World) (ns : List Note) (m : Machine) :
    (ns.foldl (Machine.hook heap world) m).data = m.data ∧
      (ns.foldl (Machine.hook heap world) m).txBusy = (m.txBusy && !ns.any isSentNote) := by
  induction ns generalizing m with
  | nil => exact ⟨rfl, (Bool.and_true _).symm⟩
  | cons n ns ih =>
    rw [List.foldl_cons, List.any_cons]
    obtain ⟨hdata, hbusy⟩ := ih (m.hook heap world n)
    cases n with
    | sent i r => exact ⟨hdata, hbusy.trans (by rw [isSentNote, Bool.true_or, Bool.not_true, Bool.and_false]; rfl)⟩
    | begun | offered | chunk | received => exact ⟨hdata, hbusy⟩

namespace Sender

variable {s : Sender}

/-- The buffer held, and what has become of all of them. -/
structure Holding (s : Sender) : Prop where
  sorted : s.m.data.Sorted
  backed : Backed s.m.data s.txBuf
  busy : s.m.txBusy = s.txBuf.isSome
  freed : (s.freed ++ s.txBuf.toList).Perm s.handed

theorem hooks_buffer (ns : List Note) (s : Sender) :
    let s' := ns.foldl (fun s n => match n with
      | .sent .. => s.onSent
      | _ => s) s
    s'.m = s.m ∧ s'.handed = s.handed ∧ s'.txBuf = bufAfter s.txBuf ns ∧
      s'.freed ++ s'.txBuf.toList = s.freed ++ s.txBuf.toList := by
  induction ns generalizing s with
  | nil => exact ⟨rfl, rfl, rfl, rfl⟩
  | cons n ns ih =>
    dsimp only at ih ⊢
    rw [List.foldl_cons]
    cases n with
    | sent i r =>
      obtain ⟨hm, hhanded, hbuf, hfreed⟩ := ih s.onSent
      refine ⟨hm, hhanded, hbuf.trans ?_, hfreed.trans ?_⟩
      · rw [show Note.sent i r :: ns = [.sent i r] ++ ns from rfl, bufAfter_append]
        rfl
      · rw [onSent, Option.toList_none, List.append_nil]
    | begun | offered | chunk | received => exact ih s

/-- A turn of the transport in which the client sends nothing. -/
theorem Holding.after (h : s.Holding) {g : Given} {d : Data} (hm : Moves g s.m.data d) (hsends : d.sends = s.m.data.sends)
    (heap : Option (Nat → Byte)) (world : World) : (s.after (s.m.after heap world d)).Holding := by
  obtain ⟨hsorted, ns, hns, hback⟩ := moves_backed hm hsends h.sorted h.backed
  have hnew : d.notes.drop s.m.data.notes.length = ns := by rw [hns, List.drop_left]
  obtain ⟨hdata, hbusy⟩ := hooks_machine heap world ns { s.m with data := d }
  have hmachine : s.m.after heap world d = ns.foldl (Machine.hook heap world) { s.m with data := d } := by
    rw [Machine.after, hnew]
  have hdata' : (s.m.after heap world d).data = d := (congrArg Machine.data hmachine).trans hdata
  obtain ⟨hmSame, hhanded, hbuf, hfreed⟩ := hooks_buffer ns { s with m := s.m.after heap world d }
  unfold Sender.after
  rw [hdata', hnew]
  refine ⟨?_, ?_, ?_, ?_⟩
  · rw [hmSame, hdata']
    exact hsorted
  · rw [hmSame, hdata', hbuf]
    exact hback
  · rw [hmSame, hbuf, hmachine, hbusy]
    show (s.m.txBusy && !ns.any isSentNote) = (bufAfter s.txBuf ns).isSome
    rw [h.busy, bufAfter]
    cases ns.any isSentNote with
    | true => exact Bool.and_false _
    | false => exact Bool.and_true _
  · rw [hfreed, hhanded]
    exact h.freed

theorem Holding.sendOwned (h : s.Holding) (kind : UInt8) (name data : List Byte) (now : Time) :
    (s.sendOwned kind name data now).2.Holding := by
  have hmore {freed : List (List Byte)} (hfreed : freed.Perm s.handed) : (freed ++ [data]).Perm (s.handed ++ [data]) :=
    hfreed.append_right _
  have hmoves : CallMoves False none now s.m.data (dataSend s.m.data s.m.peer kind name data now).2 := send_moves _ _ _ _ _
  have hsorted := Machine.callMoves_sorted hmoves h.sorted
  unfold Sender.sendOwned
  dsimp only
  split
  · refine ⟨h.sorted, h.backed, h.busy, ?_⟩
    have hswap : (s.freed ++ [data] ++ s.txBuf.toList).Perm (s.freed ++ s.txBuf.toList ++ [data]) := by
      rw [List.append_assoc, List.append_assoc]
      exact List.perm_append_comm.append_left _
    exact hswap.trans (hmore h.freed)
  rename_i hidle
  have hnone : s.txBuf = none := by
    rw [h.busy] at hidle
    exact Option.not_isSome_iff_eq_none.mp hidle
  have hfreed : s.freed.Perm s.handed := by
    have hall := h.freed
    rwa [hnone, Option.toList_none, List.append_nil] at hall
  have hrest (i : Handle) : ¬ (s.m.data.s i).goesOut := fun hout => by
    have hbuf := h.backed.backs i hout
    rw [hnone] at hbuf
    cases hbuf
  have hcases := Watched.dataSend_cases s.m.data s.m.peer kind name data now
  generalize dataSend s.m.data s.m.peer kind name data now = r at hsorted hcases ⊢
  obtain ⟨res, d⟩ := r
  rcases hcases with ⟨e, rfl, hs, -⟩ | ⟨i, t, rfl, hs, -, hsrc, -, -, hstate, -⟩
  · refine ⟨hsorted, ⟨fun i hout => ?_, fun i _ hout => ?_, fun hne => absurd rfl hne⟩, rfl, ?_⟩
    · exact absurd (hs ▸ hout) (hrest i)
    · exact absurd (hs ▸ hout) (hrest i)
    · show (s.freed ++ [data] ++ []).Perm (s.handed ++ [data])
      rw [List.append_nil]
      exact hmore hfreed
  · have hself : d.s i = t := by rw [hs, Function.update_self]
    have honly (j : Handle) (hout : (d.s j).goesOut) : j = i := by
      by_contra hj
      rw [hs, Function.update_of_ne hj] at hout
      exact hrest j hout
    refine ⟨hsorted, ⟨fun j hout => ?_, fun j k hj hk => ?_, fun _ => ⟨i, ?_⟩⟩, rfl, ?_⟩
    · rw [honly j hout, hself, hsrc]
    · rw [honly j hj, honly k hk]
    · rw [hself]
      exact Or.inl hstate
    · exact hmore hfreed

/-- Of the client's machine, only the transport and the busy flag matter here. -/
theorem Holding.machine (h : s.Holding) {m : Machine} (hdata : m.data = s.m.data) (hbusy : m.txBusy = s.m.txBusy) :
    ({ s with m := m } : Sender).Holding :=
  ⟨hdata ▸ h.sorted, hdata ▸ h.backed, hbusy.trans h.busy, h.freed⟩

theorem sendOwned_machine (s : Sender) (kind : UInt8) (name data : List Byte) (now : Time) :
    (s.sendOwned kind name data now).2.m = (s.m.sendOwned kind name data now).2 := by
  unfold Sender.sendOwned Machine.sendOwned
  dsimp only
  split
  · rfl
  generalize dataSend s.m.data s.m.peer kind name data now = r
  obtain ⟨res, d⟩ := r
  cases res <;> rfl

/-- What the watch sends, it sends as the client does. -/
theorem sendWatched_sends (m : Machine) (next : Time) (clip : Inbound) (cur : List Byte) (now : Time) :
    let watched := ({ m with nextClipPoll := next, inbound := clip } : Machine).sendWatched cur now
    let sent := (m.sendOwned dataText Machine.clipboardName cur now).2
    watched.data = sent.data ∧ watched.txBusy = sent.txBusy := by
  dsimp only
  unfold Machine.sendWatched Machine.sendOwned
  dsimp only
  split
  · exact ⟨rfl, rfl⟩
  generalize dataSend m.data m.peer dataText Machine.clipboardName cur now = r
  obtain ⟨res, d⟩ := r
  cases res <;> exact ⟨rfl, rfl⟩

theorem Holding.poll (h : s.Holding) (malloc : Bool) (now : Time) : (s.poll malloc now).Holding := by
  unfold Sender.poll Machine.pollClipboard
  by_cases hoff : (!s.m.available || s.m.txBusy) = true
  · rw [if_pos hoff, Bool.or_eq_true_iff.mpr (Or.inl hoff), if_pos rfl]
    exact h
  rw [if_neg hoff, Bool.not_eq_true _ |>.mp hoff, Bool.false_or]
  by_cases hearly : (!timeAfter now s.m.nextClipPoll) = true
  · rw [if_pos hearly, if_pos hearly]
    exact h
  rw [if_neg hearly, if_neg hearly]
  have hget : ({ s.m with nextClipPoll := now + 500 } : Machine).clipboardGet = s.m.clipboardGet := by
    simp only [Machine.clipboardGet]
  dsimp only
  rw [hget]
  cases s.m.clipboardGet with
  | none => exact h.machine rfl rfl
  | some cur =>
    dsimp only
    split
    · exact h.machine rfl rfl
    · obtain ⟨hdata, hbusy⟩ := sendWatched_sends s.m (now + 500)
        { s.m.inbound with lastClip := if malloc then some cur else none } cur now
      have hmachine := s.sendOwned_machine dataText Machine.clipboardName cur now
      exact (h.sendOwned dataText Machine.clipboardName cur now).machine
        (hdata.trans (congrArg Machine.data hmachine.symm)) (hbusy.trans (congrArg Machine.txBusy hmachine.symm))

theorem Holding.step (h : s.Holding) (e : Event) : (s.step e).Holding := by
  cases e with
  | copy bytes => exact h.machine rfl rfl
  | poll malloc now => exact h.poll malloc now
  | send kind name data now => exact h.sendOwned kind name data now
  | aim peer => exact h.machine rfl rfl
  | rx f heap world now =>
    have hcalls (held : Option Handle) : Calls ⟨s.m.data, f.src, some f.payload, False, now⟩ held (s.m.answer heap now) :=
      s.m.answer_calls heap ⟨s.m.data, f.src, some f.payload, False, now⟩ id held
    exact h.after (g := ⟨s.m.data, f.src, some f.payload, False, now⟩)
      (dataRx_moves h.sorted rfl rfl (fun _ => hcalls none) fun i _ => hcalls (some i))
      (dataRx_sends _ _ f fun _ => answer_quiet now s.m heap) heap world
  | tick world now =>
    exact h.after (g := ⟨s.m.data, 0, none, False, now⟩) (dataTick_moves fun _ _ => .refl)
      (dataTick_sends _ now fun _ _ => rfl) none world

theorem Fresh.holding (h : s.Fresh) : s.Holding := by
  obtain ⟨⟨hs, -⟩, hbusy, hbuf, hhanded, hfreed⟩ := h
  have hzero (i : Handle) : s.m.data.s i = .zero := by rw [hs]; rfl
  refine ⟨fun i => hzero i ▸ sided_zero i, ⟨fun i hout => ?_, fun i _ hout => ?_, fun hne => absurd hbuf hne⟩, ?_, ?_⟩
  · exact absurd (hzero i ▸ hout) not_goesOut_zero
  · exact absurd (hzero i ▸ hout) not_goesOut_zero
  · rw [hbusy, hbuf]
    rfl
  · rw [hfreed, hbuf, hhanded]
    exact .refl _

/-- Whatever arrives and whatever is sent, a stream that goes out is the only one, and its
    bytes are those of the buffer held; a buffer is held exactly while one goes out, which is
    while the client is busy; and each buffer handed over is held or has been freed, once. -/
theorem sends_from_its_buffer (h : Reach Fresh (fun _ _ => True) step s) :
    (∀ i, (s.m.data.s i).goesOut → s.txBuf = some (s.m.data.s i).src ∧ ∀ j, (s.m.data.s j).goesOut → j = i) ∧
    (s.m.txBusy = true ↔ ∃ i, (s.m.data.s i).goesOut) ∧ (s.m.txBusy = true ↔ s.txBuf ≠ none) ∧
    (s.freed ++ s.txBuf.toList).Perm s.handed := by
  have hs : s.Holding := h.inv (fun _ h0 => h0.holding) fun _ e hs _ => hs.step e
  have hbuf : s.m.txBusy = true ↔ s.txBuf ≠ none := by
    rw [hs.busy]
    exact Option.isSome_iff_ne_none
  refine ⟨fun i hi => ⟨hs.backed.backs i hi, fun j hj => hs.backed.one j i hj hi⟩, ?_, hbuf, hs.freed⟩
  rw [hbuf]
  refine ⟨hs.backed.held, ?_⟩
  rintro ⟨i, hi⟩
  rw [hs.backed.backs i hi]
  exact Option.some_ne_none _

/-- A text copied and sent, a second send that finds the client busy, and the peer's refusal of the first. -/
def refusedThenSent : List Event :=
  [.copy [104, 105], .poll true 1000, .send dataFile [102] [1, 2, 3] 1001,
    .rx (dataFrame 2 1 [opReject, 1, dataRefused]) none ⟨true, true, fun _ => .opened⟩ 1002, .send dataFile [102] [4, 5] 1003]

def sampleSender : Sender := ⟨sampleMachine 2, none, [], []⟩

theorem sends_from_its_buffer_of_refused :
    let s := refusedThenSent.foldl step sampleSender
    s.txBuf = some [4, 5] ∧ s.freed = [[1, 2, 3], [104, 105]] ∧ (s.freed ++ s.txBuf.toList).Perm s.handed := by
  have h : Reach Fresh (fun _ _ => True) step (refusedThenSent.foldl step sampleSender) :=
    (Reach.init (s := sampleSender) ⟨⟨rfl, rfl, rfl, rfl, rfl⟩, rfl, rfl, rfl, rfl⟩).run_free (fun _ _ => trivial) _
  exact ⟨by decide +kernel, by decide +kernel, (sends_from_its_buffer h).2.2.2⟩

end Sender

end DeskHop.Client
