/-
  DeskHop.Bulk.Later — the bulk transport, by a clock that is later by a constant.

  When a stream in use was last heard is always known; when it last spoke is looked at
  while it sends or receives, and accepting or opening it has set that (`Data.Later`). The
  application may call the transport from inside a hook, at a time of its own (`Plan`).
-/

import DeskHop.Bulk.Data
import DeskHop.Core.Later
import DeskHop.Lib.Outputs

namespace DeskHop.Bulk

open DeskHop.Wire DeskHop.Lib

/-! ## Streams -/

/-- `t` is `s`, and while it is in use, it was heard later by `c`. -/
def StreamHeard (c : Time) (s t : Stream) : Prop :=
  ∃ rx tx, t = { s with lastRx := rx, lastTx := tx } ∧ (s.state ≠ .free → rx = s.lastRx + c)

/-- And it spoke later by `c`, if it sends or receives. -/
def StreamLater (c : Time) (s t : Stream) : Prop :=
  ∃ rx tx, t = { s with lastRx := rx, lastTx := tx } ∧ (s.state ≠ .free → rx = s.lastRx + c) ∧
    (s.state ≠ .free → s.outbound = true ∨ s.state = .receiving → tx = s.lastTx + c)

variable {c : Time}

theorem streamLater_zero : StreamLater c .zero .zero :=
  ⟨0, 0, rfl, fun h => absurd rfl h, fun h => absurd rfl h⟩

namespace StreamLater

variable {s t : Stream}

theorem heard (h : StreamLater c s t) : StreamHeard c s t := by
  obtain ⟨rx, tx, rfl, hrx, -⟩ := h
  exact ⟨rx, tx, rfl, hrx⟩

theorem state (h : StreamLater c s t) : t.state = s.state := by
  obtain ⟨rx, tx, rfl, -⟩ := h
  rfl

theorem takeWindow (h : StreamLater c s t) (p : List Byte) (k : Nat) : StreamLater c (s.takeWindow p k) (t.takeWindow p k) := by
  obtain ⟨rx, tx, rfl, hrx, htx⟩ := h
  exact ite_twin Iff.rfl (fun _ => ⟨rx, tx, rfl, hrx, htx⟩) (fun _ => ⟨rx, tx, rfl, hrx, htx⟩)

theorem progress (h : StreamLater c s t) (next : UInt16) : StreamLater c (s.progress next) (t.progress next) := by
  obtain ⟨rx, tx, rfl, hrx, htx⟩ := h
  exact ite_twin Iff.rfl (fun _ => ⟨rx, tx, rfl, hrx, htx⟩) (fun _ => ⟨rx, tx, rfl, hrx, htx⟩)

/-- A stream in use goes on sending. -/
theorem sendOn (h : StreamLater c s t) (hs : s.state ≠ .free) {st : StreamState} (hst : st ≠ .receiving) :
    StreamLater c { s with state := st } { t with state := st } := by
  obtain ⟨rx, tx, rfl, hrx, htx⟩ := h
  refine ⟨rx, tx, rfl, fun _ => hrx hs, fun _ hout => htx hs (Or.inl ?_)⟩
  rcases hout with hout | hrec
  · exact hout
  · exact absurd hrec hst

end StreamLater

/-! ## The table -/

namespace Data

/-- `e` is `d`, and every time that may be looked at is later by `c`. -/
def Later (c : Time) (d e : Data) : Prop := ∃ S, e = { d with s := S } ∧ ∀ i, StreamLater c (d.s i) (S i)

/-- But that what slot `i` last said is yet to come. -/
def LaterBut (i : Handle) (c : Time) (d e : Data) : Prop :=
  ∃ S, e = { d with s := S } ∧ (∀ j, j ≠ i → StreamLater c (d.s j) (S j)) ∧ StreamHeard c (d.s i) (S i)

variable {d e : Data} {i : Handle}

theorem Later.slot (h : Later c d e) (i : Handle) : StreamLater c (d.s i) (e.s i) := by
  obtain ⟨S, rfl, hS⟩ := h
  exact hS i

theorem Later.but (h : Later c d e) (i : Handle) : LaterBut i c d e := by
  obtain ⟨S, rfl, hS⟩ := h
  exact ⟨S, rfl, fun j _ => hS j, (hS i).heard⟩

theorem Later.note (h : Later c d e) (n : Note) : Later c (d.note n) (e.note n) := by
  obtain ⟨S, rfl, hS⟩ := h
  exact ⟨S, rfl, hS⟩

theorem Later.emit (h : Later c d e) (peer : Addr) (id : UInt8) (op : Byte) (extra : List Byte) :
    Later c (d.emit peer id op extra) (e.emit peer id op extra) := by
  obtain ⟨S, rfl, hS⟩ := h
  exact ⟨S, rfl, hS⟩

theorem Later.upd (h : Later c d e) {f g : Stream → Stream} (hf : StreamLater c (f (d.s i)) (g (e.s i))) :
    Later c (d.upd i f) (e.upd i g) := by
  obtain ⟨S, rfl, hS⟩ := h
  refine ⟨_, rfl, fun j => ?_⟩
  by_cases hj : j = i
  · subst hj
    rw [upd_self, Function.update_self]
    exact hf
  · rw [upd_ne _ _ _ hj, Function.update_of_ne hj]
    exact hS j

theorem Later.updBut (h : Later c d e) {f g : Stream → Stream} (hf : StreamHeard c (f (d.s i)) (g (e.s i))) :
    LaterBut i c (d.upd i f) (e.upd i g) := by
  obtain ⟨S, rfl, hS⟩ := h
  refine ⟨_, rfl, fun j hj => ?_, ?_⟩
  · rw [upd_ne _ _ _ hj, Function.update_of_ne hj]
    exact hS j
  · rw [upd_self, Function.update_self]
    exact hf

theorem LaterBut.sendOp (h : LaterBut i c d e) (op : Byte) (extra : List Byte) (now : Time) :
    Later c (d.sendOp i op extra now) (e.sendOp i op extra (now + c)) := by
  obtain ⟨S, rfl, hS, rx, tx, hi, hrx⟩ := h
  have hout : ({ d with s := S } : Data).sendOp i op extra (now + c) =
      { d.sendOp i op extra now with s := Function.update S i { S i with lastTx := now + c } } := by
    have hp : (S i).peer = (d.s i).peer := by rw [hi]
    have hid : (S i).id = (d.s i).id := by rw [hi]
    simp only [Data.sendOp, Data.emit, Data.upd, hp, hid]
  refine ⟨_, hout, fun j => ?_⟩
  by_cases hj : j = i
  · subst hj
    rw [sendOp_self, Function.update_self, hi]
    exact ⟨rx, now + c, rfl, hrx, fun _ _ => rfl⟩
  · rw [sendOp_ne _ _ _ _ _ hj, Function.update_of_ne hj]
    exact hS j hj

theorem Later.sendOp (h : Later c d e) (i : Handle) (op : Byte) (extra : List Byte) (now : Time) :
    Later c (d.sendOp i op extra now) (e.sendOp i op extra (now + c)) := (h.but i).sendOp op extra now

theorem Later.slotFree (h : Later c d e) (outbound : Bool) : e.slotFree outbound = d.slotFree outbound := by
  have hfree : (fun i => (e.s i).state == .free) = fun i => (d.s i).state == .free :=
    funext fun i => by rw [(h.slot i).state]
  unfold Data.slotFree
  rw [hfree]

theorem Later.slotFind (h : Later c d e) (peer : Addr) (id : UInt8) (outbound : Bool) :
    e.slotFind peer id outbound = d.slotFind peer id outbound := by
  have hfound : (fun i => (e.s i).state != .free && (e.s i).id == id && (e.s i).peer == peer) =
      fun i => (d.s i).state != .free && (d.s i).id == id && (d.s i).peer == peer := by
    funext i
    obtain ⟨rx, tx, hi, -⟩ := h.slot i
    rw [hi]
  unfold Data.slotFind
  rw [hfound]

theorem Later.byHandle (h : Later c d e) (stream : UInt8) : e.byHandle stream = d.byHandle stream := by
  unfold Data.byHandle
  split
  · rw [(h.slot _).state]
  · rfl

theorem Later.addressee (h : Later c d e) (peer : Addr) (id : UInt8) (op : Byte) :
    e.addressee peer id op = d.addressee peer id op := by
  unfold Data.addressee
  rw [h.slotFind, h.slotFind]

/-- Two applications that do the same, by the two clocks. -/
def Alike (c : Time) (app app' : App) : Prop := ∀ d e, Later c d e → Later c (app d) (app' e)

theorem Later.finish (h : Later c d e) (i : Handle) (result : Byte) {app app' : App} (happ : Alike c app app') :
    Later c (d.finish i result app) (e.finish i result app') := by
  have hout : (e.s i).outbound = (d.s i).outbound := by
    obtain ⟨rx, tx, hi, -⟩ := h.slot i
    rw [hi]
  have hzero : Later c (d.upd i fun _ => .zero) (e.upd i fun _ => .zero) := h.upd streamLater_zero
  obtain ⟨S, he, hS⟩ := hzero
  unfold Data.finish
  rw [hout, he]
  refine ite_twin Iff.rfl (fun _ => happ _ _ ?_) (fun _ => happ _ _ ?_)
  · exact ⟨S, rfl, hS⟩
  · exact ⟨S, rfl, hS⟩

/-! ## Sending -/

theorem Later.send (h : Later c d e) (peer : Addr) (kind : UInt8) (name data : List Byte) (now : Time) :
    (dataSend e peer kind name data (now + c)).1 = (dataSend d peer kind name data now).1 ∧
      Later c (dataSend d peer kind name data now).2 (dataSend e peer kind name data (now + c)).2 := by
  have hsends : Later c { d with sends := d.sends + 1 } { e with sends := e.sends + 1 } := by
    obtain ⟨S, rfl, hS⟩ := h
    exact ⟨S, rfl, hS⟩
  have hfree := hsends.slotFree true
  unfold dataSend
  by_cases hlen : data.length = 0
  · simp only [if_pos hlen]
    exact ⟨trivial, hsends⟩
  simp only [if_neg hlen]
  rw [hfree]
  generalize ({ d with sends := d.sends + 1 } : Data) = d at hsends
  generalize ({ e with sends := e.sends + 1 } : Data) = e at hsends
  cases d.slotFree true with
  | none => exact ⟨rfl, hsends⟩
  | some i =>
    have hopened : StreamHeard c (outboundStream d peer kind name data now) (outboundStream e peer kind name data (now + c)) := by
      obtain ⟨S, rfl, -⟩ := hsends
      exact ⟨now + c, 0, rfl, fun _ => rfl⟩
    have hput : LaterBut i c (d.upd i fun _ => outboundStream d peer kind name data now)
        (e.upd i fun _ => outboundStream e peer kind name data (now + c)) := hsends.updBut hopened
    obtain ⟨S, rfl, hS⟩ := hsends
    refine ⟨rfl, ?_⟩
    obtain ⟨S', he, hS'⟩ := hput
    dsimp only
    rw [he]
    refine LaterBut.sendOp ?_ opOffer _ now
    exact ⟨S', rfl, hS'⟩

theorem Later.chunk (h : Later c d e) (i : Handle) (now : Time) : Later c (sendChunk d i now) (sendChunk e i (now + c)) := by
  have hsame : put16 (e.s i).nextSeq ++ piece (e.s i).src (e.s i).nextSeq =
      put16 (d.s i).nextSeq ++ piece (d.s i).src (d.s i).nextSeq := by
    obtain ⟨rx, tx, hi, -⟩ := h.slot i
    rw [hi]
  unfold sendChunk
  rw [hsame]
  have hsent := h.sendOp i opChunk (put16 (d.s i).nextSeq ++ piece (d.s i).src (d.s i).nextSeq) now
  refine hsent.upd ?_
  obtain ⟨rx, tx, hi, hrx, htx⟩ := hsent.slot i
  rw [hi]
  exact ⟨rx, tx, rfl, hrx, htx⟩

theorem Later.pumpLoop (h : Later c d e) (total : UInt16) (i : Handle) (now : Time) (n : Nat) :
    Later c (pumpLoop total i now n d) (pumpLoop total i (now + c) n e) := by
  induction n generalizing d e with
  | zero => exact h
  | succ n ih =>
    refine ite_twin ?_ (fun _ => ih (h.chunk i now)) (fun _ => h)
    obtain ⟨rx, tx, hi, -⟩ := h.slot i
    rw [hi]

theorem Later.pump (h : Later c d e) (i : Handle) (now : Time) : Later c (pumpSender d i now) (pumpSender e i (now + c)) := by
  have hrest : chunksFor (e.s i).total = chunksFor (d.s i).total ∧ (e.s i).nextSeq = (d.s i).nextSeq := by
    obtain ⟨rx, tx, hi, -⟩ := h.slot i
    rw [hi]
    exact ⟨rfl, rfl⟩
  unfold pumpSender
  rw [hrest.1, hrest.2]
  have hloop := h.pumpLoop (chunksFor (d.s i).total) i now ((chunksFor (d.s i).total).toNat - (d.s i).nextSeq.toNat)
  refine ite_twin ?_ (fun hs => hloop.upd ?_) (fun _ => hloop)
  · obtain ⟨rx, tx, hi, -⟩ := hloop.slot i
    rw [hi]
  · exact (hloop.slot i).sendOn (by rw [hs.2]; decide) (by decide)

/-! ## The application's calls -/

theorem Later.accept (h : Later c d e) (stream : UInt8) (now : Time) :
    Later c (dataAccept d stream now) (dataAccept e stream (now + c)) := by
  unfold dataAccept
  rw [h.byHandle]
  cases d.byHandle stream with
  | none => exact h
  | some i =>
    refine ite_twin (by rw [(h.slot i).state]) (fun _ => h) (fun hs => ?_)
    have hwindow : e.window = d.window := by
      obtain ⟨S, rfl, -⟩ := h
      rfl
    rw [hwindow]
    refine LaterBut.sendOp (h.updBut ?_) opAccept [d.window] now
    obtain ⟨rx, tx, hi, -, -⟩ := h.slot i
    rw [hi]
    exact ⟨now + c, tx, rfl, fun _ => rfl⟩

theorem Later.reject (h : Later c d e) (stream : UInt8) (now : Time) :
    Later c (dataReject d stream now) (dataReject e stream (now + c)) := by
  unfold dataReject
  rw [h.byHandle]
  cases d.byHandle stream with
  | none => exact h
  | some i =>
    refine ite_twin (by rw [(h.slot i).state]) (fun _ => h) (fun _ => ?_)
    refine Later.upd ?_ streamLater_zero
    obtain ⟨S, he, hS⟩ := h.sendOp i opReject [dataRefused] now
    rw [he]
    exact ⟨S, rfl, hS⟩

theorem Later.cancel (h : Later c d e) (stream : UInt8) (now : Time) {app app' : App} (happ : Alike c app app') :
    Later c (dataCancel d stream now app) (dataCancel e stream (now + c) app') := by
  unfold dataCancel
  rw [h.byHandle]
  cases d.byHandle stream with
  | none => exact h
  | some i => exact (h.sendOp i opAbort [dataCancelled] now).finish i dataCancelled happ

/-! ## Receiving -/

theorem Later.ack (h : Later c d e) (i : Handle) (now : Time) : Later c (sendAck d i now) (sendAck e i (now + c)) := by
  have hsame : put16 (e.s i).nextSeq ++ [(e.s i).window] = put16 (d.s i).nextSeq ++ [(d.s i).window] := by
    obtain ⟨rx, tx, hi, -⟩ := h.slot i
    rw [hi]
  unfold sendAck
  rw [hsame]
  exact h.sendOp i opAck _ now

theorem Later.offer (h : Later c d e) (peer : Addr) (id : UInt8) (p : List Byte) (now : Time) {app app' : App}
    (happ : Alike c app app') : Later c (rxOffer d peer id p now app) (rxOffer e peer id p (now + c) app') := by
  refine ite_twin Iff.rfl (fun _ => h) (fun _ => ?_)
  rw [h.slotFind]
  cases d.slotFind peer id false with
  | some i => exact ite_twin (by rw [(h.slot i).state]) (fun _ => h.ack i now) (fun _ => h)
  | none =>
    dsimp only
    rw [h.slotFree]
    cases d.slotFree false with
    | none => exact h.emit peer id opReject [dataNoStream]
    | some i =>
      have hwindow : e.window = d.window ∧ e.maxInbound = d.maxInbound := by
        obtain ⟨S, rfl, -⟩ := h
        exact ⟨rfl, rfl⟩
      have hopened : StreamLater c (inboundStream d peer id p now) (inboundStream e peer id p (now + c)) := by
        unfold inboundStream
        rw [hwindow.1]
        refine ⟨now + c, 0, rfl, fun _ => rfl, fun _ hout => ?_⟩
        rcases hout with hout | hrec
        · cases hout
        · cases hrec
      have hput : Later c (d.upd i fun _ => inboundStream d peer id p now)
          (e.upd i fun _ => inboundStream e peer id p (now + c)) := h.upd hopened
      refine ite_twin ?_ (fun _ => (hput.sendOp i opReject [dataTooBig] now).upd streamLater_zero) (fun _ => ?_)
      · show ((inboundStream e peer id p (now + c)).total = 0 || (inboundStream e peer id p (now + c)).total > e.maxInbound :
          Bool) = true ↔ _
        rw [hwindow.2]
        exact Iff.rfl
      · exact happ _ _ (hput.note _)

theorem Later.afterChunk (h : Later c d e) (i : Handle) (now : Time) {app app' : App} (happ : Alike c app app') :
    Later c (afterChunk d i now app) (afterChunk e i (now + c) app') := by
  have hcounted : Later c (d.upd i fun s => { s with nextSeq := s.nextSeq + 1, acked := s.nextSeq + 1 })
      (e.upd i fun s => { s with nextSeq := s.nextSeq + 1, acked := s.nextSeq + 1 }) := by
    refine h.upd ?_
    obtain ⟨rx, tx, hi, hrx, htx⟩ := h.slot i
    rw [hi]
    exact ⟨rx, tx, rfl, hrx, htx⟩
  unfold Bulk.afterChunk
  generalize d.upd i _ = d at hcounted
  generalize e.upd i _ = e at hcounted
  obtain ⟨rx, tx, hi, -⟩ := hcounted.slot i
  dsimp only
  rw [hi]
  refine ite_twin Iff.rfl (fun _ => ?_) (fun _ => ?_)
  · exact (hcounted.sendOp i opDone _ now).finish i _ happ
  · exact ite_twin Iff.rfl (fun _ => hcounted.ack i now) (fun _ => hcounted)

theorem Later.rxChunk (h : Later c d e) (i : Handle) (p : List Byte) (now : Time) {app app' : Fin 2 → App}
    (happ : ∀ k, Alike c (app k) (app' k)) : Later c (rxChunk d i p now app) (rxChunk e i p (now + c) app') := by
  refine ite_twin (by rw [(h.slot i).state]) (fun _ => h) (fun hs => ?_)
  have hrec : (d.s i).state = .receiving := by
    by_contra hne
    exact hs (by simp [hne])
  have hheard : Later c (d.upd i fun s => { s with lastRx := now }) (e.upd i fun s => { s with lastRx := now + c }) := by
    refine h.upd ?_
    obtain ⟨rx, tx, hi, -, htx⟩ := h.slot i
    rw [hi]
    exact ⟨now + c, tx, rfl, fun _ => rfl, htx⟩
  have hrec : ((d.upd i fun s => { s with lastRx := now }).s i).state = .receiving := by rwa [upd_self]
  dsimp only
  generalize d.upd i _ = d at hheard hrec
  generalize e.upd i _ = e at hheard
  obtain ⟨rx, tx, hi, hrx, htx⟩ := hheard.slot i
  refine ite_twin (by rw [hi]) (fun _ => ?_) (fun _ => ?_)
  · -- out of order: it spoke when it accepted, or since
    refine ite_twin ?_ (fun _ => hheard.ack i now) (fun _ => hheard)
    rw [hi, htx (by rw [hrec]; decide) (Or.inr hrec)]
    dsimp only
    rw [timeAfter_add]
  refine ite_twin (by rw [hi]) (fun _ => ?_) (fun _ => ?_)
  · exact (hheard.sendOp i opAbort [dataCorrupt] now).finish i dataCorrupt (happ 0)
  · refine Later.afterChunk (happ 0 _ _ (Later.note (hheard.upd ?_) _)) i now (happ 1)
    rw [hi]
    exact ⟨rx, tx, rfl, hrx, htx⟩

/-- A stream in use takes the window it is given and goes on. -/
theorem Later.resume (h : Later c d e) {i : Handle} (hs : (d.s i).state ≠ .free) (p : List Byte) (k : Nat) (now : Time) :
    Later c (pumpSender ((d.upd i (Stream.takeWindow p k)).upd i Stream.resume) i now)
      (pumpSender ((e.upd i (Stream.takeWindow p k)).upd i Stream.resume) i (now + c)) := by
  have hwindow := h.upd ((h.slot i).takeWindow p k)
  refine (hwindow.upd ((hwindow.slot i).sendOn ?_ (by decide))).pump i now
  have hkept : ((d.s i).takeWindow p k).state = (d.s i).state := by
    unfold Stream.takeWindow
    split <;> rfl
  rw [upd_self, hkept]
  exact hs

theorem Later.rxAck (h : Later c d e) (i : Handle) (p : List Byte) (now : Time) :
    Later c (rxAck d i p now) (rxAck e i p (now + c)) := by
  refine ite_twin (by rw [(h.slot i).state]) (fun hs => ?_) (fun _ => h)
  have hstate : ((d.upd i (Stream.progress (get16 p 0))).s i).state ≠ .free := by
    have hkept : ∀ s : Stream, (s.progress (get16 p 0)).state = s.state := fun s => by
      unfold Stream.progress
      split <;> rfl
    rw [upd_self, hkept]
    rcases hs.2 with hs | hs <;> rw [hs] <;> decide
  have hacked : Later c (d.upd i (Stream.progress (get16 p 0))) (e.upd i (Stream.progress (get16 p 0))) :=
    h.upd ((h.slot i).progress _)
  dsimp only
  generalize d.upd i (Stream.progress (get16 p 0)) = d at hacked hstate
  generalize e.upd i (Stream.progress (get16 p 0)) = e at hacked
  refine Later.resume (ite_twin ?_ (fun _ => ?_) (fun _ => hacked)) ?_ p 2 now
  · obtain ⟨rx, tx, hi, -⟩ := hacked.slot i
    rw [hi]
  · have hcounted : Later c { d with nRetransmits := d.nRetransmits + 1 } { e with nRetransmits := e.nRetransmits + 1 } := by
      obtain ⟨S, rfl, hS⟩ := hacked
      exact ⟨S, rfl, hS⟩
    refine hcounted.upd ?_
    obtain ⟨rx, tx, hi, hrx, htx⟩ := hcounted.slot i
    rw [hi]
    exact ⟨rx, tx, rfl, hrx, htx⟩
  · split
    · rw [upd_self]
      exact hstate
    · exact hstate

theorem Later.rxAccept (h : Later c d e) (i : Handle) (p : List Byte) (now : Time) :
    Later c (rxAccept d i p now) (rxAccept e i p (now + c)) := by
  refine ite_twin (by rw [(h.slot i).state]) (fun hs => h.resume ?_ p 0 now) (fun _ => h)
  rw [hs]
  decide

theorem Later.rxStream (h : Later c d e) (i : Handle) (op : Byte) (p : List Byte) (now : Time) {app app' : Fin 2 → App}
    (happ : ∀ k, Alike c (app k) (app' k)) : Later c (rxStream d i op p now app) (rxStream e i op p (now + c) app') := by
  have hheard : Later c (d.upd i fun s => { s with lastRx := now, retries := 0 })
      (e.upd i fun s => { s with lastRx := now + c, retries := 0 }) := by
    refine h.upd ?_
    obtain ⟨rx, tx, hi, -, htx⟩ := h.slot i
    rw [hi]
    exact ⟨now + c, tx, rfl, fun _ => rfl, htx⟩
  refine ite_twin Iff.rfl (fun _ => hheard.rxAccept i p now) (fun _ => ?_)
  refine ite_twin Iff.rfl (fun _ => hheard.finish i _ (happ 0)) (fun _ => ?_)
  refine ite_twin Iff.rfl (fun _ => hheard.rxChunk i p now happ) (fun _ => ?_)
  refine ite_twin Iff.rfl (fun _ => hheard.rxAck i p now) (fun _ => ?_)
  refine ite_twin Iff.rfl (fun _ => hheard.finish i _ (happ 0)) (fun _ => ?_)
  exact ite_twin Iff.rfl (fun _ => hheard.finish i _ (happ 0)) (fun _ => hheard)

theorem Later.rx (h : Later c d e) (f : Frame) (now : Time) {app app' : Fin 2 → App} (happ : ∀ k, Alike c (app k) (app' k)) :
    Later c (dataRx d f now app) (dataRx e f (now + c) app') := by
  refine ite_twin Iff.rfl (fun _ => h) (fun _ => ?_)
  refine ite_twin Iff.rfl (fun _ => h.offer _ _ _ now (happ 0)) (fun _ => ?_)
  rw [h.addressee]
  cases d.addressee f.src (byteAt f.payload 1) (byteAt f.payload 0) with
  | none => exact h
  | some i => exact h.rxStream i _ _ now happ

/-! ## Time -/

theorem Later.resend (h : Later c d e) (i : Handle) (now : Time) : Later c (resend d i now) (resend e i (now + c)) := by
  have hoffer : offerExtra (e.s i) = offerExtra (d.s i) := by
    obtain ⟨rx, tx, hi, -⟩ := h.slot i
    rw [hi]
    rfl
  have hrestart : (d.s i).state ≠ .free →
      Later c (pumpSender { d.upd i Stream.restart with nRetransmits := d.nRetransmits + 1 } i now)
        (pumpSender { e.upd i Stream.restart with nRetransmits := e.nRetransmits + 1 } i (now + c)) := by
    intro hs
    have hupd : Later c (d.upd i Stream.restart) (e.upd i Stream.restart) := by
      refine h.upd ?_
      obtain ⟨rx, tx, hi, hrx, htx⟩ := h.slot i
      rw [hi]
      refine ⟨rx, tx, rfl, fun _ => hrx hs, fun _ hout => htx hs (Or.inl ?_)⟩
      rcases hout with hout | hrec
      · exact hout
      · cases hrec
    refine Later.pump ?_ i now
    have hcount : e.nRetransmits = d.nRetransmits := by
      obtain ⟨S, rfl, -⟩ := h
      rfl
    obtain ⟨S, he, hS⟩ := hupd
    rw [he, hcount]
    exact ⟨S, rfl, hS⟩
  unfold Bulk.resend
  rw [(h.slot i).state, hoffer]
  cases hs : (d.s i).state with
  | offering => exact h.sendOp i opOffer _ now
  | sending => exact hrestart (by rw [hs]; decide)
  | draining => exact hrestart (by rw [hs]; decide)
  | free => exact h
  | offered => exact h
  | receiving => exact h

theorem Later.tickSlot (h : Later c d e) (now : Time) {app app' : Handle → App} (happ : ∀ i, Alike c (app i) (app' i))
    (i : Handle) : Later c (tickSlot now app d i) (tickSlot (now + c) app' e i) := by
  have hcfg : e.idleTimeoutMs = d.idleTimeoutMs ∧ e.patience = d.patience ∧ e.budget = d.budget := by
    obtain ⟨S, rfl, -⟩ := h
    exact ⟨rfl, rfl, rfl⟩
  obtain ⟨rx, tx, hi, hrx, htx⟩ := h.slot i
  refine ite_twin (by rw [hi]) (fun _ => h) (fun hs => ?_)
  refine ite_twin ?_ (fun _ => h.finish i dataTimeout (happ i)) (fun _ => ?_)
  · rw [hi, hrx hs, hcfg.1]
    dsimp only
    rw [timeAfter_add]
  refine ite_twin (by rw [hi]) (fun _ => h) (fun hout => ?_)
  have hout : (d.s i).outbound = true := by simpa using hout
  have hpatience : e.patience (e.s i) = d.patience (d.s i) := by
    rw [hcfg.2.1, hi]
    rfl
  have hbudget : e.budget (e.s i) = d.budget (d.s i) := by
    rw [hcfg.2.2, hi]
    rfl
  refine ite_twin ?_ (fun _ => h) (fun _ => ?_)
  · rw [hpatience, hi, htx hs (Or.inl hout)]
    dsimp only
    rw [timeAfter_add]
  have hcounted : Later c (d.upd i fun s => { s with retries := s.retries + 1 })
      (e.upd i fun s => { s with retries := s.retries + 1 }) := by
    refine h.upd ?_
    rw [hi]
    exact ⟨rx, tx, rfl, hrx, htx⟩
  refine ite_twin ?_ (fun _ => (hcounted.sendOp i opAbort [dataTimeout] now).finish i dataTimeout (happ i))
    (fun _ => hcounted.resend i now)
  rw [hbudget, upd_self, upd_self, hi]

theorem Later.tick (h : Later c d e) (now : Time) {app app' : Handle → App} (happ : ∀ i, Alike c (app i) (app' i)) :
    Later c (dataTick d now app) (dataTick e (now + c) app') := by
  unfold dataTick
  induction List.finRange 8 generalizing d e with
  | nil => exact h
  | cons i rest ih => exact ih (h.tickSlot now happ i)

end Data

/-! ## Runs -/

/-- What an application does inside a hook, and inside the hooks that fires: calls one
    after another, each at a time of its own. -/
inductive Plan where
  | done
  | accept (stream : UInt8) (now : Time) (rest : Plan)
  | reject (stream : UInt8) (now : Time) (rest : Plan)
  | cancel (stream : UInt8) (now : Time) (inner rest : Plan)
  /-- And goes on as the answer tells it to. -/
  | send (peer : Addr) (kind : UInt8) (name data : List Byte) (now : Time) (rest : Except Byte Handle → Plan)
  | rx (f : Frame) (now : Time) (inner : Fin 2 → Plan) (rest : Plan)
  | tick (now : Time) (inner : Handle → Plan) (rest : Plan)

namespace Plan

def run : Plan → App
  | .done => id
  | .accept stream now rest => fun d => rest.run (dataAccept d stream now)
  | .reject stream now rest => fun d => rest.run (dataReject d stream now)
  | .cancel stream now inner rest => fun d => rest.run (dataCancel d stream now inner.run)
  | .send peer kind name data now rest => fun d =>
    let (r, d) := dataSend d peer kind name data now
    (rest r).run d
  | .rx f now inner rest => fun d => rest.run (dataRx d f now fun k => (inner k).run)
  | .tick now inner rest => fun d => rest.run (dataTick d now fun i => (inner i).run)

def later (c : Time) : Plan → Plan
  | .done => .done
  | .accept stream now rest => .accept stream (now + c) (rest.later c)
  | .reject stream now rest => .reject stream (now + c) (rest.later c)
  | .cancel stream now inner rest => .cancel stream (now + c) (inner.later c) (rest.later c)
  | .send peer kind name data now rest => .send peer kind name data (now + c) fun r => (rest r).later c
  | .rx f now inner rest => .rx f (now + c) (fun k => (inner k).later c) (rest.later c)
  | .tick now inner rest => .tick (now + c) (fun i => (inner i).later c) (rest.later c)

theorem run_later (c : Time) (p : Plan) : Data.Alike c p.run (p.later c).run := by
  induction p with
  | done => exact fun d e h => h
  | accept stream now rest ih => exact fun d e h => ih _ _ (h.accept stream now)
  | reject stream now rest ih => exact fun d e h => ih _ _ (h.reject stream now)
  | cancel stream now inner rest ihi ih => exact fun d e h => ih _ _ (h.cancel stream now ihi)
  | send peer kind name data now rest ih =>
    intro d e h
    obtain ⟨hanswer, hkept⟩ := h.send peer kind name data now
    have hrest := ih (dataSend d peer kind name data now).1 _ _ hkept
    rw [← hanswer] at hrest
    show Data.Later c ((rest (dataSend d peer kind name data now).1).run (dataSend d peer kind name data now).2)
      (((rest (dataSend e peer kind name data (now + c)).1).later c).run (dataSend e peer kind name data (now + c)).2)
    rwa [hanswer] at hrest ⊢
  | rx f now inner rest ihi ih => exact fun d e h => ih _ _ (h.rx f now ihi)
  | tick now inner rest ihi ih => exact fun d e h => ih _ _ (h.tick now ihi)

end Plan

/-- How many streams are doing anything. -/
def dataActive (d : Data) : UInt8 := UInt8.ofNat ((List.finRange 8).countP fun i => (d.s i).state != .free)

/-- A call from outside, with what the application does in the hooks it fires. -/
inductive DataOp where
  | send (peer : Addr) (kind : UInt8) (name data : List Byte) (now : Time)
  | accept (stream : UInt8) (now : Time)
  | reject (stream : UInt8) (now : Time)
  | cancel (stream : UInt8) (now : Time) (inner : Plan)
  | rx (f : Frame) (now : Time) (inner : Fin 2 → Plan)
  | tick (now : Time) (inner : Handle → Plan)
  | active
  /-- The settings, which are the caller's to change. -/
  | configure (window : UInt8) (ackTimeoutMs offerTimeoutMs : UInt16) (offerRetries : UInt8) (idleTimeoutMs : UInt16)
    (maxRetries : UInt8) (maxInbound : UInt32)

def DataOp.later (c : Time) : DataOp → DataOp
  | .send peer kind name data now => .send peer kind name data (now + c)
  | .accept stream now => .accept stream (now + c)
  | .reject stream now => .reject stream (now + c)
  | .cancel stream now inner => .cancel stream (now + c) (inner.later c)
  | .rx f now inner => .rx f (now + c) fun k => (inner k).later c
  | .tick now inner => .tick (now + c) fun i => (inner i).later c
  | o => o

/-- What an operation returns. -/
inductive DataReply where
  | nothing
  | handle (r : Except Byte Handle)
  | count (n : UInt8)

namespace Data

/-- All of it but the times; what was sent, and the hooks called, among it. -/
def untimed (d : Data) : Data := { d with s := fun i => { d.s i with lastRx := 0, lastTx := 0 } }

def perform (d : Data) : DataOp → Data × DataReply
  | .send peer kind name data now =>
    ((dataSend d peer kind name data now).2, .handle (dataSend d peer kind name data now).1)
  | .accept stream now => (dataAccept d stream now, .nothing)
  | .reject stream now => (dataReject d stream now, .nothing)
  | .cancel stream now inner => (dataCancel d stream now inner.run, .nothing)
  | .rx f now inner => (dataRx d f now fun k => (inner k).run, .nothing)
  | .tick now inner => (dataTick d now fun i => (inner i).run, .nothing)
  | .active => (d, .count (dataActive d))
  | .configure window ackTimeoutMs offerTimeoutMs offerRetries idleTimeoutMs maxRetries maxInbound =>
    ({ d with window, ackTimeoutMs, offerTimeoutMs, offerRetries, idleTimeoutMs, maxRetries, maxInbound }, .nothing)

/-- One operation, and what it returns and leaves. -/
def respond (d : Data) (o : DataOp) : Data × DataReply × Data := ((d.perform o).1, (d.perform o).2, (d.perform o).1.untimed)

variable {d e : Data}

theorem Later.untimed (h : Later c d e) : e.untimed = d.untimed := by
  obtain ⟨S, rfl, hS⟩ := h
  have hstreams : (fun i => { S i with lastRx := 0, lastTx := 0 } : Handle → Stream) =
      fun i => { d.s i with lastRx := 0, lastTx := 0 } := by
    funext i
    obtain ⟨rx, tx, hi, -⟩ := hS i
    rw [hi]
  simp only [Data.untimed, hstreams]

theorem Later.active (h : Later c d e) : dataActive e = dataActive d := by
  have hstates : (fun i => (e.s i).state != .free) = fun i => (d.s i).state != .free :=
    funext fun i => by rw [(h.slot i).state]
  unfold dataActive
  rw [hstates]

theorem Later.perform (h : Later c d e) (o : DataOp) :
    Later c (d.perform o).1 (e.perform (o.later c)).1 ∧ (e.perform (o.later c)).2 = (d.perform o).2 := by
  cases o with
  | send peer kind name data now =>
    obtain ⟨hanswer, hkept⟩ := h.send peer kind name data now
    exact ⟨hkept, congrArg DataReply.handle hanswer⟩
  | accept stream now => exact ⟨h.accept stream now, rfl⟩
  | reject stream now => exact ⟨h.reject stream now, rfl⟩
  | cancel stream now inner => exact ⟨h.cancel stream now (inner.run_later c), rfl⟩
  | rx f now inner =>
    have hinner : ∀ k, Alike c (inner k).run ((inner k).later c).run := fun k => (inner k).run_later c
    exact ⟨h.rx f now hinner, rfl⟩
  | tick now inner =>
    have hinner : ∀ i, Alike c (inner i).run ((inner i).later c).run := fun i => (inner i).run_later c
    simp only [Data.perform, DataOp.later]
    exact ⟨h.tick now hinner, trivial⟩
  | active => exact ⟨h, congrArg DataReply.count h.active⟩
  | configure window ackTimeoutMs offerTimeoutMs offerRetries idleTimeoutMs maxRetries maxInbound =>
    obtain ⟨S, rfl, hS⟩ := h
    exact ⟨⟨S, rfl, hS⟩, rfl⟩

theorem Later.respond (h : Later c d e) (o : DataOp) :
    Later c (d.respond o).1 (e.respond (o.later c)).1 ∧ (e.respond (o.later c)).2 = (d.respond o).2 := by
  obtain ⟨hkept, hreply⟩ := h.perform o
  exact ⟨hkept, Prod.ext hreply hkept.untimed⟩

theorem later_init : Later c dataInit dataInit := ⟨fun _ => .zero, rfl, fun _ => streamLater_zero⟩

end Data

end DeskHop.Bulk
