/-
  DeskHop.Bulk.Moves — what a turn of an endpoint is made of.

  A call of the transport changes one stream at a time, and between two changes it may
  have sent messages and called a hook, which runs application code. `Move` lists every
  such change, with the condition under which the code makes it; a turn, reactions to
  hooks included, is a chain of moves (`script_moves`, `rx_moves`, `tick_moves`). What
  every move preserves, every turn does.

  The one place where the code goes on after a hook without looking at its stream again
  is the chunk hook: `Mid.held` is the stream as it was handed over.
-/

import DeskHop.Bulk.Transfer
import Mathlib.Logic.Relation

namespace DeskHop.Bulk

open DeskHop.Wire Relation

/-! ## One stream replaced -/

/-- `d'` is `d` with stream `i` replaced, and messages and log entries appended. -/
structure Becomes (d : Data) (i : Handle) (s : Stream) (msgs : List (Addr × List Byte)) (ns : List Note) (d' : Data) :
    Prop where
  s : d'.s = Function.update d.s i s
  out : d'.out = d.out ++ msgs
  notes : d'.notes = d.notes ++ ns
  nextId : d'.nextId = d.nextId
  sends : d'.sends = d.sends

namespace Becomes

variable {d d' d'' : Data} {i : Handle} {s s' : Stream} {msgs msgs' : List (Addr × List Byte)} {ns ns' : List Note}

theorem self (h : Becomes d i s msgs ns d') : d'.s i = s := by rw [h.s, Function.update_self]

theorem ne (h : Becomes d i s msgs ns d') {j : Handle} (hj : j ≠ i) : d'.s j = d.s j := by
  rw [h.s, Function.update_of_ne hj]

theorem trans (h : Becomes d i s msgs ns d') (h' : Becomes d' i s' msgs' ns' d'') :
    Becomes d i s' (msgs ++ msgs') (ns ++ ns') d'' := by
  refine ⟨?_, ?_, ?_, h'.nextId.trans h.nextId, h'.sends.trans h.sends⟩
  · rw [h'.s, h.s, Function.update_idem]
  · rw [h'.out, h.out, List.append_assoc]
  · rw [h'.notes, h.notes, List.append_assoc]

theorem recount (h : Becomes d i s msgs ns d') (r : UInt32) : Becomes d i s msgs ns { d' with nRetransmits := r } :=
  ⟨h.s, h.out, h.notes, h.nextId, h.sends⟩

end Becomes

section becomes

variable (d : Data) (i : Handle) (now : Time)

theorem upd_becomes (f : Stream → Stream) : Becomes d i (f (d.s i)) [] [] (d.upd i f) :=
  ⟨rfl, (List.append_nil _).symm, (List.append_nil _).symm, rfl, rfl⟩

theorem sendOp_becomes (op : Byte) (extra : List Byte) :
    Becomes d i { d.s i with lastTx := now } [((d.s i).peer, op :: (d.s i).id :: extra)] [] (d.sendOp i op extra now) :=
  ⟨rfl, rfl, (List.append_nil _).symm, rfl, rfl⟩

/-- The log entry for a stream that ends. -/
def endNote (s : Stream) (i : Handle) (r : Byte) : Note := if s.outbound then .sent i r else .received i r

/-- The state in which `finish` calls its hook. -/
def Data.ended (d : Data) (i : Handle) (r : Byte) : Data :=
  let outbound := (d.s i).outbound
  let d := d.upd i fun _ => .zero
  if outbound then { d with nSent := if r = dataOk then d.nSent + 1 else d.nSent }.note (.sent i r)
  else { d with nReceived := if r = dataOk then d.nReceived + 1 else d.nReceived }.note (.received i r)

theorem finish_eq (r : Byte) (app : App) : d.finish i r app = app (d.ended i r) := by
  simp only [Data.finish, Data.ended]
  split <;> rfl

theorem ended_becomes (r : Byte) : Becomes d i .zero [] [endNote (d.s i) i r] (d.ended i r) := by
  simp only [Data.ended, endNote]
  split
  · exact ⟨rfl, (List.append_nil _).symm, rfl, rfl, rfl⟩
  · exact ⟨rfl, (List.append_nil _).symm, rfl, rfl, rfl⟩

/-- Ended with a word to the peer. -/
theorem abort_becomes (reason r : Byte) :
    Becomes d i .zero [((d.s i).peer, [opAbort, (d.s i).id, reason])] [endNote (d.s i) i r]
      ((d.sendOp i opAbort [reason] now).ended i r) := by
  have h := (sendOp_becomes d i now opAbort [reason]).trans (ended_becomes _ i r)
  rw [Data.sendOp_self] at h
  exact h

end becomes

/-! ## The application's calls -/

/-- `held` is the stream whose chunk hook runs; a `calm` application does not cancel it there. -/
inductive CallMove (calm : Prop) (held : Option Handle) (now : Time) : Data → Data → Prop
  | accept {d d' : Data} {i : Handle} (hs : (d.s i).state = .offered)
      (h : Becomes d i { d.s i with state := .receiving, lastRx := now, lastTx := now }
        [((d.s i).peer, [opAccept, (d.s i).id, d.window])] [] d') : CallMove calm held now d d'
  | reject {d d' : Data} {i : Handle} (hs : (d.s i).state = .offered)
      (h : Becomes d i .zero [((d.s i).peer, [opReject, (d.s i).id, dataRefused])] [] d') : CallMove calm held now d d'
  | cancel {d d' : Data} {i : Handle} (hs : (d.s i).state ≠ .free) (hk : calm → held ≠ some i)
      (h : Becomes d i .zero [((d.s i).peer, [opAbort, (d.s i).id, dataCancelled])] [endNote (d.s i) i dataCancelled] d') :
      CallMove calm held now d d'
  /-- A send that finds nothing to send, or no stream. -/
  | fail {d : Data} : CallMove calm held now d { d with sends := d.sends + 1 }
  | send {d d' : Data} {i : Handle} {s : Stream} (hfree : d.slotFree true = some i)
      (hs : s.state = .offering ∧ s.outbound = true ∧ s.id = d.nextId)
      (hout : d'.s = Function.update d.s i s ∧ d'.out = d.out ++ [(s.peer, opOffer :: s.id :: offerExtra s)])
      (hnotes : d'.notes = d.notes ++ [.begun i s.id s.src])
      (hid : d'.nextId = if d.nextId + 1 = 0 then 1 else d.nextId + 1) (hsends : d'.sends = d.sends + 1) :
      CallMove calm held now d d'

abbrev CallMoves (calm : Prop) (held : Option Handle) (now : Time) : Data → Data → Prop :=
  ReflTransGen (CallMove calm held now)

section calls

variable {calm : Prop} {held : Option Handle} {now : Time}

theorem accept_moves (d : Data) (stream : UInt8) : CallMoves calm held now d (dataAccept d stream now) := by
  unfold dataAccept
  split
  · exact .refl
  split
  · exact .refl
  rename_i i _ hs
  refine .single (.accept (i := i) (not_not.mp hs) ?_)
  have h := (upd_becomes d i fun s => { s with state := .receiving, lastRx := now }).trans
    (sendOp_becomes _ i now opAccept [d.window])
  simpa only [Data.upd_self, List.nil_append] using h

theorem reject_moves (d : Data) (stream : UInt8) : CallMoves calm held now d (dataReject d stream now) := by
  unfold dataReject
  split
  · exact .refl
  split
  · exact .refl
  rename_i i _ hs
  refine .single (.reject (i := i) (not_not.mp hs) ?_)
  have h := (sendOp_becomes d i now opReject [dataRefused]).trans (upd_becomes _ i fun _ => .zero)
  exact ⟨h.s, h.out, h.notes, rfl, rfl⟩

/-- A stream that begins stands in its slot, and its OFFER is all that goes out. -/
theorem begun_posts (d : Data) (i : Handle) (s : Stream) (next : UInt8) (now : Time) :
    let begun : Data := { d with sends := d.sends + 1 }.upd i fun _ => s
    let d' := (Data.note { begun with nextId := next } (.begun i s.id s.src)).sendOp i opOffer (offerExtra s) now
    d'.s = Function.update d.s i { s with lastTx := now } ∧ d'.out = d.out ++ [(s.peer, opOffer :: s.id :: offerExtra s)] := by
  intro begun d'
  constructor
  · simp only [d', begun, Data.sendOp, Data.emit, Data.upd, Data.note, Function.update_self, Function.update_idem]
  · simp only [d', begun, Data.sendOp_out, Data.note_out, Data.note_s]
    show d.out ++ [(((({ d with sends := d.sends + 1 } : Data).upd i _).s i).peer, _)] = _
    rw [Data.upd_self]

theorem send_moves (d : Data) (peer : Addr) (kind : UInt8) (name data : List Byte) :
    CallMoves calm held now d (dataSend d peer kind name data now).2 := by
  simp only [dataSend]
  split
  · exact .single .fail
  split
  · exact .single .fail
  rename_i i hfree
  obtain ⟨hs, hout⟩ := begun_posts d i (outboundStream d peer kind name data now) (if d.nextId + 1 = 0 then 1 else d.nextId + 1) now
  exact .single (.send (i := i) (s := { outboundStream d peer kind name data now with lastTx := now }) hfree
    ⟨rfl, rfl, rfl⟩ ⟨hs, hout⟩ rfl rfl rfl)

theorem perform_moves (c : Call) (hc : calm → ∀ i, held = some i → c.isCancel i = false) {app : App}
    (happ : ∀ d, CallMoves calm held now d (app d)) (d : Data) : CallMoves calm held now d (c.perform now app d) := by
  cases c with
  | accept stream => exact accept_moves d stream
  | reject stream => exact reject_moves d stream
  | send peer kind name data => exact send_moves d peer kind name data
  | cancel stream =>
    simp only [Call.perform, dataCancel]
    split
    · exact .refl
    rename_i i hi
    obtain ⟨hval, hused⟩ := Data.byHandle_some d hi
    rw [finish_eq]
    refine .head (.cancel hused (fun hcalm hk => ?_) (abort_becomes d i now _ _)) (happ _)
    have := hc hcalm i hk
    simp [Call.isCancel, hval] at this

theorem script_moves {script : Script} (hs : calm → ∀ i, held = some i → script.all (fun c => !c.isCancel i) = true)
    (d : Data) : CallMoves calm held now d (script.run now d) := by
  induction script generalizing d with
  | done => exact .refl
  | call c inner rest ihInner ihRest =>
    simp only [Script.all, Bool.and_eq_true, Bool.not_eq_true'] at hs
    refine (perform_moves c (fun hc i hi => (hs hc i hi).1.1) (ihInner fun hc i hi => (hs hc i hi).1.2) d).trans ?_
    exact ihRest (fun hc i hi => (hs hc i hi).2) _

end calls

/-! ## Which half a stream is in -/

/-- A stream in use is in the half of its direction. -/
structure Sided (i : Handle) (s : Stream) : Prop where
  outbound : s.state = .offering ∨ s.state = .sending ∨ s.state = .draining → s.outbound = true ∧ i ∈ Data.half true
  inbound : s.state = .offered ∨ s.state = .receiving → s.outbound = false ∧ i ∈ Data.half false
  free : s.state = .free → s.outbound = false

def Data.Sorted (d : Data) : Prop := ∀ i, Sided i (d.s i)

theorem half_disjoint {i : Handle} : i ∈ Data.half false → i ∉ Data.half true := by
  revert i
  decide

theorem slotFree_half {d : Data} {outbound : Bool} {i : Handle} (h : d.slotFree outbound = some i) :
    i ∈ Data.half outbound := List.mem_of_find?_eq_some h

theorem slotFind_half {d : Data} {peer : Addr} {id : UInt8} {outbound : Bool} {i : Handle}
    (h : d.slotFind peer id outbound = some i) : i ∈ Data.half outbound := List.mem_of_find?_eq_some h

/-- No call gives an inbound stream to another: it stays as it is, or is cancelled. -/
theorem held_stays {calm : Prop} {held : Option Handle} {now : Time} {d d' : Data} {i : Handle} {s : Stream}
    (hm : CallMoves calm held now d d') (hi : i ∈ Data.half false) (hs : s.state = .receiving)
    (h : d.s i = s ∨ d.s i = .zero) : d'.s i = s ∨ d'.s i = .zero := by
  induction hm with
  | refl => exact h
  | @tail e e' _ hmove ih =>
    have hoffered : (e.s i).state ≠ .offered := by
      rcases ih with ih | ih
      · rw [ih, hs]
        decide
      · rw [ih]
        decide
    cases hmove with
    | @accept _ j hj hb =>
      have hij : i ≠ j := by
        rintro rfl
        exact hoffered hj
      rwa [hb.ne hij]
    | @reject _ j hj hb =>
      have hij : i ≠ j := by
        rintro rfl
        exact hoffered hj
      rwa [hb.ne hij]
    | @cancel _ j _ _ hb =>
      by_cases hij : i = j
      · subst hij
        exact Or.inr hb.self
      · rwa [hb.ne hij]
    | fail => exact ih
    | @send _ j t hfree _ hout =>
      have hij : i ≠ j := by
        rintro rfl
        exact half_disjoint hi (slotFree_half hfree)
      rwa [hout.1, Function.update_of_ne hij]

/-! ## Moves of a turn -/

/-- What a turn has to go by: the state it begins in, and the message that has arrived, if one has. -/
structure Given where
  start : Data
  src : Addr
  payload : Option (List Byte)
  calm : Prop
  now : Time

/-- The endpoint, and the stream whose chunk hook runs, as it was handed over. -/
structure Mid where
  d : Data
  held : Option (Handle × Stream)

def Stream.stamped (s : Stream) (lastRx lastTx : Time) (retries : UInt8) : Stream :=
  { s with lastRx := lastRx, lastTx := lastTx, retries := retries }

/-- The same stream at another time. -/
def Stamped (s s' : Stream) : Prop := ∃ lastRx lastTx retries, s' = s.stamped lastRx lastTx retries

/-- The result of a message that ends a stream and names none. -/
def defaultResult (op : Byte) : Byte :=
  if op = opReject then dataRefused else if op = opDone then dataOk else dataCancelled

inductive Move (g : Given) : Mid → Mid → Prop
  | call {d d' : Data} {k : Option (Handle × Stream)} (h : CallMove g.calm (k.map Prod.fst) g.now d d') :
      Move g ⟨d, k⟩ ⟨d', k⟩
  | stamp {d d' : Data} {i : Handle} {lastRx lastTx : Time} {retries : UInt8} (hs : (d.s i).state ≠ .free)
      (h : Becomes d i ((d.s i).stamped lastRx lastTx retries) [] [] d') : Move g ⟨d, none⟩ ⟨d', none⟩
  /-- An offer refused, for its size or for want of a stream. -/
  | decline {d d' : Data} {i : Handle} {s : Stream} {p : List Byte} {reason : Byte} (hp : g.payload = some p)
      (hop : byteAt p 0 = opOffer) (hs : s = d.s i ∨ (d.s i).state = .free ∧ s = .zero) (hr : reason ≠ dataOk)
      (h : Becomes d i s [(g.src, [opReject, byteAt p 1, reason])] [] d') : Move g ⟨d, none⟩ ⟨d', none⟩
  | opened {d' : Data} {i : Handle} {p : List Byte} {s : Stream} (hp : g.payload = some p)
      (hop : byteAt p 0 = opOffer) (hnone : g.start.slotFind g.src (byteAt p 1) false = none)
      (hfree : g.start.slotFree false = some i)
      (hs : s = inboundStream g.start g.src (byteAt p 1) (p.drop 2) g.now)
      (hfits : s.total ≠ 0 ∧ s.total ≤ g.start.maxInbound)
      (h : Becomes g.start i s [] [.offered i s.id s.peer s.kind s.total s.name] d') : Move g ⟨g.start, none⟩ ⟨d', none⟩
  | ack {d d' : Data} {i : Handle} (hs : (d.s i).state = .receiving)
      (h : Becomes d i { d.s i with lastTx := g.now }
        [((d.s i).peer, opAck :: (d.s i).id :: (put16 (d.s i).nextSeq ++ [(d.s i).window]))] [] d') :
      Move g ⟨d, none⟩ ⟨d', none⟩
  /-- A chunk handed to the application. -/
  | hand {d d' : Data} {i : Handle} {p : List Byte} (hp : g.payload = some p)
      (hhand : g.start.handsChunk g.src p = some i) (hsame : Stamped (g.start.s i) (d.s i))
      (hs : (d.s i).state = .receiving) (hseq : get16 (p.drop 2) 0 = (d.s i).nextSeq)
      (h : Becomes d i { d.s i with running := adler32Update (d.s i).running ((p.drop 2).drop 2) } []
        [.chunk i (offsetOf (d.s i).nextSeq) ((p.drop 2).drop 2)] d') : Move g ⟨d, none⟩ ⟨d', some (i, d'.s i)⟩
  | count {d d' : Data} {i : Handle} {s : Stream} (hs : d.s i = s) (hmore : ¬ s.nextSeq + 1 ≥ chunksFor s.total)
      (h : Becomes d i { s with nextSeq := s.nextSeq + 1, acked := s.nextSeq + 1 } [] [] d') :
      Move g ⟨d, some (i, s)⟩ ⟨d', none⟩
  | verdict {d d' : Data} {i : Handle} {s : Stream} {v : Byte} (hs : d.s i = s ∨ d.s i = .zero)
      (hlast : (d.s i).nextSeq + 1 ≥ chunksFor (d.s i).total)
      (h : Becomes d i .zero [((d.s i).peer, [opDone, (d.s i).id, v])] [endNote (d.s i) i v] d') :
      Move g ⟨d, some (i, s)⟩ ⟨d', none⟩
  /-- A stream given up: overrun, or out of time. -/
  | quit {d d' : Data} {i : Handle} {r : Byte} {msgs : List (Addr × List Byte)} (hs : (d.s i).state ≠ .free)
      (hr : r ≠ dataOk) (hm : msgs = [] ∨ msgs = [((d.s i).peer, [opAbort, (d.s i).id, r])])
      (h : Becomes d i .zero msgs [endNote (d.s i) i r] d') : Move g ⟨d, none⟩ ⟨d', none⟩
  /-- A stream ended by a message. -/
  | told {d d' : Data} {i : Handle} {p : List Byte} {r : Byte} (hp : g.payload = some p)
      (hop : byteAt p 0 = opReject ∨ byteAt p 0 = opDone ∨ byteAt p 0 = opAbort)
      (haddr : g.start.addressee g.src (byteAt p 1) (byteAt p 0) = some i)
      (hsame : Stamped (g.start.s i) (d.s i)) (hr : r = resultOf (p.drop 2) (defaultResult (byteAt p 0)))
      (h : Becomes d i .zero [] [endNote (d.s i) i r] d') : Move g ⟨d, none⟩ ⟨d', none⟩
  /-- A sender set on its way: accepted, acknowledged or restarted. -/
  | steer {d d' : Data} {i : Handle} {nextSeq acked rewoundTo : UInt16} {window : UInt8}
      (hs : ((d.s i).state = .offering ∧ ∃ p, g.payload = some p ∧ byteAt p 0 = opAccept ∧
          g.start.addressee g.src (byteAt p 1) opAccept = some i) ∨
        (d.s i).state = .sending ∨ (d.s i).state = .draining)
      (h : Becomes d i { d.s i with
        state := .sending, nextSeq := nextSeq, acked := acked, rewoundTo := rewoundTo, window := window } [] [] d') :
      Move g ⟨d, none⟩ ⟨d', none⟩
  | push {d d' : Data} {i : Handle} (hs : (d.s i).state = .sending)
      (h : Becomes d i { d.s i with nextSeq := (d.s i).nextSeq + 1, lastTx := g.now }
        [((d.s i).peer, opChunk :: (d.s i).id :: (put16 (d.s i).nextSeq ++ piece (d.s i).src (d.s i).nextSeq))] [] d') :
      Move g ⟨d, none⟩ ⟨d', none⟩
  | drain {d d' : Data} {i : Handle} (hs : (d.s i).state = .sending) (h : Becomes d i (d.s i).drain [] [] d') :
      Move g ⟨d, none⟩ ⟨d', none⟩
  | offer {d d' : Data} {i : Handle} (hs : (d.s i).state = .offering)
      (h : Becomes d i { d.s i with lastTx := g.now } [((d.s i).peer, opOffer :: (d.s i).id :: offerExtra (d.s i))] [] d') :
      Move g ⟨d, none⟩ ⟨d', none⟩

abbrev Moves (g : Given) (d d' : Data) : Prop := ReflTransGen (Move g) ⟨d, none⟩ ⟨d', none⟩

section moves

variable {g : Given} {d : Data} {i : Handle}

/-- The application runs inside a hook, or on its own. -/
theorem calls_moves {d' : Data} {k : Option (Handle × Stream)} (h : CallMoves g.calm (k.map Prod.fst) g.now d d') :
    ReflTransGen (Move g) ⟨d, k⟩ ⟨d', k⟩ := by
  induction h with
  | refl => exact .refl
  | tail _ hm ih => exact ih.tail (.call hm)

/-- What the application makes of a hook is a chain of its calls. -/
def Calls (g : Given) (held : Option Handle) (app : App) : Prop := ∀ d, CallMoves g.calm held g.now d (app d)

theorem Calls.moves {app : App} (happ : Calls g none app) (d : Data) : Moves g d (app d) :=
  calls_moves (k := none) (happ d)

/-! ## A sender under way -/

/-- Only what steers a sender is changed. -/
def Tuned (s s' : Stream) : Prop :=
  ∃ (nextSeq acked rewoundTo : UInt16) (window : UInt8),
    s' = { s with nextSeq := nextSeq, acked := acked, rewoundTo := rewoundTo, window := window }

theorem Tuned.trans {s s' s'' : Stream} (h : Tuned s s') (h' : Tuned s' s'') : Tuned s s'' := by
  obtain ⟨_, _, _, _, rfl⟩ := h
  obtain ⟨n, a, r, w, rfl⟩ := h'
  exact ⟨n, a, r, w, rfl⟩

theorem tuned_takeWindow (p : List Byte) (k : Nat) (s : Stream) : Tuned s (s.takeWindow p k) := by
  unfold Stream.takeWindow
  split
  · exact ⟨_, _, _, _, rfl⟩
  · exact ⟨_, _, _, _, rfl⟩

theorem tuned_progress (next : UInt16) (s : Stream) : Tuned s (s.progress next) := by
  unfold Stream.progress
  split
  · exact ⟨_, _, _, _, rfl⟩
  · exact ⟨_, _, _, _, rfl⟩

theorem tuned_rewind (next : UInt16) (s : Stream) : Tuned s (s.rewind next) := ⟨_, _, _, _, rfl⟩

theorem pumpLoop_moves (totalChunks : UInt16) (n : Nat) (hs : (d.s i).state = .sending) :
    Moves g d (pumpLoop totalChunks i g.now n d) ∧ ((pumpLoop totalChunks i g.now n d).s i).state = .sending := by
  induction n generalizing d with
  | zero => exact ⟨.refl, hs⟩
  | succ n ih =>
    unfold pumpLoop
    split
    · have hpush := (sendOp_becomes d i g.now opChunk (put16 (d.s i).nextSeq ++ piece (d.s i).src (d.s i).nextSeq)).trans
        (upd_becomes _ i fun s => { s with nextSeq := s.nextSeq + 1 })
      rw [Data.sendOp_self] at hpush
      have hstate : ((sendChunk d i g.now).s i).state = .sending := (congrArg Stream.state hpush.self).trans hs
      obtain ⟨hmoves, hend⟩ := ih hstate
      exact ⟨hmoves.head (.push hs hpush), hend⟩
    · exact ⟨.refl, hs⟩

theorem pumpSender_moves (hs : (d.s i).state = .sending) : Moves g d (pumpSender d i g.now) := by
  have hloop := pumpLoop_moves (g := g) (chunksFor (d.s i).total)
    ((chunksFor (d.s i).total).toNat - (d.s i).nextSeq.toNat) hs
  simp only [pumpSender]
  split
  · exact hloop.1.tail (.drain hloop.2 (upd_becomes _ i Stream.drain))
  · exact hloop.1

/-- A sender steered and set on its way. -/
theorem resume_moves {d' : Data} {s : Stream} (hb : Becomes d i s [] [] d') (ht : Tuned (d.s i) s)
    (hs : ((d.s i).state = .offering ∧ ∃ p, g.payload = some p ∧ byteAt p 0 = opAccept ∧
      g.start.addressee g.src (byteAt p 1) opAccept = some i) ∨ (d.s i).state = .sending ∨ (d.s i).state = .draining) :
    Moves g d (pumpSender (d'.upd i Stream.resume) i g.now) := by
  obtain ⟨n, a, r, w, rfl⟩ := ht
  have hresumed := hb.trans (upd_becomes d' i Stream.resume)
  rw [hb.self] at hresumed
  have hstate : ((d'.upd i Stream.resume).s i).state = .sending := congrArg Stream.state hresumed.self
  exact (pumpSender_moves hstate).head (.steer hs hresumed)

theorem rxAccept_moves (p : List Byte)
    (haddr : (d.s i).state = .offering → ∃ p, g.payload = some p ∧ byteAt p 0 = opAccept ∧
      g.start.addressee g.src (byteAt p 1) opAccept = some i) : Moves g d (rxAccept d i p g.now) := by
  unfold rxAccept
  split
  · rename_i hs
    exact resume_moves (upd_becomes d i _) (tuned_takeWindow p 0 _) (Or.inl ⟨hs, haddr hs⟩)
  · exact .refl

theorem rxAck_moves (p : List Byte) : Moves g d (rxAck d i p g.now) := by
  simp only [rxAck]
  split
  · rename_i hs
    have hprogress := upd_becomes d i (Stream.progress (get16 p 0))
    split
    · have hcounted := hprogress.recount ((d.upd i (Stream.progress (get16 p 0))).nRetransmits + 1)
      have hrewind := hcounted.trans (upd_becomes _ i (Stream.rewind (get16 p 0)))
      rw [hcounted.self] at hrewind
      have hall := hrewind.trans (upd_becomes _ i (Stream.takeWindow p 2))
      rw [hrewind.self] at hall
      exact resume_moves hall (((tuned_progress _ _).trans (tuned_rewind _ _)).trans (tuned_takeWindow p 2 _))
        (Or.inr hs.2)
    · have hall := hprogress.trans (upd_becomes _ i (Stream.takeWindow p 2))
      rw [hprogress.self] at hall
      exact resume_moves hall ((tuned_progress _ _).trans (tuned_takeWindow p 2 _)) (Or.inr hs.2)
  · exact .refl

/-! ## Messages -/

theorem sendAck_moves (hs : (d.s i).state = .receiving) : Moves g d (sendAck d i g.now) :=
  .single (.ack hs (sendOp_becomes d i g.now _ _))

theorem rxOffer_moves {p : List Byte} (hp : g.payload = some p) (hop : byteAt p 0 = opOffer) {app : App}
    (happ : Calls g none app) : Moves g g.start (rxOffer g.start g.src (byteAt p 1) (p.drop 2) g.now app) := by
  simp only [rxOffer]
  split
  · exact .refl
  split
  · split
    · rename_i hs
      exact sendAck_moves hs
    · exact .refl
  rename_i hnone
  split
  · refine .single (.decline (i := ⟨4, by decide⟩) hp hop (Or.inl rfl) (by decide : dataNoStream ≠ dataOk) ?_)
    exact ⟨(Function.update_eq_self _ _).symm, rfl, (List.append_nil _).symm, rfl, rfl⟩
  rename_i i hfree
  have hb := upd_becomes g.start i fun _ => inboundStream g.start g.src (byteAt p 1) (p.drop 2) g.now
  split
  · have hall := (hb.trans (sendOp_becomes _ i g.now opReject [dataTooBig])).trans (upd_becomes _ i fun _ => .zero)
    rw [Data.upd_self] at hall
    exact .single (.decline hp hop (Or.inr ⟨Data.slotFree_some _ hfree, rfl⟩) (by decide : dataTooBig ≠ dataOk) hall)
  · rename_i hfits
    simp only [Bool.or_eq_true, decide_eq_true_eq, not_or, UInt32.not_lt] at hfits
    refine (happ.moves _).head (.opened hp hop hnone hfree rfl hfits ?_)
    exact ⟨rfl, (List.append_nil _).symm, rfl, rfl, rfl⟩

theorem afterChunk_moves {s : Stream} (hs : d.s i = s ∨ d.s i = .zero) (hrecv : s.state = .receiving) {app : App}
    (happ : Calls g none app) :
    ReflTransGen (Move g) ⟨d, some (i, s)⟩ ⟨afterChunk d i g.now app, none⟩ := by
  simp only [afterChunk, Data.upd_self]
  have hb := upd_becomes d i fun s => { s with nextSeq := s.nextSeq + 1, acked := s.nextSeq + 1 }
  split
  · rename_i hlast
    rw [finish_eq]
    generalize (if (d.s i).running = (d.s i).crc then dataOk else dataCorrupt) = v
    have hdone := (hb.trans (sendOp_becomes _ i g.now opDone [v])).trans (ended_becomes _ i v)
    rw [Data.sendOp_self, Data.upd_self] at hdone
    exact (happ.moves _).head (.verdict hs hlast hdone)
  · rename_i hmore
    have hsame : d.s i = s := by
      rcases hs with hs | hs
      · exact hs
      · rw [hs] at hmore
        exact absurd (by decide) hmore
    rw [hsame] at hb hmore
    split
    · refine (sendAck_moves ?_).head (.count hsame hmore hb)
      rw [hb.self]
      exact hrecv
    · exact .single (.count hsame hmore hb)

/-- A chunk handed over, the hook, and what the transport does with its stream then. -/
theorem handed_moves {p : List Byte} (hp : g.payload = some p) (hhand : g.start.handsChunk g.src p = some i)
    (hsame : Stamped (g.start.s i) (d.s i)) (hs : (d.s i).state = .receiving) (hi : i ∈ Data.half false)
    (hseq : get16 (p.drop 2) 0 = (d.s i).nextSeq) {app : Fin 2 → App} (hcalls : Calls g (some i) (app 0)) (h1 : Calls g none (app 1)) :
    Moves g d (afterChunk (app 0 ((d.upd i fun s =>
      { s with running := adler32Update s.running ((p.drop 2).drop 2) }).note
        (.chunk i (offsetOf (get16 (p.drop 2) 0)) ((p.drop 2).drop 2)))) i g.now (app 1)) := by
  have hb := upd_becomes d i fun s => { s with running := adler32Update s.running ((p.drop 2).drop 2) }
  have hnoted : Becomes d i { d.s i with running := adler32Update (d.s i).running ((p.drop 2).drop 2) } []
      [.chunk i (offsetOf (d.s i).nextSeq) ((p.drop 2).drop 2)] ((d.upd i fun s =>
      { s with running := adler32Update s.running ((p.drop 2).drop 2) }).note
        (.chunk i (offsetOf (d.s i).nextSeq) ((p.drop 2).drop 2))) := ⟨hb.s, hb.out, rfl, rfl, rfl⟩
  have hrecv := (congrArg Stream.state hnoted.self).trans hs
  rw [hseq]
  have hheld := held_stays (hcalls _) hi hrecv (Or.inl rfl)
  refine ((calls_moves (k := some (i, _)) (hcalls _)).trans (afterChunk_moves hheld hrecv h1)).head ?_
  exact .hand hp hhand hsame hs hseq hnoted

theorem rxChunk_moves {p : List Byte} (hp : g.payload = some p) (hsame : Stamped (g.start.s i) (d.s i))
    (hin : (d.s i).state = .receiving → i ∈ Data.half false)
    (hhand : 2 ≤ (p.drop 2).length → (d.s i).state = .receiving → get16 (p.drop 2) 0 = (d.s i).nextSeq →
      ¬ offsetOf (get16 (p.drop 2) 0) + UInt32.ofNat ((p.drop 2).drop 2).length > (d.s i).total →
      g.start.handsChunk g.src p = some i) {app : Fin 2 → App} (happ : ∀ k, Calls g none (app k))
    (hcalls : g.start.handsChunk g.src p = some i → Calls g (some i) (app 0)) :
    Moves g d (rxChunk d i (p.drop 2) g.now app) := by
  simp only [rxChunk]
  split
  · exact .refl
  rename_i hrecv
  simp only [Bool.or_eq_true, decide_eq_true_eq, bne_iff_ne, ne_eq, not_or, Nat.not_lt, not_not] at hrecv
  have hused : (d.s i).state ≠ .free := by
    rw [hrecv.2]
    decide
  have hb := upd_becomes d i fun s => { s with lastRx := g.now }
  have hstamp : Move g ⟨d, none⟩ ⟨d.upd i fun s => { s with lastRx := g.now }, none⟩ := .stamp hused hb
  have hrecv' : ((d.upd i fun s => { s with lastRx := g.now }).s i).state = .receiving := by
    rw [hb.self]
    exact hrecv.2
  split
  · split
    · exact (sendAck_moves hrecv').head hstamp
    · exact .single hstamp
  rename_i hseq
  rw [ne_eq, not_not] at hseq
  split
  · rw [finish_eq]
    refine (((happ 0).moves _).head (.quit ?_ (by decide : dataCorrupt ≠ dataOk) (Or.inr rfl)
      (abort_becomes _ i g.now _ _))).head hstamp
    rw [hrecv']
    decide
  · rename_i hfits
    have hhand : g.start.handsChunk g.src p = some i := by
      rw [hb.self] at hseq hfits
      exact hhand hrecv.1 hrecv.2 hseq hfits
    have hsame' : Stamped (g.start.s i) ((d.upd i fun s => { s with lastRx := g.now }).s i) := by
      obtain ⟨_, t, r, hs⟩ := hsame
      exact ⟨g.now, t, r, by rw [hb.self, hs]; rfl⟩
    exact (handed_moves hp hhand hsame' hrecv' (hin hrecv.2) hseq (hcalls hhand) (happ 1)).head hstamp

theorem rxStream_moves (hsorted : g.start.Sorted) {p : List Byte} (hp : g.payload = some p)
    (haddr : g.start.addressee g.src (byteAt p 1) (byteAt p 0) = some i) {app : Fin 2 → App}
    (happ : ∀ k, Calls g none (app k)) (hcalls : ∀ i, g.start.handsChunk g.src p = some i → Calls g (some i) (app 0)) :
    Moves g g.start (rxStream g.start i (byteAt p 0) (p.drop 2) g.now app) := by
  have hused := (g.start.addressee_some haddr).1
  have hb := upd_becomes g.start i fun s => { s with lastRx := g.now, retries := 0 }
  have hstamp : Move g ⟨g.start, none⟩ ⟨g.start.upd i fun s => { s with lastRx := g.now, retries := 0 }, none⟩ :=
    .stamp hused hb
  have hsame : Stamped (g.start.s i) ((g.start.upd i fun s => { s with lastRx := g.now, retries := 0 }).s i) :=
    ⟨g.now, (g.start.s i).lastTx, 0, hb.self⟩
  have htold (hop : byteAt p 0 = opReject ∨ byteAt p 0 = opDone ∨ byteAt p 0 = opAbort) :
      Moves g g.start ((g.start.upd i fun s => { s with lastRx := g.now, retries := 0 }).finish i
        (resultOf (p.drop 2) (defaultResult (byteAt p 0))) (app 0)) := by
    rw [finish_eq]
    exact (((happ 0).moves _).head (.told hp hop haddr hsame rfl (ended_becomes _ i _))).head hstamp
  simp only [rxStream]
  by_cases h1 : byteAt p 0 = opAccept
  · rw [if_pos h1]
    rw [h1] at haddr
    exact (rxAccept_moves _ fun _ => ⟨p, hp, h1, haddr⟩).head hstamp
  rw [if_neg h1]
  by_cases h2 : byteAt p 0 = opReject
  · rw [if_pos h2]
    have h := htold (Or.inl h2)
    rw [h2] at h
    exact h
  rw [if_neg h2]
  by_cases h3 : byteAt p 0 = opChunk
  · rw [if_pos h3]
    refine (rxChunk_moves hp hsame ?_ (fun hlen hrecv hseq hfits => ?_) happ (hcalls i)).head hstamp
    · rw [hb.self]
      exact fun hrecv => ((hsorted i).inbound (Or.inr hrecv)).2
    · rw [hb.self] at hrecv hseq hfits
      rw [h3] at haddr
      rw [Data.handsChunk, haddr]
      refine Option.filter_eq_some_iff.mpr ⟨rfl, ?_⟩
      simp only [Bool.and_eq_true, beq_iff_eq, decide_eq_true_eq]
      exact ⟨⟨⟨⟨h3, hlen⟩, hrecv⟩, hseq⟩, UInt32.not_lt.mp hfits⟩
  rw [if_neg h3]
  by_cases h4 : byteAt p 0 = opAck
  · rw [if_pos h4]
    exact (rxAck_moves _).head hstamp
  rw [if_neg h4]
  by_cases h5 : byteAt p 0 = opDone
  · rw [if_pos h5]
    have h := htold (Or.inr (Or.inl h5))
    rw [h5] at h
    exact h
  rw [if_neg h5]
  by_cases h6 : byteAt p 0 = opAbort
  · rw [if_pos h6]
    have h := htold (Or.inr (Or.inr h6))
    rw [h6] at h
    exact h
  · rw [if_neg h6]
    exact .single hstamp

/-- What arrives, whatever it is. -/
theorem dataRx_moves (hsorted : g.start.Sorted) {f : Frame} (hsrc : g.src = f.src) (hp : g.payload = some f.payload)
    {app : Fin 2 → App} (happ : ∀ k, Calls g none (app k))
    (hcalls : ∀ i, g.start.handsChunk g.src f.payload = some i → Calls g (some i) (app 0)) :
    Moves g g.start (dataRx g.start f g.now app) := by
  unfold dataRx
  split
  · exact .refl
  rw [← hsrc]
  by_cases hop : byteAt f.payload 0 = opOffer
  · rw [if_pos hop]
    exact rxOffer_moves hp hop (happ 0)
  rw [if_neg hop]
  cases haddr : g.start.addressee g.src (byteAt f.payload 1) (byteAt f.payload 0) with
  | none => exact .refl
  | some i => exact rxStream_moves hsorted hp haddr happ hcalls

/-! ## Ticks -/

theorem resend_moves : Moves g d (resend d i g.now) := by
  unfold resend
  have hrestart := (upd_becomes d i Stream.restart).recount (d.nRetransmits + 1)
  have hresume (hs : (d.s i).state = .sending ∨ (d.s i).state = .draining) :
      Moves g d (pumpSender { d.upd i Stream.restart with nRetransmits := d.nRetransmits + 1 } i g.now) :=
    (pumpSender_moves (congrArg Stream.state hrestart.self)).head (.steer (Or.inr hs) hrestart)
  split
  · rename_i hs
    exact .single (.offer hs (sendOp_becomes d i g.now _ _))
  · rename_i hs
    exact hresume (Or.inl hs)
  · rename_i hs
    exact hresume (Or.inr hs)
  · exact .refl

theorem tickSlot_moves {app : Handle → App} (happ : ∀ i, Calls g none (app i)) :
    Moves g d (tickSlot g.now app d i) := by
  simp only [tickSlot]
  split
  · exact .refl
  rename_i hused
  split
  · rw [finish_eq]
    exact ((happ i).moves _).head (.quit hused (by decide : dataTimeout ≠ dataOk) (Or.inl rfl) (ended_becomes d i _))
  split
  · exact .refl
  split
  · exact .refl
  have hb := upd_becomes d i fun s => { s with retries := s.retries + 1 }
  have hstamp : Move g ⟨d, none⟩ ⟨d.upd i fun s => { s with retries := s.retries + 1 }, none⟩ := .stamp hused hb
  split
  · rw [finish_eq]
    refine (((happ i).moves _).head (.quit ?_ (by decide : dataTimeout ≠ dataOk) (Or.inr rfl)
      (abort_becomes _ i g.now _ _))).head hstamp
    rw [hb.self]
    exact hused
  · exact resend_moves.head hstamp

theorem dataTick_moves {app : Handle → App} (happ : ∀ i, Calls g none (app i)) : Moves g d (dataTick d g.now app) := by
  unfold dataTick
  induction List.finRange 8 generalizing d with
  | nil => exact .refl
  | cons i is ih => exact (tickSlot_moves happ).trans ih

end moves

/-! ## Turns -/

/-- The message a turn takes. -/
def incoming (inbox : List (List Byte)) : Act → Option (List Byte)
  | .rx _ _ => inbox.head?
  | _ => none

def Act.now : Act → Time
  | .app _ now | .tick _ now | .rx _ now => now

def given (d : Data) (inbox : List (List Byte)) (src : Addr) (e : Act) : Given := ⟨d, src, incoming inbox e, False, e.now⟩

theorem calls_of_script (g : Given) (hcalm : ¬ g.calm) (held : Option Handle) (script : Script) :
    Calls g held (script.run g.now) := script_moves fun h => absurd h hcalm

/-- A turn of an endpoint is a chain of moves. -/
theorem turn_moves {d : Data} (hsorted : d.Sorted) (inbox : List (List Byte)) (src dst : Addr) (e : Act) :
    Moves (given d inbox src e) d (turn d inbox src dst e) := by
  have hcalls := calls_of_script (given d inbox src e) not_false
  cases e with
  | app script now => exact (hcalls none script).moves d
  | tick react now => exact dataTick_moves fun h => hcalls none (react h)
  | rx react now =>
    cases inbox with
    | nil => exact .refl
    | cons p rest =>
      exact dataRx_moves (g := given d (p :: rest) src (.rx react now)) hsorted rfl rfl
        (fun k => hcalls none (react k)) fun i _ => hcalls (some i) (react 0)

/-! ## What every move keeps -/

theorem sided_zero (i : Handle) : Sided i .zero := by
  refine ⟨fun h => ?_, fun h => ?_, fun _ => rfl⟩
  · rcases h with h | h | h <;> cases h
  · rcases h with h | h <;> cases h

/-- As sided as a stream of that state and direction. -/
theorem Sided.congr {i : Handle} {s s' : Stream} (h : Sided i s) (hst : s'.state = s.state)
    (hout : s'.outbound = s.outbound) : Sided i s' := by
  refine ⟨?_, ?_, ?_⟩ <;> rw [hst, hout]
  · exact h.outbound
  · exact h.inbound
  · exact h.free

/-- Of an outbound stream that goes on as one. -/
theorem Sided.goesOut {i : Handle} {s s' : Stream} (h : s.outbound = true ∧ i ∈ Data.half true)
    (hst : s'.state = .offering ∨ s'.state = .sending ∨ s'.state = .draining) (hout : s'.outbound = s.outbound) :
    Sided i s' := by
  refine ⟨fun _ => ⟨hout.trans h.1, h.2⟩, fun hin => ?_, fun hfree => ?_⟩
  · rcases hst with hst | hst | hst <;> rw [hst] at hin <;> rcases hin with hin | hin <;> cases hin
  · rcases hst with hst | hst | hst <;> rw [hst] at hfree <;> cases hfree

theorem Sided.comesIn {i : Handle} {s' : Stream} (hi : i ∈ Data.half false)
    (hst : s'.state = .offered ∨ s'.state = .receiving) (hout : s'.outbound = false) : Sided i s' := by
  refine ⟨fun hs => ?_, fun _ => ⟨hout, hi⟩, fun _ => hout⟩
  rcases hst with hst | hst <;> rw [hst] at hs <;> rcases hs with hs | hs | hs <;> cases hs

theorem Becomes.sorted {d d' : Data} {i : Handle} {s : Stream} {msgs : List (Addr × List Byte)} {ns : List Note}
    (h : Becomes d i s msgs ns d') (hd : d.Sorted) (hs : Sided i s) : d'.Sorted := by
  intro j
  by_cases hj : j = i
  · subst hj
    rw [h.self]
    exact hs
  · rw [h.ne hj]
    exact hd j

theorem CallMove.sorted {calm : Prop} {held : Option Handle} {now : Time} {d d' : Data}
    (h : CallMove calm held now d d') (hd : d.Sorted) : d'.Sorted := by
  cases h with
  | @accept _ i hs hb =>
    have hi := (hd i).inbound (Or.inl hs)
    exact hb.sorted hd (.comesIn hi.2 (Or.inr rfl) hi.1)
  | reject _ hb => exact hb.sorted hd (sided_zero _)
  | cancel _ _ hb => exact hb.sorted hd (sided_zero _)
  | fail => exact hd
  | @send _ i s hfree hs hout =>
    intro j
    rw [hout.1]
    by_cases hj : j = i
    · subst hj
      rw [Function.update_self]
      exact .goesOut ⟨hs.2.1, slotFree_half hfree⟩ (Or.inl hs.1) rfl
    · rw [Function.update_of_ne hj]
      exact hd j

theorem Move.sorted {g : Given} {m m' : Mid} (h : Move g m m') (hd : m.d.Sorted) : m'.d.Sorted := by
  cases h with
  | call h => exact h.sorted hd
  | stamp _ hb => exact hb.sorted hd ((hd _).congr rfl rfl)
  | decline _ _ hs _ hb =>
    refine hb.sorted hd ?_
    rcases hs with rfl | ⟨-, rfl⟩
    · exact hd _
    · exact sided_zero _
  | opened _ _ _ hfree hs _ hb =>
    subst hs
    exact hb.sorted hd (.comesIn (slotFree_half hfree) (Or.inl rfl) rfl)
  | ack _ hb => exact hb.sorted hd ((hd _).congr rfl rfl)
  | hand _ _ _ _ _ hb => exact hb.sorted hd ((hd _).congr rfl rfl)
  | count hs _ hb =>
    subst hs
    exact hb.sorted hd ((hd _).congr rfl rfl)
  | verdict _ _ hb => exact hb.sorted hd (sided_zero _)
  | quit _ _ _ hb => exact hb.sorted hd (sided_zero _)
  | told _ _ _ _ _ hb => exact hb.sorted hd (sided_zero _)
  | @steer _ _ i _ _ _ _ hs hb =>
    have hi := (hd i).outbound (hs.imp_left And.left)
    exact hb.sorted hd (.goesOut hi (Or.inr (Or.inl rfl)) rfl)
  | push _ hb => exact hb.sorted hd ((hd _).congr rfl rfl)
  | @drain _ _ i hs hb =>
    have hi := (hd i).outbound (Or.inr (Or.inl hs))
    exact hb.sorted hd (.goesOut hi (Or.inr (Or.inr rfl)) rfl)
  | offer _ hb => exact hb.sorted hd ((hd _).congr rfl rfl)

/-- What every move keeps, a chain of them keeps. -/
theorem moves_keep {g : Given} {m m' : Mid} (h : ReflTransGen (Move g) m m') {P : Mid → Prop}
    (hstep : ∀ m m', Move g m m' → P m → P m') (h0 : P m) : P m' := by
  induction h with
  | refl => exact h0
  | tail _ hmove ih => exact hstep _ _ hmove ih

theorem CallMove.grown {calm : Prop} {held : Option Handle} {now : Time} {d d' : Data}
    (h : CallMove calm held now d d') : d.notes <+: d'.notes := by
  cases h with
  | accept _ hb => exact ⟨_, hb.notes.symm⟩
  | reject _ hb => exact ⟨_, hb.notes.symm⟩
  | cancel _ _ hb => exact ⟨_, hb.notes.symm⟩
  | fail => exact List.prefix_refl _
  | send _ _ _ hnotes => exact ⟨_, hnotes.symm⟩

theorem Move.grown {g : Given} {m m' : Mid} (h : Move g m m') : m.d.notes <+: m'.d.notes := by
  cases h with
  | call h => exact h.grown
  | stamp _ hb => exact ⟨_, hb.notes.symm⟩
  | decline _ _ _ _ hb => exact ⟨_, hb.notes.symm⟩
  | opened _ _ _ _ _ _ hb => exact ⟨_, hb.notes.symm⟩
  | ack _ hb => exact ⟨_, hb.notes.symm⟩
  | hand _ _ _ _ _ hb => exact ⟨_, hb.notes.symm⟩
  | count _ _ hb => exact ⟨_, hb.notes.symm⟩
  | verdict _ _ hb => exact ⟨_, hb.notes.symm⟩
  | quit _ _ _ hb => exact ⟨_, hb.notes.symm⟩
  | told _ _ _ _ _ hb => exact ⟨_, hb.notes.symm⟩
  | steer _ hb => exact ⟨_, hb.notes.symm⟩
  | push _ hb => exact ⟨_, hb.notes.symm⟩
  | drain _ hb => exact ⟨_, hb.notes.symm⟩
  | offer _ hb => exact ⟨_, hb.notes.symm⟩

theorem Moves.grown {g : Given} {d d' : Data} (h : Moves g d d') : d.notes <+: d'.notes :=
  moves_keep h (P := fun m => d.notes <+: m.d.notes) (fun _ _ hm ih => ih.trans hm.grown) (List.prefix_refl _)

end DeskHop.Bulk
