/-
  DeskHop.Bulk.Data — the level 3 bulk transport (`core/include/dhp/data.h`,
  `core/src/data.c`): offers, go-back-N chunks, acknowledgements and verdicts over a
  table of streams.

  What is sent collects in `out`, and the hooks called, in order, in `notes`. A hook
  runs application code, which may call the transport again: every function that calls
  hooks takes what the application makes of each (`App`), and `Script` is an
  application's reaction written out, down to the hooks its own calls fire.
-/

import DeskHop.Core.Msg
import DeskHop.Wire.Frame
import Mathlib.Data.Fintype.Basic
import Mathlib.Logic.Function.Basic

namespace DeskHop.Bulk

open DeskHop.Wire

def chunkBytes : Nat := maxPayload - 4
def nameMax : Nat := 48

/-! ## Results and opcodes -/

def dataOk : Byte := 0
def dataRefused : Byte := 1
def dataTimeout : Byte := 2
def dataCorrupt : Byte := 3
def dataTooBig : Byte := 4
def dataCancelled : Byte := 5
def dataNoStream : Byte := 6

def opOffer : Byte := 0
def opAccept : Byte := 1
def opReject : Byte := 2
def opChunk : Byte := 3
def opAck : Byte := 4
def opDone : Byte := 5
def opAbort : Byte := 6

def offerFixed : Nat := 11

/-- "No rewind outstanding"; a real sequence never reaches it. -/
def noRewind : UInt16 := 0xFFFF

inductive StreamState where
  | free
  /-- Sender: offer sent, waiting for accept. -/
  | offering
  | sending
  /-- Sender: all chunks out, waiting for the verdict. -/
  | draining
  /-- Receiver: offer in, waiting for the app to decide. -/
  | offered
  | receiving
  deriving DecidableEq, Repr

structure Stream where
  state : StreamState
  id : UInt8
  outbound : Bool
  peer : Addr
  kind : UInt8
  /-- Up to its terminator. -/
  name : List Byte
  total : UInt32
  crc : UInt32
  /-- Receiver: computed as chunks pass through. -/
  running : UInt32
  /-- Sender: next to transmit. Receiver: next expected. -/
  nextSeq : UInt16
  acked : UInt16
  rewoundTo : UInt16
  window : UInt8
  /-- Sender: caller memory. -/
  src : List Byte
  lastRx : Time
  lastTx : Time
  retries : UInt8
  deriving DecidableEq, Repr

def Stream.zero : Stream :=
  { state := .free, id := 0, outbound := false, peer := 0, kind := 0, name := [], total := 0, crc := 0, running := 0,
    nextSeq := 0, acked := 0, rewoundTo := 0, window := 0, src := [], lastRx := 0, lastTx := 0, retries := 0 }

/-- A stream handle: the index in a table of `DHP_DATA_MAX_STREAMS` for each direction. -/
abbrev Handle := Fin 8

/-- A hook call, or a send that has taken a handle. -/
inductive Note where
  | begun (h : Handle) (id : UInt8) (content : List Byte)
  | offered (h : Handle) (id : UInt8) (peer : Addr) (kind : UInt8) (total : UInt32) (name : List Byte)
  | chunk (h : Handle) (offset : UInt32) (data : List Byte)
  | received (h : Handle) (result : Byte)
  | sent (h : Handle) (result : Byte)
  deriving DecidableEq

structure Data where
  s : Handle → Stream
  nextId : UInt8
  window : UInt8
  ackTimeoutMs : UInt16
  offerTimeoutMs : UInt16
  offerRetries : UInt8
  idleTimeoutMs : UInt16
  maxRetries : UInt8
  maxInbound : UInt32
  nSent : UInt32
  nReceived : UInt32
  nRetransmits : UInt32
  nRefused : UInt32
  /-- How often the application has called `dataSend`. -/
  sends : Nat
  out : List (Addr × List Byte)
  notes : List Note
  deriving DecidableEq

def dataInit : Data :=
  { s := fun _ => .zero, nextId := 1, window := 8, ackTimeoutMs := 250, offerTimeoutMs := 1000, offerRetries := 8,
    idleTimeoutMs := 15000, maxRetries := 6, maxInbound := 8 * 1024 * 1024, nSent := 0, nReceived := 0,
    nRetransmits := 0, nRefused := 0, sends := 0, out := [], notes := [] }

/-- What the application makes of a hook. -/
abbrev App := Data → Data

/-! ## Adler-32 -/

def adlerMod : UInt32 := 65521

def adlerByte (ab : UInt32 × UInt32) (x : Byte) : UInt32 × UInt32 :=
  let a := ab.1 + x.toUInt32
  let a := if a ≥ adlerMod then a - adlerMod else a
  let b := ab.2 + a
  (a, if b ≥ adlerMod then b - adlerMod else b)

def adler32Update (state : UInt32) (data : List Byte) : UInt32 :=
  let (a, b) := data.foldl adlerByte (state &&& 0xFFFF, state >>> 16 &&& 0xFFFF)
  b <<< 16 ||| a

def adlerInit : UInt32 := 1

def contentCrc (data : List Byte) : UInt32 := adler32Update adlerInit data

/-! ## Streams -/

namespace Data

def upd (d : Data) (i : Handle) (f : Stream → Stream) : Data := { d with s := Function.update d.s i (f (d.s i)) }

def note (d : Data) (n : Note) : Data := { d with notes := d.notes ++ [n] }

/-- The handles of one direction. -/
def half (outbound : Bool) : List Handle := if outbound then [0, 1, 2, 3] else [4, 5, 6, 7]

def slotFree (d : Data) (outbound : Bool) : Option Handle := (half outbound).find? fun i => (d.s i).state == .free

def slotFind (d : Data) (peer : Addr) (id : UInt8) (outbound : Bool) : Option Handle :=
  (half outbound).find? fun i => (d.s i).state != .free && (d.s i).id == id && (d.s i).peer == peer

def byHandle (d : Data) (h : UInt8) : Option Handle :=
  if hlt : h.toNat < 8 then
    if (d.s ⟨h.toNat, hlt⟩).state = .free then none else some ⟨h.toNat, hlt⟩
  else none

def emit (d : Data) (peer : Addr) (id : UInt8) (op : Byte) (extra : List Byte) : Data :=
  { d with out := d.out ++ [(peer, op :: id :: extra)] }

def sendOp (d : Data) (i : Handle) (op : Byte) (extra : List Byte) (now : Time) : Data :=
  (d.emit (d.s i).peer (d.s i).id op extra).upd i fun s => { s with lastTx := now }

/-- Clears the slot before the hook. -/
def finish (d : Data) (i : Handle) (result : Byte) (app : App) : Data :=
  let outbound := (d.s i).outbound
  let d := d.upd i fun _ => .zero
  if outbound then app ({ d with nSent := if result = dataOk then d.nSent + 1 else d.nSent }.note (.sent i result))
  else app ({ d with nReceived := if result = dataOk then d.nReceived + 1 else d.nReceived }.note (.received i result))

end Data

def chunksFor (total : UInt32) : UInt16 := ((total + 60 - 1) / 60).toUInt16

/-! ## Sending -/

/-- A C string, cut to the name field. -/
def nameField (name : List Byte) : List Byte := (name.takeWhile (· ≠ 0)).take nameMax

def offerExtra (s : Stream) : List Byte :=
  s.kind :: (put32 s.total ++ put32 s.crc ++ [UInt8.ofNat s.name.length] ++ s.name)

/-- The stream a send begins with. -/
def outboundStream (d : Data) (peer : Addr) (kind : UInt8) (name data : List Byte) (now : Time) : Stream :=
  { Stream.zero with
    state := .offering, outbound := true, id := d.nextId, peer := peer, kind := kind, total := UInt32.ofNat data.length,
    src := data, crc := contentCrc data, window := d.window, rewoundTo := noRewind, lastRx := now,
    name := nameField name }

/-- A null pointer is an empty list. -/
def dataSend (d : Data) (peer : Addr) (kind : UInt8) (name data : List Byte) (now : Time) : Except Byte Handle × Data :=
  let d := { d with sends := d.sends + 1 }
  if data.length = 0 then (.error dataCorrupt, d)
  else
    match d.slotFree true with
    | none => (.error dataNoStream, d)
    | some i =>
      let s := outboundStream d peer kind name data now
      let d := d.upd i fun _ => s
      let d := { d with nextId := if d.nextId + 1 = 0 then 1 else d.nextId + 1 }
      (.ok i, (d.note (.begun i s.id data)).sendOp i opOffer (offerExtra s) now)

/-- The bytes of chunk `seq`. -/
def piece (content : List Byte) (seq : UInt16) : List Byte := (content.drop (seq.toNat * chunkBytes)).take chunkBytes

def sendChunk (d : Data) (i : Handle) (now : Time) : Data :=
  (d.sendOp i opChunk (put16 (d.s i).nextSeq ++ piece (d.s i).src (d.s i).nextSeq) now).upd i fun s =>
    { s with nextSeq := s.nextSeq + 1 }

def Stream.drain (s : Stream) : Stream := { s with state := .draining }

/-- At most one turn for each chunk that is left. -/
def pumpLoop (totalChunks : UInt16) (i : Handle) (now : Time) : Nat → Data → Data
  | 0, d => d
  | n + 1, d =>
    if (d.s i).nextSeq < totalChunks ∧ (d.s i).nextSeq - (d.s i).acked < (d.s i).window.toUInt16 then
      pumpLoop totalChunks i now n (sendChunk d i now)
    else d

def pumpSender (d : Data) (i : Handle) (now : Time) : Data :=
  let totalChunks := chunksFor (d.s i).total
  let d := pumpLoop totalChunks i now (totalChunks.toNat - (d.s i).nextSeq.toNat) d
  if (d.s i).nextSeq ≥ totalChunks ∧ (d.s i).state = .sending then d.upd i Stream.drain else d

/-! ## The application's calls -/

def dataAccept (d : Data) (stream : UInt8) (now : Time) : Data :=
  match d.byHandle stream with
  | none => d
  | some i =>
    if (d.s i).state ≠ .offered then d
    else (d.upd i fun s => { s with state := .receiving, lastRx := now }).sendOp i opAccept [d.window] now

def dataReject (d : Data) (stream : UInt8) (now : Time) : Data :=
  match d.byHandle stream with
  | none => d
  | some i =>
    if (d.s i).state ≠ .offered then d
    else
      let d := d.sendOp i opReject [dataRefused] now
      { d with nRefused := d.nRefused + 1 }.upd i fun _ => .zero

def dataCancel (d : Data) (stream : UInt8) (now : Time) (app : App) : Data :=
  match d.byHandle stream with
  | none => d
  | some i => (d.sendOp i opAbort [dataCancelled] now).finish i dataCancelled app

inductive Call where
  | accept (stream : UInt8)
  | reject (stream : UInt8)
  | cancel (stream : UInt8)
  | send (peer : Addr) (kind : UInt8) (name data : List Byte)
  deriving DecidableEq

/-- `app` is what a cancel's hook leads to. -/
def Call.perform (c : Call) (now : Time) (app : App) (d : Data) : Data :=
  match c with
  | .accept stream => dataAccept d stream now
  | .reject stream => dataReject d stream now
  | .cancel stream => dataCancel d stream now app
  | .send peer kind name data => (dataSend d peer kind name data now).2

/-- Calls one after another; `inner` runs inside the hook the call fires, if it does. -/
inductive Script where
  | done
  | call (c : Call) (inner rest : Script)
  deriving DecidableEq

def Script.run (now : Time) : Script → App
  | .done => id
  | .call c inner rest => fun d => rest.run now (c.perform now (inner.run now) d)

/-! ## Receiving -/

def sendAck (d : Data) (i : Handle) (now : Time) : Data :=
  d.sendOp i opAck (put16 (d.s i).nextSeq ++ [(d.s i).window]) now

/-- The stream an offer begins with. -/
def inboundStream (d : Data) (peer : Addr) (id : UInt8) (p : List Byte) (now : Time) : Stream :=
  let nl := byteAt p 9
  let nl := if nl.toNat > nameMax || 10 + nl.toNat > p.length then 0 else nl.toNat
  { Stream.zero with
    state := .offered, id := id, peer := peer, kind := byteAt p 0, total := get32 p 1, crc := get32 p 5,
    window := d.window, running := adlerInit, lastRx := now, name := nameField ((p.drop 10).take nl) }

/-- The name's length is read one byte past a body of nine, which leaves no name. -/
def rxOffer (d : Data) (peer : Addr) (id : UInt8) (p : List Byte) (now : Time) (app : App) : Data :=
  if p.length < offerFixed - 2 then d
  else
    match d.slotFind peer id false with
    | some i => if (d.s i).state = .receiving then sendAck d i now else d
    | none =>
      match d.slotFree false with
      | none => d.emit peer id opReject [dataNoStream]
      | some i =>
        let s := inboundStream d peer id p now
        let d := d.upd i fun _ => s
        if s.total = 0 || s.total > d.maxInbound then (d.sendOp i opReject [dataTooBig] now).upd i fun _ => .zero
        else app (d.note (.offered i id peer s.kind s.total s.name))

/-- The chunk's offset, in 32 bits. -/
def offsetOf (seq : UInt16) : UInt32 := seq.toUInt32 * 60

/-- Acknowledge once per half window. -/
def ackEvery (window : UInt8) : UInt16 := (if window / 2 ≠ 0 then window / 2 else 1).toUInt16

/-- What follows a chunk handed to the application. -/
def afterChunk (d : Data) (i : Handle) (now : Time) (app : App) : Data :=
  let d := d.upd i fun s => { s with nextSeq := s.nextSeq + 1, acked := s.nextSeq + 1 }
  let s := d.s i
  if s.nextSeq ≥ chunksFor s.total then
    let verdict := if s.running = s.crc then dataOk else dataCorrupt
    (d.sendOp i opDone [verdict] now).finish i verdict app
  else if s.nextSeq % ackEvery s.window = 0 then sendAck d i now
  else d

/-- `app 0` and `app 1`: the first hook called and the second. -/
def rxChunk (d : Data) (i : Handle) (p : List Byte) (now : Time) (app : Fin 2 → App) : Data :=
  if p.length < 2 || (d.s i).state != .receiving then d
  else
    let seq := get16 p 0
    let data := p.drop 2
    let d := d.upd i fun s => { s with lastRx := now }
    if seq ≠ (d.s i).nextSeq then
      if timeAfter now ((d.s i).lastTx + 20) then sendAck d i now else d
    else if offsetOf seq + UInt32.ofNat data.length > (d.s i).total then
      (d.sendOp i opAbort [dataCorrupt] now).finish i dataCorrupt (app 0)
    else
      let d := d.upd i fun s => { s with running := adler32Update s.running data }
      afterChunk (app 0 (d.note (.chunk i (offsetOf seq) data))) i now (app 1)

/-- Respect the receiver's window, if byte `k` of its message names one. -/
def Stream.takeWindow (p : List Byte) (k : Nat) (s : Stream) : Stream :=
  if k + 1 ≤ p.length ∧ byteAt p k > 0 then { s with window := byteAt p k } else s

/-- Forward progress, so a later loss is a new event. -/
def Stream.progress (next : UInt16) (s : Stream) : Stream :=
  if next > s.acked then { s with acked := next, rewoundTo := noRewind } else s

def Stream.rewind (next : UInt16) (s : Stream) : Stream := { s with nextSeq := next, rewoundTo := next }

def Stream.resume (s : Stream) : Stream := { s with state := .sending }

/-- One rewind for each loss: the receiver is behind, and that is news. -/
def rxAck (d : Data) (i : Handle) (p : List Byte) (now : Time) : Data :=
  if 2 ≤ p.length ∧ ((d.s i).state = .sending ∨ (d.s i).state = .draining) then
    let next := get16 p 0
    let d := d.upd i (Stream.progress next)
    let d :=
      if next < (d.s i).nextSeq ∧ (d.s i).rewoundTo ≠ next then
        { d with nRetransmits := d.nRetransmits + 1 }.upd i (Stream.rewind next)
      else d
    pumpSender ((d.upd i (Stream.takeWindow p 2)).upd i Stream.resume) i now
  else d

def rxAccept (d : Data) (i : Handle) (p : List Byte) (now : Time) : Data :=
  if (d.s i).state = .offering then pumpSender ((d.upd i (Stream.takeWindow p 0)).upd i Stream.resume) i now else d

/-- A result the peer names, or the default. -/
def resultOf (p : List Byte) (default : Byte) : Byte := if 1 ≤ p.length then byteAt p 0 else default

/-- The stream a message other than an offer is for. -/
def Data.addressee (d : Data) (peer : Addr) (id : UInt8) (op : Byte) : Option Handle :=
  if op = opAccept || op = opAck || op = opDone then d.slotFind peer id true
  else (d.slotFind peer id false).or (d.slotFind peer id true)

/-- A message other than an offer, for the stream at `i`. -/
def rxStream (d : Data) (i : Handle) (op : Byte) (p : List Byte) (now : Time) (app : Fin 2 → App) : Data :=
  let d := d.upd i fun s => { s with lastRx := now, retries := 0 }
  if op = opAccept then rxAccept d i p now
  else if op = opReject then d.finish i (resultOf p dataRefused) (app 0)
  else if op = opChunk then rxChunk d i p now app
  else if op = opAck then rxAck d i p now
  else if op = opDone then d.finish i (resultOf p dataOk) (app 0)
  else if op = opAbort then d.finish i (resultOf p dataCancelled) (app 0)
  else d

def dataRx (d : Data) (f : Frame) (now : Time) (app : Fin 2 → App) : Data :=
  if f.type ≠ msgData ∨ f.payload.length < 2 then d
  else
    let op := byteAt f.payload 0
    let id := byteAt f.payload 1
    let p := f.payload.drop 2
    if op = opOffer then rxOffer d f.src id p now (app 0)
    else
      match d.addressee f.src id op with
      | none => d
      | some i => rxStream d i op p now app

/-! ## Time -/

/-- How long a sender waits, and how often: an offer longer than a chunk. -/
def Data.patience (d : Data) (s : Stream) : UInt16 := if s.state = .offering then d.offerTimeoutMs else d.ackTimeoutMs
def Data.budget (d : Data) (s : Stream) : UInt8 := if s.state = .offering then d.offerRetries else d.maxRetries

/-- Back to the last confirmed chunk. -/
def Stream.restart (s : Stream) : Stream := { s with nextSeq := s.acked, rewoundTo := noRewind, state := .sending }

/-- What a sender repeats when nothing came back. -/
def resend (d : Data) (i : Handle) (now : Time) : Data :=
  match (d.s i).state with
  | .offering => d.sendOp i opOffer (offerExtra (d.s i)) now
  | .sending | .draining => pumpSender { d.upd i Stream.restart with nRetransmits := d.nRetransmits + 1 } i now
  | _ => d

/-- The turn of one slot; no slot calls more than one hook. -/
def tickSlot (now : Time) (app : Handle → App) (d : Data) (i : Handle) : Data :=
  let s := d.s i
  if s.state = .free then d
  else if timeAfter now (s.lastRx + d.idleTimeoutMs.toUInt32) then d.finish i dataTimeout (app i)
  else if !s.outbound then d
  else if !timeAfter now (s.lastTx + (d.patience s).toUInt32) then d
  else
    let budget := d.budget s
    let d := d.upd i fun s => { s with retries := s.retries + 1 }
    if (d.s i).retries > budget then (d.sendOp i opAbort [dataTimeout] now).finish i dataTimeout (app i)
    else resend d i now

def dataTick (d : Data) (now : Time) (app : Handle → App) : Data :=
  (List.finRange (8)).foldl (tickSlot now app) d

/-! ## What an update leaves alone -/

namespace Data

variable (d : Data) (i : Handle) (f : Stream → Stream) (n : Note) (op : Byte) (extra : List Byte) (now : Time)

@[simp] theorem upd_self : (d.upd i f).s i = f (d.s i) := Function.update_self ..
@[simp] theorem upd_ne {j : Handle} (h : j ≠ i) : (d.upd i f).s j = d.s j := Function.update_of_ne h ..
theorem upd_upd (g : Stream → Stream) : (d.upd i f).upd i g = d.upd i fun s => g (f s) := by
  simp only [upd, Function.update_self, Function.update_idem]
@[simp] theorem upd_notes : (d.upd i f).notes = d.notes := rfl
@[simp] theorem upd_out : (d.upd i f).out = d.out := rfl
@[simp] theorem note_s : (d.note n).s = d.s := rfl
@[simp] theorem note_notes : (d.note n).notes = d.notes ++ [n] := rfl
@[simp] theorem note_out : (d.note n).out = d.out := rfl
@[simp] theorem sendOp_self : (d.sendOp i op extra now).s i = { d.s i with lastTx := now } := Function.update_self ..
@[simp] theorem sendOp_ne {j : Handle} (h : j ≠ i) : (d.sendOp i op extra now).s j = d.s j :=
  Function.update_of_ne h ..
@[simp] theorem sendOp_notes : (d.sendOp i op extra now).notes = d.notes := rfl
@[simp] theorem sendOp_out : (d.sendOp i op extra now).out = d.out ++ [((d.s i).peer, op :: (d.s i).id :: extra)] := rfl

/-- The stream a slot search finds is in use, and the one asked for. -/
theorem slotFind_some {peer : Addr} {id : UInt8} {outbound : Bool} {i : Handle}
    (h : d.slotFind peer id outbound = some i) : (d.s i).state ≠ .free ∧ (d.s i).id = id ∧ (d.s i).peer = peer := by
  have := List.find?_some h
  simpa [and_assoc] using this

theorem slotFree_some {outbound : Bool} {i : Handle} (h : d.slotFree outbound = some i) : (d.s i).state = .free := by
  simpa using List.find?_some h

theorem byHandle_some {h : UInt8} {i : Handle} (hh : d.byHandle h = some i) :
    h.toNat = i.val ∧ (d.s i).state ≠ .free := by
  unfold byHandle at hh
  split at hh
  · split at hh
    · cases hh
    · rename_i hs
      cases hh
      exact ⟨rfl, hs⟩
  · cases hh

theorem addressee_some {peer : Addr} {id : UInt8} {op : Byte} {i : Handle} (h : d.addressee peer id op = some i) :
    (d.s i).state ≠ .free ∧ (d.s i).id = id ∧ (d.s i).peer = peer := by
  unfold addressee at h
  split at h
  · exact d.slotFind_some h
  · rcases Option.or_eq_some_iff.mp h with h | ⟨-, h⟩
    · exact d.slotFind_some h
    · exact d.slotFind_some h

end Data

end DeskHop.Bulk
