/-
  DeskHop.Bulk.Transfer — two endpoints of the bulk transport, one sending and one
  receiving, over a channel that loses messages but keeps their order.

  Each endpoint has its turns: its application calls the transport, its timer ticks,
  the next message for it arrives. What it sends to the other joins the queue of that
  direction, from which any message may be lost (`Transfer.step`). Reactions to hooks
  are part of the turn.

  What the applications are told is read off the logs of hook calls: `streamOf` and
  `delivered` say, of a log, which stream a handle stands for and what it was given of
  it, and `Faithful` is the contract of the transport.
-/

import DeskHop.Bulk.Data
import DeskHop.Lib.History
import DeskHop.Lib.Reach

namespace DeskHop.Bulk

open DeskHop.Lib DeskHop.Wire

/-! ## Reading a log -/

/-- The id of the stream a handle was last given to. -/
def streamStep (h : Handle) (acc : Option UInt8) : Note → Option UInt8
  | .begun h' id _ => if h' = h then some id else acc
  | .offered h' id _ _ _ _ => if h' = h then some id else acc
  | _ => acc

def streamOf (h : Handle) (notes : List Note) : Option UInt8 := notes.foldl (streamStep h) none

/-- What the application was given on a handle since its last offer. -/
def deliveredStep (h : Handle) (acc : List Byte) : Note → List Byte
  | .offered h' _ _ _ _ _ => if h' = h then [] else acc
  | .chunk h' _ data => if h' = h then acc ++ data else acc
  | _ => acc

def delivered (h : Handle) (notes : List Note) : List Byte := notes.foldl (deliveredStep h) []

/-- The content sent under a stream id. -/
def contentOf (notes : List Note) (id : UInt8) : Option (List Byte) :=
  notes.findSome? fun
    | .begun _ id' content => if id' = id then some content else none
    | _ => none

/-- Stream `id` has been reported received and sound. -/
def Reported (notes : List Note) (id : UInt8) : Prop :=
  ∃ pre h post, notes = pre ++ .received h dataOk :: post ∧ streamOf h pre = some id

/-! ## Reactions -/

def Script.all (p : Call → Bool) : Script → Bool
  | .done => true
  | .call c inner rest => p c && inner.all p && rest.all p

def Call.isSend : Call → Bool
  | .send .. => true
  | _ => false

def Call.isCancel (h : Handle) : Call → Bool
  | .cancel stream => stream.toNat == h.val
  | _ => false

/-- The largest content 65535 chunks hold. -/
def contentMax : Nat := 3932100

/-- A send to `peer`, which takes contents of up to `maxInbound` bytes. -/
def Call.fits (peer : Addr) (maxInbound : UInt32) : Call → Bool
  | .send peer' _ _ data =>
    peer' == peer && 1 ≤ data.length && data.length ≤ contentMax && data.length ≤ maxInbound.toNat
  | _ => true

/-- A turn of an endpoint, with what its application makes of the hooks. -/
inductive Act where
  | app (script : Script) (now : Time)
  | tick (react : Handle → Script) (now : Time)
  | rx (react : Fin 2 → Script) (now : Time)

def Act.all (p : Call → Bool) : Act → Bool
  | .app script _ => script.all p
  | .tick react _ => decide (∀ h, (react h).all p = true)
  | .rx react _ => decide (∀ k, (react k).all p = true)

/-- The handle whose chunk hook a message calls. -/
def Data.handsChunk (d : Data) (src : Addr) (payload : List Byte) : Option Handle :=
  let p := payload.drop 2
  (d.addressee src (byteAt payload 1) opChunk).filter fun i =>
    byteAt payload 0 == opChunk && 2 ≤ p.length && (d.s i).state == .receiving && get16 p 0 == (d.s i).nextSeq &&
      offsetOf (get16 p 0) + UInt32.ofNat (p.drop 2).length ≤ (d.s i).total

/-! ## The two endpoints -/

structure Transfer where
  sender : Data
  receiver : Data
  addrS : Addr
  addrR : Addr
  /-- On the way to the receiver, next one first. -/
  toR : List (List Byte)
  toS : List (List Byte)
  deriving DecidableEq

def dataFrame (src dst : Addr) (payload : List Byte) : Frame :=
  { type := msgData, ttl := ttlDefault, src := src, dst := dst, seq := 0, payload := payload, body := [] }

def turn (d : Data) (inbox : List (List Byte)) (src dst : Addr) : Act → Data
  | .app script now => script.run now d
  | .tick react now => dataTick d now fun h => (react h).run now
  | .rx react now =>
    match inbox with
    | [] => d
    | p :: _ => dataRx d (dataFrame src dst p) now fun k => (react k).run now

/-- What a turn leaves of the queue. -/
def unread (inbox : List (List Byte)) : Act → List (List Byte)
  | .rx _ _ => inbox.tail
  | _ => inbox

def Data.mail (d : Data) (peer : Addr) : List (List Byte) := (d.out.filter (·.1 = peer)).map (·.2)

def Data.posted (d : Data) : Data := { d with out := [] }

namespace Transfer

inductive Event where
  | sender (e : Act)
  | receiver (e : Act)
  | loseToR (k : Nat)
  | loseToS (k : Nat)

def step (t : Transfer) : Event → Transfer
  | .sender e =>
    let d := turn t.sender t.toS t.addrR t.addrS e
    { t with sender := d.posted, toS := unread t.toS e, toR := t.toR ++ d.mail t.addrR }
  | .receiver e =>
    let d := turn t.receiver t.toR t.addrS t.addrR e
    { t with receiver := d.posted, toR := unread t.toR e, toS := t.toS ++ d.mail t.addrS }
  | .loseToR k => { t with toR := t.toR.eraseIdx k }
  | .loseToS k => { t with toS := t.toS.eraseIdx k }

/-- Fresh endpoints, however they are configured, and nothing on the way. -/
def Idle (d : Data) : Prop :=
  d.s = dataInit.s ∧ d.nextId = 1 ∧ d.sends = 0 ∧ d.out = [] ∧ d.notes = []

def Opened (t : Transfer) : Prop := Idle t.sender ∧ Idle t.receiver ∧ t.toR = [] ∧ t.toS = []

/-- The handle whose chunk hook a turn calls. -/
def handsChunk (t : Transfer) : Act → Option Handle
  | .rx _ _ => t.toR.head?.bind (t.receiver.handsChunk t.addrS)
  | _ => none

/-- Fewer than 255 sends, of contents that fit; the receiving side sends nothing. -/
def Lawful (t : Transfer) : Event → Prop
  | .sender e => e.all (Call.fits t.addrR t.receiver.maxInbound) = true ∧ (t.step (.sender e)).sender.sends < 255
  | .receiver e => e.all (fun c => !c.isSend) = true
  | _ => True

/-- No stream is cancelled from inside its own chunk hook. -/
def Calm (t : Transfer) (e : Event) : Prop :=
  Lawful t e ∧
    match e with
    | .receiver (.rx react now) =>
      ∀ h, t.handsChunk (.rx react now) = some h → (react ⟨0, Nat.two_pos⟩).all (fun c => !c.isCancel h) = true
    | _ => True

/-- The contract: chunks are consecutive pieces of the content, a stream reported sound
    has been handed over whole, and what the sender is told was sent had been. -/
structure Faithful (t : Transfer) : Prop where
  chunks : ∀ pre h off data post, t.receiver.notes = pre ++ .chunk h off data :: post →
    ∃ id content, streamOf h pre = some id ∧ contentOf t.sender.notes id = some content ∧
      off.toNat = (delivered h pre).length ∧ delivered h pre ++ data <+: content
  received : ∀ pre h post, t.receiver.notes = pre ++ .received h dataOk :: post →
    ∃ id content, streamOf h pre = some id ∧ contentOf t.sender.notes id = some content ∧
      delivered h pre = content
  sent : ∀ pre h post, t.sender.notes = pre ++ .sent h dataOk :: post →
    ∃ id, streamOf h pre = some id ∧ Reported t.receiver.notes id

end Transfer

theorem all_and (p q : Call → Bool) (script : Script) :
    script.all (fun c => p c && q c) = true ↔ script.all p = true ∧ script.all q = true := by
  induction script with
  | done => exact ⟨fun _ => ⟨rfl, rfl⟩, fun _ => rfl⟩
  | call c inner rest ihInner ihRest =>
    simp only [Script.all, Bool.and_eq_true, ihInner, ihRest]
    exact ⟨fun ⟨⟨⟨h1, h2⟩, h3, h4⟩, h5, h6⟩ => ⟨⟨⟨h1, h3⟩, h5⟩, ⟨h2, h4⟩, h6⟩,
      fun ⟨⟨⟨h1, h3⟩, h5⟩, ⟨h2, h4⟩, h6⟩ => ⟨⟨⟨h1, h2⟩, h3, h4⟩, h5, h6⟩⟩

/-! ## A log that grows -/

/-- The handle a log entry is about. -/
def Note.handle : Note → Handle
  | .begun h _ _ | .offered h _ _ _ _ _ | .chunk h _ _ | .received h _ | .sent h _ => h

theorem streamOf_snoc (h : Handle) (notes : List Note) (n : Note) :
    streamOf h (notes ++ [n]) = streamStep h (streamOf h notes) n := List.foldl_append

theorem delivered_snoc (h : Handle) (notes : List Note) (n : Note) :
    delivered h (notes ++ [n]) = deliveredStep h (delivered h notes) n := List.foldl_append

/-- An entry about one handle says nothing about the others. -/
theorem streamOf_other {h : Handle} (notes : List Note) {n : Note} (hn : n.handle ≠ h) :
    streamOf h (notes ++ [n]) = streamOf h notes := by
  rw [streamOf_snoc]
  cases n <;> first | rfl | exact if_neg hn

theorem delivered_other {h : Handle} (notes : List Note) {n : Note} (hn : n.handle ≠ h) :
    delivered h (notes ++ [n]) = delivered h notes := by
  rw [delivered_snoc]
  cases n <;> first | rfl | exact if_neg hn

theorem contentOf_mono {notes notes' : List Note} (h : notes <+: notes') {id : UInt8} {c : List Byte}
    (hc : contentOf notes id = some c) : contentOf notes' id = some c := by
  obtain ⟨more, rfl⟩ := h
  rw [contentOf, List.findSome?_append]
  rw [contentOf] at hc
  rw [hc]
  rfl

theorem Reported.mono {notes notes' : List Note} (h : notes <+: notes') {id : UInt8} (hr : Reported notes id) :
    Reported notes' id := by
  obtain ⟨more, rfl⟩ := h
  obtain ⟨pre, k, post, rfl, hs⟩ := hr
  exact ⟨pre, k, post ++ more, by simp, hs⟩

theorem Reported.snoc {notes : List Note} {h : Handle} {id : UInt8} (hs : streamOf h notes = some id) :
    Reported (notes ++ [.received h dataOk]) id := ⟨notes, h, [], rfl, hs⟩

end DeskHop.Bulk
