/-
  DeskHop.Client.TxRing — the ring in which a board keeps what its client has yet to fetch
  (`firmware/rp2040/src/clientlink.c`).

  The ring is an array with a head and a tail; the client link elsewhere has a byte queue in
  its place (`ClientLink.tx`). Here are the functions that touch the ring, as the source has
  them, on the array.

  Proved: each does to the queue the ring stands for (`Ringed.queue`) what its counterpart
  does to the byte queue, so over every run of a board's client link the reports that go out
  are the same, byte for byte (`ring_reports`), and what is known of the reports of the one
  is true of the other.
-/

import DeskHop.Client.Reports
import DeskHop.Lib.RingBuffer

namespace DeskHop.Client

open DeskHop.Lib DeskHop.Routing DeskHop.Wire

/-! ## The array -/

/-- `tx[2048]`, `tx_head` and `tx_tail`. -/
abbrev TxRing := RingBuffer Byte txRoom

namespace TxRing

def init : TxRing := ⟨fun _ => 0, 0, 0⟩

def push (r : TxRing) : List Byte → TxRing
  | [] => r
  | b :: d =>
    let next := r.head + 1
    if next = r.tail then r -- the client is not draining
    else push { r with buf := Function.update r.buf r.head b, head := next } d

def pending (r : TxRing) : Nat := (r.head.val + (txRoom + 1) - r.tail.val) % (txRoom + 1)

/-- At most `n` bytes. -/
def fetch : Nat → TxRing → List Byte × TxRing
  | 0, r => ([], r)
  | n + 1, r =>
    if r.tail = r.head then ([], r)
    else
      let (bs, r') := fetch n { r with tail := r.tail + 1 }
      (r.buf r.tail :: bs, r')

def clear (r : TxRing) : TxRing := { r with head := 0, tail := 0 }

end TxRing

/-! ## The client link over it -/

/-- A client link and its ring; the queue of `cl` is not used. -/
structure Ringed where
  cl : ClientLink
  ring : TxRing

namespace Ringed

def init : Ringed := ⟨clientInit, .init⟩

/-- The client link with the queue the ring stands for. -/
def queue (c : Ringed) : ClientLink := { c.cl with tx := c.ring.contents }

def sendLocal (c : Ringed) (type : MsgType) (src dst : Addr) (seq : UInt16) (payload : List Byte) : Ringed :=
  match frameEncode ⟨type, ttlDefault, src, dst, seq, payload, []⟩ c.cl.key wireMax with
  | .ok wire => { c with ring := c.ring.push wire }
  | .error _ => c

def deliver (c : Ringed) (f : Frame) : Ringed :=
  if !c.cl.attached then c
  else
    let c := c.sendLocal f.type f.src f.dst f.seq f.payload
    { c with cl := { c.cl with nToClient := c.cl.nToClient + 1 } }

def sendStatus (c : Ringed) (r : Router) (now : Time) : Ringed :=
  let seq := c.cl.txSeq
  let c := sendLocal { c with cl := { c.cl with txSeq := c.cl.txSeq + 1 } } msgCap r.cfg.self clientAddr seq
    (localStatusPack (statusOf r))
  { c with cl := { c.cl with nextStatus := now + 1000 } }

/-- Also the report the client is to fetch. -/
def task (c : Ringed) (r : Router) (ready : Bool) (now : Time) : Ringed × Option (List Byte) :=
  if c.cl.attached && timeAfter now (c.cl.lastRx + clientTimeoutMs) then
    ({ cl := { c.cl with attached := false, clientCaps := 0, framer := framerInit }, ring := c.ring.clear }, none)
  else if !c.cl.attached then (c, none)
  else
    let c := if timeAfter now c.cl.nextStatus then c.sendStatus r now else c
    if c.ring.pending = 0 || !ready then (c, none)
    else
      let (report, ring) := c.ring.fetch clientReportBytes
      ({ c with ring := ring }, some (report ++ List.replicate (clientReportBytes - report.length) flag))

/-- What was sent, and the state; the events are those of `Feed`. -/
def step (s : Ringed × List (List Byte)) : Feed.Event → Ringed × List (List Byte)
  | .deliver f => (s.1.deliver f, s.2)
  | .report chain data now => ({ s.1 with cl := (clientRxReport s.1.cl chain data now).1 }, s.2)
  | .task r ready now =>
    let (c, report) := s.1.task r ready now
    (c, s.2 ++ report.toList)

def run (es : List Feed.Event) : Ringed × List (List Byte) := es.foldl step (init, [])

end Ringed

/-! ## The queue in the array -/

namespace TxRing

theorem push_cons (r : TxRing) (b : Byte) (d : List Byte) :
    r.push (b :: d) = if (RingBuffer.push r b).1 then TxRing.push (RingBuffer.push r b).2 d else r := by
  by_cases hf : r.head + 1 = r.tail
  · simp [TxRing.push, RingBuffer.push, RingBuffer.isFull, hf]
  · simp [TxRing.push, RingBuffer.push, RingBuffer.isFull, RingBuffer.store, RingBuffer.publish, hf]

theorem contents_push (d : List Byte) (r : TxRing) :
    (r.push d).contents = r.contents ++ d.take (txRoom - r.contents.length) := by
  induction d generalizing r with
  | nil => simp [TxRing.push]
  | cons b d ih =>
    obtain ⟨hok, hcontents⟩ := RingBuffer.contents_push r b
    rw [push_cons, hok]
    by_cases hlt : r.contents.length < txRoom
    · rw [if_pos hlt] at hcontents
      have hroom : txRoom - r.contents.length = txRoom - (r.contents ++ [b]).length + 1 := by
        rw [List.length_append, List.length_singleton]
        omega
      rw [if_pos (decide_eq_true hlt), ih, hcontents, hroom, List.take_succ_cons, List.append_assoc, List.singleton_append]
    · have hnone : txRoom - r.contents.length = 0 := by omega
      rw [if_neg (by simpa using hlt), hnone, List.take_zero, List.append_nil]

theorem pending_eq (r : TxRing) : r.pending = r.contents.length := by
  rw [RingBuffer.length_contents, RingBuffer.held, Fin.val_sub, pending]
  congr 1
  have := r.tail.isLt
  omega

theorem fetch_eq (n : Nat) (r : TxRing) :
    (fetch n r).1 = r.contents.take n ∧ (fetch n r).2.contents = r.contents.drop n := by
  induction n generalizing r with
  | zero => exact ⟨rfl, rfl⟩
  | succ n ih =>
    obtain ⟨hfirst, hrest⟩ := RingBuffer.contents_pop r
    by_cases he : r.tail = r.head
    · have hpop : RingBuffer.pop r = (none, r) := by simp [RingBuffer.pop, RingBuffer.isEmpty, he]
      rw [hpop] at hfirst
      have hnil : r.contents = [] := List.head?_eq_none_iff.mp hfirst.symm
      rw [fetch, if_pos he]
      exact ⟨by rw [hnil, List.take_nil], by rw [hnil, List.drop_nil]⟩
    · have hne : ¬r.head = r.tail := fun h => he h.symm
      have hpop : RingBuffer.pop r = (some (r.buf r.tail), { r with tail := r.tail + 1 }) := by
        simp [RingBuffer.pop, RingBuffer.isEmpty, RingBuffer.front, RingBuffer.advance, hne]
      rw [hpop] at hfirst hrest
      obtain ⟨hbs, hleft⟩ := ih { r with tail := r.tail + 1 }
      have hcons : r.contents = r.buf r.tail :: r.contents.tail := (List.cons_head?_tail hfirst.symm).symm
      rw [fetch, if_neg he, hcons, List.take_succ_cons, List.drop_succ_cons, ← hrest]
      exact ⟨congrArg (List.cons _) hbs, hleft⟩

end TxRing

/-! ## The client link over a queue -/

/-- What comes from the client does not touch the queue. -/
theorem rxByte_tx (cl : ClientLink) (q : List Byte) (chain : Link) (b : Byte) (now : Time) :
    clientRxByte { cl with tx := q } chain b now =
      ({ (clientRxByte cl chain b now).1 with tx := q }, (clientRxByte cl chain b now).2) := by
  simp only [clientRxByte]
  cases (framerPush cl.framer b (some cl.key)).2 with
  | error e => rfl
  | ok f =>
    simp only [handleFromClient]
    split
    · cases localAttachUnpack f.payload with
      | none => rfl
      | some caps => cases cl.attached <;> rfl
    · split
      · rfl
      · cases cl.attached <;> rfl

theorem rxReport_tx (data : List Byte) (cl : ClientLink) (q : List Byte) (chain : Link) (now : Time) :
    clientRxReport { cl with tx := q } chain data now =
      ({ (clientRxReport cl chain data now).1 with tx := q }, (clientRxReport cl chain data now).2) := by
  unfold clientRxReport
  induction data generalizing cl chain with
  | nil => rfl
  | cons b data ih =>
    rw [List.foldl_cons, List.foldl_cons, rxByte_tx]
    exact ih _ _

namespace Ringed

variable (c : Ringed)

theorem queue_sendLocal (type : MsgType) (src dst : Addr) (seq : UInt16) (payload : List Byte) :
    (c.sendLocal type src dst seq payload).queue = Client.sendLocal c.queue type src dst seq payload := by
  have hkey : c.queue.key = c.cl.key := rfl
  unfold sendLocal Client.sendLocal
  rw [hkey]
  cases frameEncode ⟨type, ttlDefault, src, dst, seq, payload, []⟩ c.cl.key wireMax with
  | error e => rfl
  | ok wire =>
    simp only [queue, TxRing.contents_push]
    rfl

theorem queue_deliver (f : Frame) : (c.deliver f).queue = clientDeliver c.queue f := by
  have hattached : c.queue.attached = c.cl.attached := rfl
  unfold deliver clientDeliver
  rw [hattached]
  split
  · rfl
  · rw [← queue_sendLocal]
    rfl

theorem queue_sendStatus (r : Router) (now : Time) : (c.sendStatus r now).queue = Client.sendStatus c.queue r now := by
  have hsend := queue_sendLocal { c with cl := { c.cl with txSeq := c.cl.txSeq + 1 } } msgCap r.cfg.self clientAddr
    c.cl.txSeq (localStatusPack (statusOf r))
  have hqueue : Client.sendStatus c.queue r now =
      { Client.sendLocal (queue { c with cl := { c.cl with txSeq := c.cl.txSeq + 1 } }) msgCap r.cfg.self clientAddr
          c.cl.txSeq (localStatusPack (statusOf r)) with nextStatus := now + 1000 } := rfl
  rw [hqueue, ← hsend, sendStatus]
  generalize sendLocal _ _ _ _ _ _ = s
  rfl

theorem task_queue (r : Router) (ready : Bool) (now : Time) :
    (c.task r ready now).1.queue = (clientTask c.queue r ready now).1 ∧
      (c.task r ready now).2 = (clientTask c.queue r ready now).2 := by
  have hattached : c.queue.attached = c.cl.attached := rfl
  have hlast : c.queue.lastRx = c.cl.lastRx := rfl
  have hdue : c.queue.nextStatus = c.cl.nextStatus := rfl
  unfold task clientTask
  rw [hattached, hlast, hdue]
  split
  · exact ⟨rfl, rfl⟩
  split
  · exact ⟨rfl, rfl⟩
  -- with or without a STATUS, the same bytes wait
  have hafter : (if timeAfter now c.cl.nextStatus then Client.sendStatus c.queue r now else c.queue) =
      (if timeAfter now c.cl.nextStatus then c.sendStatus r now else c).queue := by
    split
    · exact (c.queue_sendStatus r now).symm
    · rfl
  rw [hafter]
  generalize (if timeAfter now c.cl.nextStatus then c.sendStatus r now else c) = c'
  have hpending : c'.ring.pending = c'.queue.tx.length := c'.ring.pending_eq
  obtain ⟨hreport, hring⟩ := c'.ring.fetch_eq clientReportBytes
  simp only [hpending]
  split
  · exact ⟨rfl, rfl⟩
  · simp only [queue, hreport, hring, and_self]

theorem step_queue (reports : List (List Byte)) (d : Feed) (e : Feed.Event) (hq : c.queue = d.cl)
    (hr : reports = d.reports) :
    (step (c, reports) e).1.queue = (d.step e).cl ∧ (step (c, reports) e).2 = (d.step e).reports := by
  cases e with
  | deliver f =>
    have hcl := c.queue_deliver f
    rw [hq] at hcl
    exact ⟨hcl, hr⟩
  | report chain data now =>
    refine ⟨?_, hr⟩
    have hsame := rxReport_tx data c.cl c.ring.contents chain now
    change ({ c with cl := (clientRxReport c.cl chain data now).1 } : Ringed).queue = (clientRxReport d.cl chain data now).1
    rw [← hq, queue, queue, hsame]
  | task r ready now =>
    obtain ⟨hcl, hreport⟩ := c.task_queue r ready now
    rw [hq] at hcl hreport
    simp only [step, Feed.step, hcl, hreport, hr, and_self]

/-- The array and the queue send the same reports, whatever comes when. -/
theorem ring_reports (es : List Feed.Event) :
    (run es).1.queue = (Feed.run es).cl ∧ (run es).2 = (Feed.run es).reports := by
  unfold run Feed.run
  have hstart : init.queue = Feed.start.cl ∧ ([] : List (List Byte)) = Feed.start.reports := ⟨rfl, rfl⟩
  generalize init = c, ([] : List (List Byte)) = reports, Feed.start = d at hstart
  induction es generalizing c reports d with
  | nil => exact hstart
  | cons e es ih =>
    have hstep := c.step_queue reports d e hstart.1 hstart.2
    rw [List.foldl_cons, List.foldl_cons]
    exact ih (step (c, reports) e).1 (step (c, reports) e).2 (d.step e) hstep

end Ringed

end DeskHop.Client
