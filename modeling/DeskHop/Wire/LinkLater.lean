/-
  DeskHop.Wire.LinkLater — the link, by a clock that is later by a constant.

  A frame is sent, decoded, judged and relayed whatever the time (`linkSend_retimed`,
  `accept_retimed`); when a port was last heard is looked at only while it has a
  neighbour (`Link.Later`).
-/

import DeskHop.Core.Later
import DeskHop.Lib.Outputs
import DeskHop.Wire.Link

namespace DeskHop.Wire

/-- Out of one port only; the number is used up if the frame was sent. -/
def linkSendPort (l : Link) (p : Port) (type : MsgType) (dst : Addr) (payload : List Byte) : Result × Link :=
  let (r, l) := emitFrame l p (ownFrame l type dst payload)
  (r, if r = .ok then { l with txSeq := l.txSeq + 1 } else l)

def linkHasNeighbour (l : Link) (p : Port) : Bool := (l.port p).neighbour

inductive LinkOp where
  | setKey (key : Key)
  | clearKey
  | rxByte (p : Port) (byte : Byte) (now : Time)
  | send (type : MsgType) (dst : Addr) (payload : List Byte) (now : Time)
  | sendPort (p : Port) (type : MsgType) (dst : Addr) (payload : List Byte) (now : Time)
  | tick (now : Time)
  | hasNeighbour (p : Port)

def LinkOp.later (c : Time) : LinkOp → LinkOp
  | .rxByte p byte now => .rxByte p byte (now + c)
  | .send type dst payload now => .send type dst payload (now + c)
  | .sendPort p type dst payload now => .sendPort p type dst payload (now + c)
  | .tick now => .tick (now + c)
  | o => o

/-- What an operation returns. -/
inductive LinkReply where
  | nothing
  | result (r : Result)
  | frame (r : Except Result Frame)
  | truth (b : Bool)

namespace Link

/-- The link, its ports last heard at other times. -/
def retimed (l : Link) (a b : Time) : Link := { l with up := { l.up with lastRx := a }, down := { l.down with lastRx := b } }

def untimed (l : Link) : Link := l.retimed 0 0

def perform (l : Link) : LinkOp → Link × LinkReply
  | .setKey key => (linkSetKey l key, .nothing)
  | .clearKey => (linkClearKey l, .nothing)
  | .rxByte p byte now => ((linkRxByte l p byte now).1, .frame (linkRxByte l p byte now).2)
  | .send type dst payload _ => ((linkSend l type dst payload).2, .result (linkSend l type dst payload).1)
  | .sendPort p type dst payload _ =>
    ((linkSendPort l p type dst payload).2, .result (linkSendPort l p type dst payload).1)
  | .tick now => (linkTick l now, .nothing)
  | .hasNeighbour p => (l, .truth (linkHasNeighbour l p))

/-- One operation, and what it returns and leaves. -/
def respond (l : Link) (o : LinkOp) : Link × LinkReply × Link := ((l.perform o).1, (l.perform o).2, (l.perform o).1.untimed)

/-- `m` is `l`, and where there is a neighbour, when it was last heard is later by `c`. -/
def Later (c : Time) (l m : Link) : Prop :=
  ∃ a b, m = l.retimed a b ∧ (l.up.neighbour = true → a = l.up.lastRx + c) ∧ (l.down.neighbour = true → b = l.down.lastRx + c)

end Link

/-! ## Whatever the time -/

theorem emitFrame_retimed (l : Link) (a b : Time) (p : Port) (f : Frame) :
    emitFrame (l.retimed a b) p f = ((emitFrame l p f).1, (emitFrame l p f).2.retimed a b) := by
  have hkeyed : (l.retimed a b).hasKey = l.hasKey := rfl
  have hkey : (l.retimed a b).key = l.key := rfl
  unfold emitFrame
  rw [hkeyed, hkey]
  by_cases hk : (!l.hasKey) = true
  · rw [if_pos hk, if_pos hk]
  rw [if_neg hk, if_neg hk]
  cases frameEncode f l.key wireMax with
  | error e => rfl
  | ok wire => cases p <;> rfl

theorem linkSend_retimed (l : Link) (a b : Time) (type : MsgType) (dst : Addr) (payload : List Byte) :
    linkSend (l.retimed a b) type dst payload =
      ((linkSend l type dst payload).1, (linkSend l type dst payload).2.retimed a b) := by
  have hown : ownFrame (l.retimed a b) type dst payload = ownFrame l type dst payload := rfl
  simp only [linkSend, hown, emitFrame_retimed]
  rfl

theorem linkSendPort_retimed (l : Link) (a b : Time) (p : Port) (type : MsgType) (dst : Addr) (payload : List Byte) :
    linkSendPort (l.retimed a b) p type dst payload =
      ((linkSendPort l p type dst payload).1, (linkSendPort l p type dst payload).2.retimed a b) := by
  have hown : ownFrame (l.retimed a b) type dst payload = ownFrame l type dst payload := rfl
  simp only [linkSendPort, hown, emitFrame_retimed]
  by_cases hr : (emitFrame l p (ownFrame l type dst payload)).1 = .ok
  · simp only [if_pos hr]
    rfl
  · simp only [if_neg hr]

theorem relay_retimed (l : Link) (a b : Time) (p : Port) (f : Frame) :
    relay (l.retimed a b) p f = (relay l p f).retimed a b := by
  unfold relay
  by_cases hbody : (f.body.length = 0 || f.body.length > bodyMax) = true
  · simp only [if_pos hbody]
  simp only [if_neg hbody]
  cases frameForwardPrepare f.body with
  | error e => rfl
  | ok body => cases p <;> rfl

theorem accept_retimed (l : Link) (a b : Time) (p : Port) (f : Frame) :
    accept (l.retimed a b) p f = ((accept l p f).1.retimed a b, (accept l p f).2) := by
  have hkeyed : (l.retimed a b).hasKey = l.hasKey := rfl
  have hself : (l.retimed a b).self = l.self := rfl
  have hseen : (l.retimed a b).seen = l.seen := rfl
  have hrelay : ∀ seen, relay { l.retimed a b with seen := seen } p f = (relay { l with seen := seen } p f).retimed a b :=
    fun seen => relay_retimed { l with seen := seen } a b p f
  unfold accept
  rw [hkeyed, hself, hseen]
  by_cases hauth : (!l.hasKey && f.type != msgPair) = true
  · rw [if_pos hauth, if_pos hauth]
  by_cases hown : f.src = l.self
  · rw [if_neg hauth, if_neg hauth, if_pos hown, if_pos hown]
  rw [if_neg hauth, if_neg hauth, if_neg hown, if_neg hown]
  obtain ⟨fresh, seen⟩ := seqIsFresh l.seen f.src f.seq
  cases fresh with
  | false => rfl
  | true =>
    by_cases hdst : f.dst = l.self
    · simp only [Bool.not_true, Bool.false_eq_true, if_false, hdst, ne_eq, not_true_eq_false]
      rfl
    · simp only [Bool.not_true, Bool.false_eq_true, if_false, hdst, ne_eq, not_false_eq_true, if_true]
      exact congrArg (fun l : Link => (l, (if f.dst = l.self || f.dst = addrBroadcast then .ok f else .error .again :
        Except Result Frame))) (hrelay seen)

/-! ## One operation -/

/-- What sending and relaying leave of the neighbours and of when they were heard. -/
structure SamePorts (l l' : Link) : Prop where
  neighbour : ∀ p, (l'.port p).neighbour = (l.port p).neighbour
  lastRx : ∀ p, (l'.port p).lastRx = (l.port p).lastRx

theorem SamePorts.trans {l l' l'' : Link} (h : SamePorts l l') (h' : SamePorts l' l'') : SamePorts l l'' :=
  ⟨fun p => (h'.neighbour p).trans (h.neighbour p), fun p => (h'.lastRx p).trans (h.lastRx p)⟩

theorem samePorts_emit (l : Link) (p : Port) (f : Frame) : SamePorts l (emitFrame l p f).2 := by
  unfold emitFrame
  split
  · exact ⟨fun _ => rfl, fun _ => rfl⟩
  split
  · exact ⟨fun _ => rfl, fun _ => rfl⟩
  · cases p <;> exact ⟨fun p => by cases p <;> rfl, fun p => by cases p <;> rfl⟩

theorem samePorts_relay (l : Link) (p : Port) (f : Frame) : SamePorts l (relay l p f) := by
  unfold relay
  dsimp only
  split
  · exact ⟨fun _ => rfl, fun _ => rfl⟩
  split
  · exact ⟨fun _ => rfl, fun _ => rfl⟩
  · cases p <;> exact ⟨fun p => by cases p <;> rfl, fun p => by cases p <;> rfl⟩

theorem samePorts_accept (l : Link) (p : Port) (f : Frame) : SamePorts l (accept l p f).1 := by
  unfold accept
  split
  · exact ⟨fun _ => rfl, fun _ => rfl⟩
  split
  · exact ⟨fun _ => rfl, fun _ => rfl⟩
  obtain ⟨fresh, seen⟩ := seqIsFresh l.seen f.src f.seq
  dsimp only
  split
  · exact ⟨fun p => by cases p <;> rfl, fun p => by cases p <;> rfl⟩
  split
  · obtain ⟨h1, h2⟩ := samePorts_relay { l with seen := seen } p f
    exact ⟨h1, h2⟩
  · exact ⟨fun p => by cases p <;> rfl, fun p => by cases p <;> rfl⟩

namespace Link

variable {c : Time} {l m : Link}

theorem Later.untimed (h : Later c l m) : m.untimed = l.untimed := by
  obtain ⟨a, b, rfl, -, -⟩ := h
  rfl

/-- An operation that does not look at the time keeps the two apart as they are. -/
theorem Later.of_same {l' : Link} {a b : Time} (ha : l.up.neighbour = true → a = l.up.lastRx + c)
    (hb : l.down.neighbour = true → b = l.down.lastRx + c) (h : SamePorts l l') : Later c l' (l'.retimed a b) := by
  refine ⟨a, b, rfl, fun hn => ?_, fun hn => ?_⟩
  · exact (ha ((h.neighbour .up).symm.trans hn)).trans (congrArg (· + c) (h.lastRx .up).symm)
  · exact (hb ((h.neighbour .down).symm.trans hn)).trans (congrArg (· + c) (h.lastRx .down).symm)

/-- Silent for too long, or not, by either clock. -/
theorem overdue_later {n : Bool} {t u : Time} (h : n = true → t = u + c) (now d : Time) :
    (n && timeAfter (now + c) (t + d)) = (n && timeAfter now (u + d)) := by
  cases n with
  | false => rw [Bool.false_and, Bool.false_and]
  | true => rw [h rfl, timeAfter_add]

theorem Later.ageOut (h : Later c l m) (p : Port) (now : Time) : Later c (ageOut l p now) (ageOut m p (now + c)) := by
  obtain ⟨a, b, rfl, ha, hb⟩ := h
  unfold Wire.ageOut
  cases p with
  | up =>
    have hsame : (((l.retimed a b).port .up).neighbour && timeAfter (now + c) (((l.retimed a b).port .up).lastRx +
        (l.retimed a b).neighbourTimeoutMs.toUInt32)) = ((l.port .up).neighbour &&
          timeAfter now ((l.port .up).lastRx + l.neighbourTimeoutMs.toUInt32)) := overdue_later ha now _
    simp only [hsame]
    split
    · exact ⟨a, b, rfl, fun hn => (by cases hn), hb⟩
    · exact ⟨a, b, rfl, ha, hb⟩
  | down =>
    have hsame : (((l.retimed a b).port .down).neighbour && timeAfter (now + c) (((l.retimed a b).port .down).lastRx +
        (l.retimed a b).neighbourTimeoutMs.toUInt32)) = ((l.port .down).neighbour &&
          timeAfter now ((l.port .down).lastRx + l.neighbourTimeoutMs.toUInt32)) := overdue_later hb now _
    simp only [hsame]
    split
    · exact ⟨a, b, rfl, ha, fun hn => (by cases hn)⟩
    · exact ⟨a, b, rfl, ha, hb⟩

theorem Later.rxByte (h : Later c l m) (p : Port) (byte : Byte) (now : Time) :
    Later c (linkRxByte l p byte now).1 (linkRxByte m p byte (now + c)).1 ∧
      (linkRxByte m p byte (now + c)).2 = (linkRxByte l p byte now).2 := by
  obtain ⟨a, b, rfl, ha, hb⟩ := h
  have hfr : ((l.retimed a b).port p).framer = (l.port p).framer := by cases p <;> rfl
  have hkeyed : (l.retimed a b).hasKey = l.hasKey := rfl
  have hkey : (l.retimed a b).key = l.key := rfl
  unfold linkRxByte
  rw [hfr, hkeyed, hkey]
  obtain ⟨framer, r⟩ := framerPush (l.port p).framer byte (if l.hasKey then some l.key else none)
  cases r with
  | error e => cases p <;> exact ⟨⟨a, b, rfl, ha, hb⟩, rfl⟩
  | ok f =>
    cases p with
    | up =>
      let heardOn : Link :=
        { l with up := { l.up with framer := framer, rxFrames := l.up.rxFrames + 1, lastRx := now, neighbour := true } }
      have hacc := accept_retimed heardOn (now + c) b .up f
      have hlater : Later c (accept heardOn .up f).1 ((accept heardOn .up f).1.retimed (now + c) b) :=
        .of_same (l := heardOn) (fun _ => rfl) hb (samePorts_accept heardOn .up f)
      show Later c (accept heardOn .up f).1 (accept (heardOn.retimed (now + c) b) .up f).1 ∧
        (accept (heardOn.retimed (now + c) b) .up f).2 = (accept heardOn .up f).2
      rw [hacc]
      exact ⟨hlater, rfl⟩
    | down =>
      let heardOn : Link :=
        { l with down := { l.down with
          framer := framer, rxFrames := l.down.rxFrames + 1, lastRx := now, neighbour := true } }
      have hacc := accept_retimed heardOn a (now + c) .down f
      have hlater : Later c (accept heardOn .down f).1 ((accept heardOn .down f).1.retimed a (now + c)) :=
        .of_same (l := heardOn) ha (fun _ => rfl) (samePorts_accept heardOn .down f)
      show Later c (accept heardOn .down f).1 (accept (heardOn.retimed a (now + c)) .down f).1 ∧
        (accept (heardOn.retimed a (now + c)) .down f).2 = (accept heardOn .down f).2
      rw [hacc]
      exact ⟨hlater, rfl⟩

theorem Later.perform (h : Later c l m) (o : LinkOp) :
    Later c (l.perform o).1 (m.perform (o.later c)).1 ∧ (m.perform (o.later c)).2 = (l.perform o).2 := by
  cases o with
  | setKey key =>
    obtain ⟨a, b, rfl, ha, hb⟩ := h
    exact ⟨⟨a, b, rfl, ha, hb⟩, rfl⟩
  | clearKey =>
    obtain ⟨a, b, rfl, ha, hb⟩ := h
    exact ⟨⟨a, b, rfl, ha, hb⟩, rfl⟩
  | rxByte p byte now =>
    obtain ⟨hkept, hres⟩ := h.rxByte p byte now
    exact ⟨hkept, congrArg LinkReply.frame hres⟩
  | send type dst payload now =>
    obtain ⟨a, b, rfl, ha, hb⟩ := h
    have hsame : SamePorts l (linkSend l type dst payload).2 := by
      obtain ⟨h1, h2⟩ := (samePorts_emit l .up (ownFrame l type dst payload)).trans (samePorts_emit _ .down _)
      exact ⟨h1, h2⟩
    show Later c (linkSend l type dst payload).2 (linkSend (l.retimed a b) type dst payload).2 ∧
      LinkReply.result (linkSend (l.retimed a b) type dst payload).1 = .result (linkSend l type dst payload).1
    rw [linkSend_retimed]
    exact ⟨.of_same ha hb hsame, rfl⟩
  | sendPort p type dst payload now =>
    obtain ⟨a, b, rfl, ha, hb⟩ := h
    have hsame : SamePorts l (linkSendPort l p type dst payload).2 := by
      obtain ⟨h1, h2⟩ := samePorts_emit l p (ownFrame l type dst payload)
      simp only [linkSendPort]
      split <;> exact ⟨h1, h2⟩
    show Later c (linkSendPort l p type dst payload).2 (linkSendPort (l.retimed a b) p type dst payload).2 ∧
      LinkReply.result (linkSendPort (l.retimed a b) p type dst payload).1 = .result (linkSendPort l p type dst payload).1
    rw [linkSendPort_retimed]
    exact ⟨.of_same ha hb hsame, rfl⟩
  | tick now => exact ⟨(h.ageOut .up now).ageOut .down now, rfl⟩
  | hasNeighbour p =>
    obtain ⟨a, b, rfl, ha, hb⟩ := h
    refine ⟨⟨a, b, rfl, ha, hb⟩, ?_⟩
    cases p <;> rfl

theorem Later.respond (h : Later c l m) (o : LinkOp) :
    Later c (l.respond o).1 (m.respond (o.later c)).1 ∧ (m.respond (o.later c)).2 = (l.respond o).2 := by
  obtain ⟨hkept, hreply⟩ := h.perform o
  exact ⟨hkept, Prod.ext hreply hkept.untimed⟩

theorem later_init (addr : Addr) : Later c (linkInit addr) (linkInit addr) :=
  ⟨0, 0, rfl, fun h => (by cases h), fun h => (by cases h)⟩

end Link

end DeskHop.Wire
