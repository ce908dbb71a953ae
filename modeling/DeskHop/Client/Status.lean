/-
  DeskHop.Client.Status — a board's client link and the client it is joined to by USB
  (`firmware/rp2040/src/clientlink.c`, `client/src/main.c`, `client/src/boardlink.c`).

  Reports of 64 bytes go both ways, in order and without loss (`Joined`). The client
  announces itself and sends bulk data; the board proxies that, hands over what the chain
  has for the client, and every second sends a STATUS. Logged are the STATUS messages sent
  and those `handle_status` has taken.

  The client adopts the address that a STATUS names, which is the one the STATUS comes
  from. After that its link takes every STATUS for its own echo.

  Proved: where the board has no address, or sends no more than one STATUS, each STATUS
  sent is handled once and in order (`status_heard`). Of a board with an address the
  second STATUS is not (`second_status_unheard`).
-/

import DeskHop.Client.ClientLink
import DeskHop.Wire.Idle

namespace DeskHop.Client

open DeskHop.Lib DeskHop.Routing DeskHop.Wire

def localStatusBytes : Nat := 7

def localAttachPack (caps : UInt16) : List Byte := localAttach :: put16 caps

def localStatusUnpack (b : List Byte) : Option LocalStatus :=
  if b.length < localStatusBytes || byteAt b 0 != localStatus then none
  else some ⟨get16 b 1, get16 b 3, byteAt b 5, byteAt b 6⟩

theorem localAttach_codec :
    Codec localAttachBytes (fun b => byteAt b 0 = localAttach) localAttachPack localAttachUnpack := by
  have hread : localAttachUnpack = fun b =>
      if b.length < localAttachBytes ∨ byteAt b 0 ≠ localAttach then none else some (get16 b 1) := by
    funext b
    simp only [localAttachUnpack, Bool.or_eq_true, decide_eq_true_eq, bne_iff_ne]
  rw [hread]
  exact byteField.tagged localAttach field16

theorem localStatus_codec :
    Codec localStatusBytes (fun b => byteAt b 0 = localStatus) localStatusPack localStatusUnpack := by
  have hread : localStatusUnpack = fun b =>
      if b.length < localStatusBytes ∨ byteAt b 0 ≠ localStatus then none
      else some ⟨get16 b 1, get16 b 3, byteAt b 5, byteAt b 6⟩ := by
    funext b
    simp only [localStatusUnpack, Bool.or_eq_true, decide_eq_true_eq, bne_iff_ne]
  have fields := field16.pair field16 |>.pair (byteField.pair byteField)
  rw [hread]
  exact byteField.tagged localStatus (fields.map ⟨fun t => LocalStatus.mk t.1.1 t.1.2 t.2.1 t.2.2,
    fun st => ((st.self, st.focus), (st.level, st.boards)), fun _ => rfl, fun _ => rfl⟩)

theorem localStatusUnpack_pack (st : LocalStatus) : localStatusUnpack (localStatusPack st) = some st :=
  localStatus_codec.unpack_pack st

/-! ## The client -/

/-- What `client_t` knows of its board. -/
structure ClientSide where
  link : Link
  self : Addr
  /-- `--self` was given, so what the board names is ignored. -/
  selfFixed : Bool
  attached : Bool
  nextAttach : Time
  boardFocus : Addr
  boardLevel : Byte
  deriving DecidableEq

/-- Under a placeholder until the board names an address. -/
def clientStart : ClientSide :=
  { link := linkSetKey (linkInit clientAddr) localKey, self := clientAddr, selfFixed := false, attached := false,
    nextAttach := 0, boardFocus := 0, boardLevel := 0 }

/-- Adopt the board's chain address. -/
def adopt (c : ClientSide) (st : LocalStatus) : ClientSide :=
  if !c.selfFixed && st.self != addrNone && st.self != c.self then
    { c with self := st.self, link := { c.link with self := st.self } }
  else c

def handleStatus (c : ClientSide) (f : Frame) : ClientSide :=
  match localStatusUnpack f.payload with
  | none => c
  | some st => adopt { c with boardFocus := st.focus, boardLevel := st.level, attached := true } st

/-- What the client provides, with a clipboard or without. -/
def clientCaps (clipboard : Bool) : UInt16 :=
  capFiles ||| capShare ||| if clipboard then Election.capClipboard ||| capImages else 0

/-- Announced repeatedly: the board forgets a client that has gone quiet. -/
def announce (c : ClientSide) (clipboard : Bool) (now : Time) : ClientSide :=
  if !timeAfter now c.nextAttach then c
  else
    { c with
      nextAttach := now + 1000
      link := (linkSend c.link msgCap addrBroadcast (localAttachPack (clientCaps clipboard))).2 }

/-- One byte from the board, and the STATUS it completes. Any other frame is for the bulk transport. -/
def hearByte (c : ClientSide) (b : Byte) (now : Time) : ClientSide × Option LocalStatus :=
  let (link, r) := linkRxByte c.link .up b now
  let c := { c with link := link }
  match r with
  | .ok f => if f.type = msgCap then (handleStatus c f, localStatusUnpack f.payload) else (c, none)
  | .error _ => (c, none)

def hearBytes (c : ClientSide) (bs : List Byte) (now : Time) : ClientSide × List LocalStatus :=
  bs.foldl (fun s b => ((hearByte s.1 b now).1, s.2 ++ (hearByte s.1 b now).2.toList)) (c, [])

/-- Fixed-size reports, the last one padded with idle flags. -/
def reports (n : Nat) (bs : List Byte) : List (List Byte) :=
  match n with
  | 0 => []
  | n + 1 =>
    if bs = [] then []
    else
      let report := bs.take clientReportBytes
      (report ++ List.replicate (clientReportBytes - report.length) flag) :: reports n (bs.drop clientReportBytes)

/-- Both ports of the client's link are its one board. -/
def ClientSide.written (c : ClientSide) : List (List Byte) := c.link.wire.flatMap fun o => reports o.2.length o.2

def ClientSide.flushed (c : ClientSide) : ClientSide := { c with link := { c.link with wire := [] } }

/-! ## The two of them -/

structure Joined where
  cl : ClientLink
  chain : Link
  client : ClientSide
  /-- Reports on their way, next one first. -/
  toBoard : List (List Byte)
  toClient : List (List Byte)
  sent : List LocalStatus
  handled : List LocalStatus

def statusOf (r : Router) : LocalStatus := ⟨r.cfg.self, r.focus, levelByte r.level, routerChainSize r⟩

/-- The client has been quiet for too long. -/
def timedOut (cl : ClientLink) (now : Time) : Bool := cl.attached && timeAfter now (cl.lastRx + clientTimeoutMs)

/-- A turn of the board's sends a STATUS. -/
def statusDue (cl : ClientLink) (now : Time) : Bool :=
  !timedOut cl now && cl.attached && timeAfter now cl.nextStatus

namespace Joined

inductive Event where
  | announce (clipboard : Bool) (now : Time)
  /-- The client's bulk transport sends a message. -/
  | data (dst : Addr) (payload : List Byte)
  /-- The board reads the client's next report. -/
  | report (now : Time)
  /-- The chain has a frame for the client. -/
  | deliver (f : Frame)
  | task (r : Router) (ready : Bool) (now : Time)
  /-- The client reads the board's next report. -/
  | read (now : Time)

/-- What the client's link was given to transmit goes to the board. -/
def post (w : Joined) (c : ClientSide) : Joined := { w with client := c.flushed, toBoard := w.toBoard ++ c.written }

def step (w : Joined) : Event → Joined
  | .announce clipboard now => w.post (Client.announce w.client clipboard now)
  | .data dst payload => w.post { w.client with link := (linkSend w.client.link msgData dst payload).2 }
  | .report now =>
    match w.toBoard with
    | [] => w
    | data :: rest =>
      let (cl, chain) := clientRxReport w.cl w.chain data now
      { w with cl := cl, chain := chain, toBoard := rest }
  | .deliver f => { w with cl := clientDeliver w.cl f }
  | .task r ready now =>
    let (cl, report) := clientTask w.cl r ready now
    { w with
      cl := cl
      toClient := w.toClient ++ report.toList
      sent := w.sent ++ if statusDue w.cl now then [statusOf r] else [] }
  | .read now =>
    match w.toClient with
    | [] => w
    | bs :: rest =>
      let (c, heard) := hearBytes w.client bs now
      { w with toClient := rest, handled := w.handled ++ heard }.post c

/-- Both have just started, on a board with some chain link. -/
def Fresh (w : Joined) : Prop :=
  w.cl = clientInit ∧ w.client = clientStart ∧ w.toBoard = [] ∧ w.toClient = [] ∧ w.sent = [] ∧ w.handled = []

end Joined

/-! ## Nothing lost -/

/-- What is sent to the client of a frame. -/
def localFrame (type : MsgType) (src dst : Addr) (seq : UInt16) (payload : List Byte) : Frame :=
  ⟨type, ttlDefault, src, dst, seq, payload, []⟩

def statusFrame (st : LocalStatus) (seq : UInt16) : Frame := localFrame msgCap st.self clientAddr seq (localStatusPack st)

/-- There is room for the frame in the ring. -/
def Room (cl : ClientLink) (f : Frame) : Prop := cl.tx.length + (onWire f cl.key).length ≤ txRoom

namespace Joined

/-- A board at `addr`, whose ring does not run over and is not cleared; the chain has
    bulk frames of other boards for the client. -/
def Lossless (addr : Addr) (w : Joined) : Event → Prop
  | .deliver f => f.type = msgData ∧ f.src ≠ addr ∧ f.payload.length ≤ maxPayload ∧
      (w.cl.attached = true → Room w.cl (localFrame f.type f.src f.dst f.seq f.payload))
  | .task r _ now => r.cfg.self = addr ∧ (timedOut w.cl now = true → w.cl.tx = []) ∧
      (statusDue w.cl now = true → Room w.cl (statusFrame (statusOf r) w.cl.txSeq))
  | _ => True

/-- A STATUS comes from a board without an address, or is the first, and does not come
    from the placeholder. -/
def Hearable (addr : Addr) (w : Joined) : Event → Prop
  | .task _ _ now => statusDue w.cl now = true → addr = addrNone ∨ w.sent = [] ∧ addr ≠ clientAddr
  | _ => True

/-- The STATUS messages handled are those sent, in order, but for what is on its way; and
    what is recorded is what the last one handled says. -/
structure Informed (w : Joined) : Prop where
  order : w.handled <+: w.sent
  arrived : w.cl.tx = [] → w.toClient = [] → w.handled = w.sent
  recorded : ∀ st ∈ w.handled.getLast?, w.client.boardFocus = st.focus ∧ w.client.boardLevel = st.level

end Joined

/-! ## What is on its way to the client -/

/-- Bulk frames of other boards, and STATUS messages numbered from `n` up to `m`. -/
inductive Queue (addr : Addr) : UInt16 → List Frame → List LocalStatus → UInt16 → Prop
  | nil (n : UInt16) : Queue addr n [] [] n
  | data {n m : UInt16} {f : Frame} {fs : List Frame} {ss : List LocalStatus} (ht : f.type = msgData)
      (hsrc : f.src ≠ addr) (httl : f.ttl ≠ 0) (hp : f.payload.length ≤ maxPayload) (h : Queue addr n fs ss m) :
      Queue addr n (f :: fs) ss m
  | status {n m : UInt16} {st : LocalStatus} {fs : List Frame} {ss : List LocalStatus} (hself : st.self = addr)
      (h : Queue addr (n + 1) fs ss m) : Queue addr n (statusFrame st n :: fs) (st :: ss) m

section queue

variable {addr : Addr} {n m : UInt16} {fs : List Frame} {ss : List LocalStatus}

theorem Queue.append_data (h : Queue addr n fs ss m) {f : Frame} (ht : f.type = msgData) (hsrc : f.src ≠ addr)
    (httl : f.ttl ≠ 0) (hp : f.payload.length ≤ maxPayload) : Queue addr n (fs ++ [f]) ss m := by
  induction h with
  | nil n => exact .data ht hsrc httl hp (.nil n)
  | data ht' hsrc' httl' hp' _ ih => exact .data ht' hsrc' httl' hp' ih
  | status hself _ ih => exact .status hself ih

theorem Queue.append_status (h : Queue addr n fs ss m) {st : LocalStatus} (hself : st.self = addr) :
    Queue addr n (fs ++ [statusFrame st m]) (ss ++ [st]) (m + 1) := by
  induction h with
  | nil n => exact .status hself (.nil (n + 1))
  | data ht hsrc httl hp _ ih => exact .data ht hsrc httl hp ih
  | status hself' _ ih => exact .status hself' ih

theorem Queue.none (h : Queue addr n [] ss m) : ss = [] := by
  cases h
  rfl

end queue

/-! ## The client listens -/

/-- A client to which the bytes are on the way, and in them the STATUS messages `ss`;
    `m` is the number the board uses next. -/
structure Listening (addr : Addr) (c : ClientSide) (bs : List Byte) (ss : List LocalStatus) (m : UInt16)
    (handled : List LocalStatus) : Prop where
  keyed : c.link.hasKey = true ∧ c.link.key = localKey
  flying : ∃ fs n, Carries localKey c.link.up.framer bs fs ∧ Queue addr n fs ss m ∧ Awaits c.link.seen addr n
  /-- Until it handles a STATUS that names an address, the client has the placeholder. -/
  placeholder : addr = addrNone ∨ handled = [] → c.link.self = clientAddr
  few : addr = addrNone ∨ (handled ++ ss).length ≤ 1
  distinct : handled ++ ss ≠ [] → addr ≠ clientAddr
  recorded : ∀ st ∈ handled.getLast?, c.boardFocus = st.focus ∧ c.boardLevel = st.level

section listening

variable {addr : Addr} {c c' : ClientSide} {b : Byte} {bs : List Byte} {ss : List LocalStatus} {m : UInt16}
  {handled : List LocalStatus}

/-- What a client listens by. -/
structure SameEar (c c' : ClientSide) : Prop where
  hasKey : c'.link.hasKey = c.link.hasKey
  key : c'.link.key = c.link.key
  framer : c'.link.up.framer = c.link.up.framer
  seen : c'.link.seen = c.link.seen
  self : c'.link.self = c.link.self
  focus : c'.boardFocus = c.boardFocus
  level : c'.boardLevel = c.boardLevel

theorem Listening.same (h : Listening addr c bs ss m handled) (hs : SameEar c c') :
    Listening addr c' bs ss m handled := by
  obtain ⟨hkeyed, ⟨fs, n, hcar, hq, ha⟩, hplace, hfew, hdist, hrec⟩ := h
  refine ⟨?_, ⟨fs, n, ?_, hq, ?_⟩, fun hp => hs.self.trans (hplace hp), hfew, hdist, fun st hst => ?_⟩
  · rw [hs.hasKey, hs.key]
    exact hkeyed
  · rw [hs.framer]
    exact hcar
  · rw [hs.seen]
    exact ha
  · rw [hs.focus, hs.level]
    exact hrec st hst

theorem adopt_same (c : ClientSide) (st : LocalStatus) :
    (adopt c st).link.hasKey = c.link.hasKey ∧ (adopt c st).link.key = c.link.key ∧
      (adopt c st).link.up = c.link.up ∧ (adopt c st).link.seen = c.link.seen ∧
      (adopt c st).boardFocus = c.boardFocus ∧ (adopt c st).boardLevel = c.boardLevel ∧
      (st.self = addrNone → (adopt c st).link.self = c.link.self) := by
  unfold adopt
  split
  · rename_i ha
    refine ⟨rfl, rfl, rfl, rfl, rfl, rfl, fun hnone => ?_⟩
    rw [hnone] at ha
    simp at ha
  · exact ⟨rfl, rfl, rfl, rfl, rfl, rfl, fun _ => rfl⟩

theorem handleStatus_eq (c : ClientSide) {f : Frame} {st : LocalStatus} (h : localStatusUnpack f.payload = some st) :
    handleStatus c f = adopt { c with boardFocus := st.focus, boardLevel := st.level, attached := true } st := by
  rw [handleStatus, h]

/-- A byte that only its link has seen. -/
theorem Listening.passed (h : Listening addr c (b :: bs) ss m handled) {fs : List Frame} {n : UInt16} {now : Time}
    (hcar : Carries localKey ((linkRxByte c.link .up b now).1.port .up).framer bs fs) (hq : Queue addr n fs ss m)
    (ha : Awaits (linkRxByte c.link .up b now).1.station.seen addr n) :
    Listening addr { c with link := (linkRxByte c.link .up b now).1 } bs ss m handled := by
  obtain ⟨hk, hkey⟩ := h.keyed
  have hsame := linkRxByte_same c.link .up b now
  exact ⟨⟨hsame.1.trans hk, hsame.2.1.trans hkey⟩, ⟨fs, n, hcar, hq, ha⟩, fun hp => hsame.2.2.trans (h.placeholder hp),
    h.few, h.distinct, h.recorded⟩

/-- A byte that completes nothing. -/
theorem Listening.again (h : Listening addr c (b :: bs) ss m handled) {r : Result} {fs : List Frame} {n : UInt16}
    (hr : (framerPush c.link.up.framer b (some localKey)).2 = .error r)
    (hcar : Carries localKey (framerPush c.link.up.framer b (some localKey)).1 bs fs) (hq : Queue addr n fs ss m)
    (ha : Awaits c.link.seen addr n) (now : Time) :
    (hearByte c b now).2 = none ∧ Listening addr (hearByte c b now).1 bs ss m handled := by
  obtain ⟨hk, hkey⟩ := h.keyed
  rw [← hkey] at hr
  obtain ⟨hres, hst, -, hframer⟩ := linkRxByte_again (p := .up) hk hr now
  have heq : hearByte c b now = ({ c with link := (linkRxByte c.link .up b now).1 }, none) := by
    unfold hearByte
    simp only [hres]
  rw [heq]
  refine ⟨rfl, h.passed ?_ hq ?_⟩
  · rw [(hframer .up).trans (if_pos rfl), hkey]
    exact hcar
  · rw [hst]
    exact ha

/-- A byte that completes a bulk frame, which the bulk transport may get. -/
theorem Listening.bulk (h : Listening addr c (b :: bs) ss m handled) {f : Frame} {fs : List Frame} {n : UInt16}
    (hr : (framerPush c.link.up.framer b (some localKey)).2 = .ok (decoded f localKey))
    (hcar : Carries localKey (framerPush c.link.up.framer b (some localKey)).1 bs fs) (hq : Queue addr n fs ss m)
    (ha : Awaits c.link.seen addr n) (ht : f.type = msgData) (hsrc : f.src ≠ addr) (httl : f.ttl ≠ 0)
    (hp : f.payload.length ≤ maxPayload) (now : Time) :
    (hearByte c b now).2 = none ∧ Listening addr (hearByte c b now).1 bs ss m handled := by
  obtain ⟨hk, hkey⟩ := h.keyed
  have hwhole := whole_decoded localKey httl hp
  rw [← hkey] at hr hwhole
  obtain ⟨hst, -, honly, -, hframer⟩ := linkRxByte_frame (p := .up) hk hr hwhole now
  have heq : hearByte c b now = ({ c with link := (linkRxByte c.link .up b now).1 }, none) := by
    unfold hearByte
    cases hres : (linkRxByte c.link .up b now).2 with
    | error r => simp only [hres]
    | ok g =>
      have htype : g.type ≠ msgCap := by
        rw [honly g hres]
        show f.type ≠ msgCap
        rw [ht]
        decide
      simp only [hres, if_neg htype]
  rw [heq]
  refine ⟨rfl, h.passed ?_ hq ?_⟩
  · rw [(hframer .up).trans (if_pos rfl), hkey]
    exact hcar
  · rw [hst, hear]
    have hother := ha.other (fun heq => hsrc heq.symm) f.seq
    split
    · exact ha
    · split
      · exact hother
      · exact hother

/-- A byte that completes a STATUS. -/
theorem Listening.status {st : LocalStatus} (h : Listening addr c (b :: bs) (st :: ss) m handled) {fs : List Frame}
    {n : UInt16} (hr : (framerPush c.link.up.framer b (some localKey)).2 = .ok (decoded (statusFrame st n) localKey))
    (hcar : Carries localKey (framerPush c.link.up.framer b (some localKey)).1 bs fs) (hq : Queue addr (n + 1) fs ss m)
    (ha : Awaits c.link.seen addr n) (hself : st.self = addr) (now : Time) :
    (hearByte c b now).2 = some st ∧ Listening addr (hearByte c b now).1 bs ss m (handled ++ [st]) := by
  obtain ⟨hk, hkey⟩ := h.keyed
  have hunheard : addr = addrNone ∨ handled = [] := by
    refine h.few.imp_right fun hle => ?_
    rw [List.length_append, List.length_cons] at hle
    exact List.eq_nil_of_length_eq_zero (by omega)
  have hplace := h.placeholder hunheard
  have hne : addr ≠ c.link.self := by
    rw [hplace]
    exact h.distinct (by simp)
  have hwhole : Whole (decoded (statusFrame st n) localKey) c.link.key := by
    rw [hkey]
    exact whole_decoded localKey (show ttlDefault ≠ 0 by decide) (show 7 ≤ maxPayload by decide)
  rw [← hkey] at hr
  obtain ⟨hst, hiff, -, -, hframer⟩ := linkRxByte_frame (p := .up) hk hr (hkey ▸ hwhole) now
  have hfresh : fresh c.link.station (decoded (statusFrame st n) c.link.key) = true := by
    show (seqIsFresh c.link.seen st.self n).1 = true
    rw [hself]
    exact ha.fresh
  have hsrc : (decoded (statusFrame st n) c.link.key).src ≠ c.link.station.self := by
    show st.self ≠ c.link.self
    rw [hself]
    exact hne
  have hmine : (hear c.link.station (decoded (statusFrame st n) c.link.key)).mine = true := by
    rw [(hear_fresh hsrc hfresh).1]
    have hdst : (decoded (statusFrame st n) c.link.key).dst = c.link.station.self := hplace.symm
    rw [hdst, decide_eq_true rfl]
    rfl
  have hres := hiff.mpr hmine
  have hsame := linkRxByte_same c.link .up b now
  have hunpack : localStatusUnpack (decoded (statusFrame st n) c.link.key).payload = some st := localStatusUnpack_pack st
  let told : ClientSide :=
    { c with link := (linkRxByte c.link .up b now).1, boardFocus := st.focus, boardLevel := st.level, attached := true }
  have heq : hearByte c b now = (adopt told st, some st) := by
    unfold hearByte
    simp only [hres]
    rw [if_pos (show (decoded (statusFrame st n) c.link.key).type = msgCap from rfl), handleStatus_eq _ hunpack, hunpack]
  obtain ⟨h1, h2, h3, h4, h5, h6, h7⟩ := adopt_same told st
  have hup := (hframer .up).trans (if_pos rfl)
  have hlog : handled ++ [st] ++ ss = handled ++ st :: ss := by simp
  rw [heq]
  refine ⟨rfl, ⟨h1.trans (hsame.1.trans hk), h2.trans (hsame.2.1.trans hkey)⟩, ⟨fs, n + 1, ?_, hq, ?_⟩, fun hp => ?_, ?_, ?_, ?_⟩
  · rw [h3]
    show Carries localKey ((linkRxByte c.link .up b now).1.port .up).framer bs fs
    rw [hup, hkey]
    exact hcar
  · rw [h4]
    show Awaits (linkRxByte c.link .up b now).1.station.seen addr (n + 1)
    have hseen : (hear c.link.station (decoded (statusFrame st n) c.link.key)).station.seen =
        (seqIsFresh c.link.seen addr n).2 := by
      rw [hear, if_neg hsrc]
      simp only [hfresh]
      show (seqIsFresh c.link.seen st.self n).2 = _
      rw [hself]
    rw [hst, hseen]
    exact ha.heard
  · have hnone : addr = addrNone := hp.resolve_right (by simp)
    rw [h7 (hself.trans hnone)]
    exact hsame.2.2.trans hplace
  · rw [hlog]
    exact h.few
  · rw [hlog]
    exact h.distinct
  · intro st' hst'
    rw [List.getLast?_concat] at hst'
    cases hst'
    exact ⟨h5, h6⟩

/-- The next byte: what of the STATUS messages it completes is handled. -/
theorem Listening.byte (h : Listening addr c (b :: bs) ss m handled) (now : Time) : ∃ ss',
    ss = (hearByte c b now).2.toList ++ ss' ∧
      Listening addr (hearByte c b now).1 bs ss' m (handled ++ (hearByte c b now).2.toList) := by
  obtain ⟨fs, n, hcar, hq, ha⟩ := h.flying
  rcases hcar.next with ⟨r, hr, hnext⟩ | ⟨f, rest, rfl, hr, hnext⟩
  · obtain ⟨hnone, hl⟩ := h.again hr hnext hq ha now
    rw [hnone]
    exact ⟨ss, rfl, by simpa using hl⟩
  · cases hq with
    | data ht hsrc httl hp hq =>
      obtain ⟨hnone, hl⟩ := h.bulk hr hnext hq ha ht hsrc httl hp now
      rw [hnone]
      exact ⟨ss, rfl, by simpa using hl⟩
    | @status _ _ st _ ss' hself hq =>
      obtain ⟨hsome, hl⟩ := h.status hr hnext hq ha hself now
      rw [hsome]
      exact ⟨ss', rfl, hl⟩

/-- A report. -/
theorem Listening.bytes (report : List Byte) (h : Listening addr c (report ++ bs) ss m handled) (now : Time) :
    ∃ ss', ss = (hearBytes c report now).2 ++ ss' ∧
      Listening addr (hearBytes c report now).1 bs ss' m (handled ++ (hearBytes c report now).2) := by
  have hrun (report : List Byte) : ∀ (c : ClientSide) (ss done : List LocalStatus),
      Listening addr c (report ++ bs) ss m (handled ++ done) → ∃ ss', done ++ ss =
        (report.foldl (fun s b => ((hearByte s.1 b now).1, s.2 ++ (hearByte s.1 b now).2.toList)) (c, done)).2 ++ ss' ∧
        Listening addr
          (report.foldl (fun s b => ((hearByte s.1 b now).1, s.2 ++ (hearByte s.1 b now).2.toList)) (c, done)).1 bs ss' m
          (handled ++
            (report.foldl (fun s b => ((hearByte s.1 b now).1, s.2 ++ (hearByte s.1 b now).2.toList)) (c, done)).2) := by
    induction report with
    | nil => exact fun c ss done h => ⟨ss, rfl, h⟩
    | cons b report ih =>
      intro c ss done h
      obtain ⟨ss', rfl, hl⟩ := Listening.byte h now
      rw [List.append_assoc] at hl
      obtain ⟨ss'', hss, hend⟩ := ih _ ss' _ hl
      rw [List.append_assoc] at hss
      exact ⟨ss'', hss, hend⟩
  have h0 := hrun report c ss [] (by simpa using h)
  rw [List.nil_append] at h0
  exact h0

/-- A frame more on the way. -/
theorem Listening.append_data (h : Listening addr c bs ss m handled) {f : Frame} (ht : f.type = msgData)
    (hsrc : f.src ≠ addr) (httl : f.ttl ≠ 0) (hp : f.payload.length ≤ maxPayload) :
    Listening addr c (bs ++ onWire f localKey) ss m handled := by
  obtain ⟨fs, n, hcar, hq, ha⟩ := h.flying
  have htype : f.type ≤ 0x0F := by
    rw [ht]
    decide
  exact ⟨h.keyed, ⟨_, n, hcar.frame htype hp, hq.append_data ht hsrc httl hp, ha⟩, h.placeholder, h.few, h.distinct,
    h.recorded⟩

theorem Listening.append_status (h : Listening addr c bs ss m handled) {st : LocalStatus} (hself : st.self = addr)
    (hfirst : addr = addrNone ∨ handled ++ ss = [] ∧ addr ≠ clientAddr) :
    Listening addr c (bs ++ onWire (statusFrame st m) localKey) (ss ++ [st]) (m + 1) handled := by
  obtain ⟨fs, n, hcar, hq, ha⟩ := h.flying
  have hmore := hcar.frame (f := statusFrame st m) (show msgCap ≤ 0x0F by decide) (show 7 ≤ maxPayload by decide)
  have hfew : addr = addrNone ∨ (handled ++ (ss ++ [st])).length ≤ 1 := by
    refine hfirst.imp_right fun ⟨hnone, _⟩ => ?_
    rw [← List.append_assoc, hnone]
    exact Nat.le_refl 1
  have hdistinct : addr ≠ clientAddr := by
    rcases hfirst with hnone | ⟨-, hne⟩
    · rw [hnone]
      decide
    · exact hne
  exact ⟨h.keyed, ⟨_, n, hmore, hq.append_status hself, ha⟩, h.placeholder, hfew, fun _ => hdistinct, h.recorded⟩

theorem Listening.idle (h : Listening addr c bs ss m handled) (n : Nat) :
    Listening addr c (bs ++ List.replicate n flag) ss m handled := by
  obtain ⟨fs, k, hcar, hq, ha⟩ := h.flying
  exact ⟨h.keyed, ⟨fs, k, hcar.idle n, hq, ha⟩, h.placeholder, h.few, h.distinct, h.recorded⟩

/-- With nothing on the way, every STATUS has been handled. -/
theorem Listening.silent (h : Listening addr c [] ss m handled) : ss = [] := by
  obtain ⟨fs, n, hcar, hq, -⟩ := h.flying
  rw [hcar.nil] at hq
  exact hq.none

/-- The client's own sending does not touch what it listens by. -/
theorem linkSend_ear (c : ClientSide) (type : MsgType) (dst : Addr) (payload : List Byte) :
    SameEar c { c with link := { (linkSend c.link type dst payload).2 with wire := [] } } := by
  obtain ⟨h1, h2, h3, h4⟩ := linkSend_same c.link type dst payload
  exact ⟨h1, h2, linkSend_framer c.link type dst payload .up, h3, h4, rfl, rfl⟩

end listening

/-! ## The board speaks -/

section board

variable (cl : ClientLink)

/-- What a client sends does not touch what is on its way to it. -/
theorem handleFromClient_tx (chain : Link) (f : Frame) (now : Time) :
    (handleFromClient cl chain f now).1.key = cl.key ∧ (handleFromClient cl chain f now).1.tx = cl.tx ∧
      (handleFromClient cl chain f now).1.txSeq = cl.txSeq := by
  simp only [handleFromClient]
  repeat' split
  all_goals exact ⟨rfl, rfl, rfl⟩

theorem clientRxByte_tx (chain : Link) (b : Byte) (now : Time) :
    (clientRxByte cl chain b now).1.key = cl.key ∧ (clientRxByte cl chain b now).1.tx = cl.tx ∧
      (clientRxByte cl chain b now).1.txSeq = cl.txSeq := by
  simp only [clientRxByte]
  split
  · exact handleFromClient_tx _ chain _ now
  · exact ⟨rfl, rfl, rfl⟩

theorem clientRxReport_tx (chain : Link) (data : List Byte) (now : Time) :
    (clientRxReport cl chain data now).1.key = cl.key ∧ (clientRxReport cl chain data now).1.tx = cl.tx ∧
      (clientRxReport cl chain data now).1.txSeq = cl.txSeq := by
  unfold clientRxReport
  induction data generalizing cl chain with
  | nil => exact ⟨rfl, rfl, rfl⟩
  | cons b data ih =>
    obtain ⟨h1, h2, h3⟩ := ih (clientRxByte cl chain b now).1 (clientRxByte cl chain b now).2
    obtain ⟨g1, g2, g3⟩ := clientRxByte_tx cl chain b now
    exact ⟨h1.trans g1, h2.trans g2, h3.trans g3⟩

/-- A frame that fits the ring is in it whole. -/
theorem sendLocal_eq {type : MsgType} {src dst : Addr} {seq : UInt16} {payload : List Byte} (ht : type ≤ 0x0F)
    (hp : payload.length ≤ maxPayload) (hroom : Room cl (localFrame type src dst seq payload)) :
    sendLocal cl type src dst seq payload =
      { cl with tx := cl.tx ++ onWire (localFrame type src dst seq payload) cl.key } := by
  have henc : frameEncode (localFrame type src dst seq payload) cl.key wireMax =
      .ok (onWire (localFrame type src dst seq payload) cl.key) := frameEncode_ok _ cl.key hp ht
  rw [Room] at hroom
  unfold localFrame at henc hroom ⊢
  rw [sendLocal, henc]
  simp only [txPush]
  rw [List.take_of_length_le (by omega)]

theorem sendStatus_eq {r : Router} (hroom : Room cl (statusFrame (statusOf r) cl.txSeq)) (now : Time) :
    sendStatus cl r now = { cl with
      txSeq := cl.txSeq + 1
      tx := cl.tx ++ onWire (statusFrame (statusOf r) cl.txSeq) cl.key
      nextStatus := now + 1000 } := by
  have hsend : sendLocal { cl with txSeq := cl.txSeq + 1 } msgCap r.cfg.self clientAddr cl.txSeq
      (localStatusPack (statusOf r)) = { cl with
        txSeq := cl.txSeq + 1
        tx := cl.tx ++ onWire (statusFrame (statusOf r) cl.txSeq) cl.key } :=
    sendLocal_eq { cl with txSeq := cl.txSeq + 1 } (by decide) (show 7 ≤ maxPayload by decide) hroom
  rw [sendStatus]
  show { sendLocal { cl with txSeq := cl.txSeq + 1 } msgCap r.cfg.self clientAddr cl.txSeq
    (localStatusPack (statusOf r)) with nextStatus := now + 1000 } = _
  rw [hsend]

/-- The report the client fetches. -/
def fetched (cl : ClientLink) (ready : Bool) : ClientLink × Option (List Byte) :=
  if cl.tx.length = 0 || !ready then (cl, none)
  else
    ({ cl with tx := cl.tx.drop clientReportBytes },
      some (cl.tx.take clientReportBytes ++
        List.replicate (clientReportBytes - (cl.tx.take clientReportBytes).length) flag))

/-- The periodic work in three parts: a client lost, a STATUS, a report. -/
theorem clientTask_eq (r : Router) (ready : Bool) (now : Time) : clientTask cl r ready now =
    if timedOut cl now then ({ cl with attached := false, clientCaps := 0, tx := [], framer := framerInit }, none)
    else if !cl.attached then (cl, none)
    else fetched (if statusDue cl now then sendStatus cl r now else cl) ready := by
  unfold clientTask timedOut
  by_cases hout : (cl.attached && timeAfter now (cl.lastRx + clientTimeoutMs)) = true
  · rw [if_pos hout, if_pos hout]
  rw [if_neg hout, if_neg hout]
  by_cases ha : cl.attached = true
  · have hdue : statusDue cl now = timeAfter now cl.nextStatus := by
      rw [statusDue, timedOut, Bool.eq_false_iff.mpr hout, ha]
      rfl
    rw [hdue]
    rfl
  · rw [Bool.eq_false_iff.mpr ha]
    rfl

end board

/-- Fetching moves bytes from the ring to the stream, with idle flags after the last. -/
theorem fetched_bytes (cl : ClientLink) (ready : Bool) :
    ∃ n, (fetched cl ready).2.toList.flatten ++ (fetched cl ready).1.tx = cl.tx ++ List.replicate n flag ∧
      (n ≠ 0 → cl.tx ≠ [] ∧ (fetched cl ready).1.tx = []) := by
  unfold fetched
  split
  · exact ⟨0, (List.append_nil _).symm, fun h => absurd rfl h⟩
  rename_i hgo
  simp only [Bool.or_eq_true, decide_eq_true_eq, not_or, List.length_eq_zero_iff] at hgo
  simp only [Option.toList_some, List.flatten_singleton]
  by_cases hlong : clientReportBytes ≤ cl.tx.length
  · have hfull : clientReportBytes - (cl.tx.take clientReportBytes).length = 0 := by
      rw [List.length_take_of_le hlong, Nat.sub_self]
    refine ⟨0, ?_, fun h => absurd rfl h⟩
    rw [hfull, List.replicate_zero, List.append_nil, List.append_nil, List.take_append_drop]
  · have hshort : cl.tx.length ≤ clientReportBytes := by omega
    refine ⟨clientReportBytes - cl.tx.length, ?_, fun _ => ⟨hgo.1, List.drop_eq_nil_of_le hshort⟩⟩
    rw [List.take_of_length_le hshort, List.drop_eq_nil_of_le hshort, List.append_nil]

theorem fetched_same (cl : ClientLink) (ready : Bool) :
    (fetched cl ready).1.key = cl.key ∧ (fetched cl ready).1.txSeq = cl.txSeq := by
  unfold fetched
  split <;> exact ⟨rfl, rfl⟩

theorem Listening.fetch {addr : Addr} {c : ClientSide} (cl : ClientLink) {stream : List (List Byte)}
    {ss handled : List LocalStatus} (h : Listening addr c (stream.flatten ++ cl.tx) ss cl.txSeq handled) (ready : Bool) :
    (fetched cl ready).1.key = cl.key ∧ Listening addr c
      ((stream ++ (fetched cl ready).2.toList).flatten ++ (fetched cl ready).1.tx) ss (fetched cl ready).1.txSeq handled := by
  obtain ⟨hkey, hseq⟩ := fetched_same cl ready
  obtain ⟨n, hbytes, -⟩ := fetched_bytes cl ready
  refine ⟨hkey, ?_⟩
  rw [hseq, List.flatten_append, List.append_assoc, hbytes, ← List.append_assoc]
  exact h.idle n

namespace Joined

/-- The board and the client share a key, and the STATUS messages not yet handled are on their way. -/
structure Attuned (addr : Addr) (w : Joined) : Prop where
  key : w.cl.key = localKey
  listening : ∃ ss, w.sent = w.handled ++ ss ∧
    Listening addr w.client (w.toClient.flatten ++ w.cl.tx) ss w.cl.txSeq w.handled

section attuned

variable {addr : Addr} {w : Joined}

theorem Attuned.post (h : Attuned addr w) {c : ClientSide} (hc : SameEar w.client c.flushed) :
    Attuned addr (w.post c) := by
  obtain ⟨hkey, ss, hsent, hl⟩ := h
  exact ⟨hkey, ss, hsent, hl.same hc⟩

theorem flushed_ear (c : ClientSide) : SameEar c c.flushed := ⟨rfl, rfl, rfl, rfl, rfl, rfl, rfl⟩

theorem announce_ear (c : ClientSide) (clipboard : Bool) (now : Time) :
    SameEar c (Client.announce c clipboard now).flushed := by
  unfold Client.announce
  split
  · exact flushed_ear c
  · have h := linkSend_ear c msgCap addrBroadcast (localAttachPack (clientCaps clipboard))
    exact ⟨h.hasKey, h.key, h.framer, h.seen, h.self, rfl, rfl⟩

theorem Attuned.report (h : Attuned addr w) (now : Time) : Attuned addr (w.step (.report now)) := by
  obtain ⟨hkey, ss, hsent, hl⟩ := h
  simp only [step]
  split
  · exact ⟨hkey, ss, hsent, hl⟩
  · rename_i data rest _
    obtain ⟨h1, h2, h3⟩ := clientRxReport_tx w.cl w.chain data now
    refine ⟨h1.trans hkey, ss, hsent, ?_⟩
    show Listening addr w.client (w.toClient.flatten ++ (clientRxReport w.cl w.chain data now).1.tx) ss
      (clientRxReport w.cl w.chain data now).1.txSeq w.handled
    rw [h2, h3]
    exact hl

theorem Attuned.deliver (h : Attuned addr w) {f : Frame} (hf : w.Lossless addr (.deliver f)) :
    Attuned addr (w.step (.deliver f)) := by
  obtain ⟨hkey, ss, hsent, hl⟩ := h
  obtain ⟨ht, hsrc, hp, hroom⟩ := hf
  by_cases ha : w.cl.attached = true
  · have htype : f.type ≤ 0x0F := by
      rw [ht]
      decide
    have hcl : clientDeliver w.cl f = { w.cl with
        tx := w.cl.tx ++ onWire (localFrame f.type f.src f.dst f.seq f.payload) w.cl.key
        nToClient := w.cl.nToClient + 1 } := by
      rw [clientDeliver, ha]
      simp only [sendLocal_eq w.cl htype hp (hroom ha)]
      rfl
    have hmore := hl.append_data (f := localFrame f.type f.src f.dst f.seq f.payload) ht hsrc
      (show ttlDefault ≠ 0 by decide) hp
    rw [List.append_assoc, ← hkey] at hmore
    simp only [step, hcl]
    exact ⟨hkey, ss, hsent, hmore⟩
  · have hcl : clientDeliver w.cl f = w.cl := by
      rw [clientDeliver, Bool.eq_false_iff.mpr ha]
      rfl
    simp only [step, hcl]
    exact ⟨hkey, ss, hsent, hl⟩

theorem Attuned.read (h : Attuned addr w) (now : Time) : Attuned addr (w.step (.read now)) := by
  obtain ⟨hkey, ss, hsent, hl⟩ := h
  simp only [step]
  split
  · exact ⟨hkey, ss, hsent, hl⟩
  · rename_i bs rest hto
    rw [hto, List.flatten_cons, List.append_assoc] at hl
    obtain ⟨ss', rfl, hl'⟩ := hl.bytes bs now
    refine ⟨hkey, ss', ?_, hl'.same (flushed_ear _)⟩
    show w.sent = w.handled ++ (hearBytes w.client bs now).2 ++ ss'
    rw [hsent, List.append_assoc]

theorem Attuned.task (h : Attuned addr w) {r : Router} {ready : Bool} {now : Time}
    (hl : w.Lossless addr (.task r ready now)) (hh : w.Hearable addr (.task r ready now)) :
    Attuned addr (w.step (.task r ready now)) := by
  obtain ⟨hkey, ss, hsent, hlis⟩ := h
  obtain ⟨hself, hcleared, hroom⟩ := hl
  by_cases hout : timedOut w.cl now = true
  · have hdue : statusDue w.cl now = false := by rw [statusDue, hout]; rfl
    simp only [step, clientTask_eq, if_pos hout, hdue, Bool.false_eq_true, if_false, Option.toList_none, List.append_nil]
    rw [hcleared hout] at hlis
    exact ⟨hkey, ss, hsent, hlis⟩
  by_cases ha : w.cl.attached = true
  · have htask : clientTask w.cl r ready now =
        fetched (if statusDue w.cl now then sendStatus w.cl r now else w.cl) ready := by
      rw [clientTask_eq, if_neg hout, ha]
      rfl
    by_cases hdue : statusDue w.cl now = true
    · rw [if_pos hdue, sendStatus_eq w.cl (hroom hdue)] at htask
      have hfirst : addr = addrNone ∨ w.handled ++ ss = [] ∧ addr ≠ clientAddr := by
        rw [← hsent]
        exact hh hdue
      have hnamed : (statusOf r).self = addr := hself
      have hmore := hlis.append_status hnamed hfirst
      rw [List.append_assoc, ← hkey] at hmore
      have hfetch := Listening.fetch { w.cl with
        txSeq := w.cl.txSeq + 1
        tx := w.cl.tx ++ onWire (statusFrame (statusOf r) w.cl.txSeq) w.cl.key
        nextStatus := now + 1000 } hmore ready
      simp only [step, htask, hdue, if_true]
      refine ⟨hfetch.1.trans hkey, ss ++ [statusOf r], ?_, hfetch.2⟩
      show w.sent ++ [statusOf r] = w.handled ++ (ss ++ [statusOf r])
      rw [hsent, List.append_assoc]
    · rw [if_neg hdue] at htask
      have hfetch := Listening.fetch w.cl hlis ready
      simp only [step, htask, if_neg hdue, List.append_nil]
      exact ⟨hfetch.1.trans hkey, ss, hsent, hfetch.2⟩
  · have hdue : statusDue w.cl now = false := by
      rw [statusDue, Bool.eq_false_iff.mpr ha]
      simp
    have htask : clientTask w.cl r ready now = (w.cl, none) := by
      rw [clientTask_eq, if_neg hout, Bool.eq_false_iff.mpr ha]
      rfl
    simp only [step, htask, hdue, Bool.false_eq_true, if_false, Option.toList_none, List.append_nil]
    exact ⟨hkey, ss, hsent, hlis⟩

theorem Attuned.step (h : Attuned addr w) {e : Event} (he : w.Lossless addr e ∧ w.Hearable addr e) :
    Attuned addr (w.step e) := by
  cases e with
  | announce clipboard now => exact h.post (announce_ear w.client clipboard now)
  | data dst payload =>
    have hear := linkSend_ear w.client msgData dst payload
    exact h.post ⟨hear.hasKey, hear.key, hear.framer, hear.seen, hear.self, rfl, rfl⟩
  | report now => exact h.report now
  | deliver f => exact h.deliver he.1
  | task r ready now => exact h.task he.1 he.2
  | read now => exact h.read now

end attuned

theorem Fresh.attuned {w : Joined} (h : Fresh w) (addr : Addr) : Attuned addr w := by
  obtain ⟨hcl, hc, -, hto, hsent, hhandled⟩ := h
  refine ⟨by rw [hcl]; rfl, [], by rw [hsent, hhandled]; rfl, ?_⟩
  rw [hcl, hc, hto, hhandled]
  refine ⟨⟨rfl, rfl⟩, ⟨[], 0, carries_nil localKey rfl, .nil 0, fun s hs => ?_⟩, fun _ => rfl, Or.inr (Nat.zero_le 1),
    fun hne => absurd rfl hne, fun st hst => (by cases hst)⟩
  have hnone : clientStart.link.seen.find? addr = none := Slots.find?_replicate_none rfl addr
  rw [hnone] at hs
  cases hs

/-- A board without an address, or one that sends no more than one STATUS: each is
    handled once and in order. -/
theorem status_heard {addr : Addr} {w : Joined}
    (h : Reach Fresh (fun w e => Lossless addr w e ∧ Hearable addr w e) step w) : Informed w := by
  obtain ⟨-, ss, hsent, hl⟩ := h.inv (I := Attuned addr) (fun _ h0 => h0.attuned addr) fun _ _ hi he => hi.step he
  refine ⟨⟨ss, hsent.symm⟩, fun htx hto => ?_, hl.recorded⟩
  rw [htx, hto] at hl
  have hnone : ss = [] := hl.silent
  rw [hsent, hnone, List.append_nil]

/-! ## Two STATUS messages -/

instance (cl : ClientLink) (f : Frame) : Decidable (Room cl f) := inferInstanceAs (Decidable (_ ≤ _))

def sampleJoined : Joined := ⟨clientInit, linkInit 7, clientStart, [], [], [], []⟩

theorem sampleJoined_fresh : Fresh sampleJoined := ⟨rfl, rfl, rfl, rfl, rfl, rfl⟩

def sampleRouter (addr focus : Addr) : Router :=
  { routerInit ⟨addr, 0x1111, 0, false, Election.timingDefault, pointerCfgDefault⟩ with focus := focus }

/-- The client attaches; the board sends a STATUS, and a second later another, by which
    the focus has moved. -/
def twoStatuses (addr : Addr) : List Event :=
  [.announce false 1000, .report 1001, .task (sampleRouter addr 2) true 1002, .read 1003,
    .task (sampleRouter addr 3) true 2003, .read 2004]

theorem twoStatuses_lossless : Reach.Admitted (Lossless 7) step sampleJoined (twoStatuses 7) :=
  ⟨trivial, trivial, ⟨rfl, by decide +kernel, by decide +kernel⟩, trivial, ⟨rfl, by decide +kernel, by decide +kernel⟩,
    trivial, trivial⟩

theorem twoStatuses_hearable :
    Reach.Admitted (fun w e => Lossless addrNone w e ∧ Hearable addrNone w e) step sampleJoined (twoStatuses addrNone) :=
  ⟨⟨trivial, trivial⟩, ⟨trivial, trivial⟩, ⟨⟨rfl, by decide +kernel, by decide +kernel⟩, fun _ => Or.inl rfl⟩,
    ⟨trivial, trivial⟩, ⟨⟨rfl, by decide +kernel, by decide +kernel⟩, fun _ => Or.inl rfl⟩, ⟨trivial, trivial⟩, trivial⟩

theorem status_heard_without_address :
    ((twoStatuses addrNone).foldl step sampleJoined).client.boardFocus = 3 := by
  have h := status_heard (Reach.run (.init sampleJoined_fresh) (twoStatuses addrNone) twoStatuses_hearable)
  have hall := h.arrived (by decide +kernel) (by decide +kernel)
  have hlast : ((twoStatuses addrNone).foldl step sampleJoined).sent.getLast? = some ⟨addrNone, 3, 0, 1⟩ := by
    decide +kernel
  exact (h.recorded _ (hall ▸ hlast)).1

/-- The second STATUS has been read, and the client still has the focus of the first. -/
theorem second_status_unheard : ¬ ∀ addr w, Reach Fresh (Lossless addr) step w → Informed w := by
  intro h
  have hinformed := h 7 _ (Reach.run (.init sampleJoined_fresh) (twoStatuses 7) twoStatuses_lossless)
  have hall := hinformed.arrived (by decide +kernel) (by decide +kernel)
  exact absurd hall (by decide +kernel)

end Joined

end DeskHop.Client
