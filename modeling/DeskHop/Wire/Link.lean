/-
  DeskHop.Wire.Link — the chain link of one board: two ports, store-and-forward
  relaying, replay rejection (`core/include/dhp/link.h`, `core/src/link.c`).

  The bytes given to the transmit callback collect in `wire`, port by port and in
  order. A received byte first goes through the decoder of its port; the frame it
  completes, if any, is then judged by `accept`.
-/

import DeskHop.Core.Msg
import DeskHop.Lib.Slots
import DeskHop.Wire.Frame

namespace DeskHop.Wire

open DeskHop.Lib

structure LinkPort where
  framer : Framer
  lastRx : Time
  /-- Have we ever heard a valid frame here. -/
  neighbour : Bool
  txFrames : UInt32
  rxFrames : UInt32
  forwarded : UInt32
  deriving DecidableEq, Repr

structure Seen where
  used : Bool
  /-- Have we accepted anything from this source yet. -/
  primed : Bool
  addr : Addr
  highSeq : UInt16
  deriving DecidableEq, Repr, Inhabited

instance : Slotted Seen Addr := ⟨Seen.used, Seen.addr⟩

abbrev SeenTable := Slots Seen maxBoards

structure Link where
  self : Addr
  key : Key
  hasKey : Bool
  txSeq : UInt16
  neighbourTimeoutMs : UInt16
  up : LinkPort
  down : LinkPort
  seen : SeenTable
  nReplay : UInt32
  nTtlDrop : UInt32
  /-- What the transmit callback was given since the caller last looked. -/
  wire : List (Port × List Byte)
  deriving DecidableEq

namespace Link

def port (l : Link) : Port → LinkPort
  | .up => l.up
  | .down => l.down

def setPort (l : Link) (p : Port) (lp : LinkPort) : Link :=
  match p with
  | .up => { l with up := lp }
  | .down => { l with down := lp }

end Link

def portInit : LinkPort := ⟨framerInit, 0, false, 0, 0, 0⟩

def neighbourTimeoutMsDefault : UInt16 := 500

def linkInit (self : Addr) : Link :=
  { self := self, key := Bytes.zero 16, hasKey := false, txSeq := 0, neighbourTimeoutMs := neighbourTimeoutMsDefault,
    up := portInit, down := portInit, seen := Slots.replicate maxBoards ⟨false, false, 0, 0⟩, nReplay := 0, nTtlDrop := 0,
    wire := [] }

def linkSetKey (l : Link) (key : Key) : Link := { l with key := key, hasKey := true }

def linkClearKey (l : Link) : Link := { l with key := Bytes.zero 16, hasKey := false }

/-! ## Replay window -/

/-- A slot is never freed, so one claimed for a new source has not been primed. -/
def freshSeen (addr : Addr) : Seen := ⟨true, false, addr, 0⟩

/-- The signed 16-bit difference of two sequence numbers. -/
def seqDelta (a b : UInt16) : Int := (a - b).toBitVec.toInt

/-- The entry once `seq` is the highest accepted. -/
def Seen.mark (seq : UInt16) (s : Seen) : Seen := { s with primed := true, highSeq := seq }

/-- A large negative jump means that the peer restarted. -/
def restartJump : Int := -1024

def seqIsFresh (t : SeenTable) (src : Addr) (seq : UInt16) : Bool × SeenTable :=
  match t.ensure (freshSeen src) with
  | none => (true, t) -- table full: fail open
  | some (s, t) =>
    if !s.primed then (true, t.modify src (Seen.mark seq))
    else
      let delta := seqDelta seq s.highSeq
      if delta > 0 then (true, t.modify src (Seen.mark seq))
      else if delta < restartJump then (true, t.modify src (Seen.mark seq))
      else (false, t)

/-! ## Transmit -/

def emitFrame (l : Link) (p : Port) (f : Frame) : Result × Link :=
  if !l.hasKey then (.state, l)
  else
    match frameEncode f l.key wireMax with
    | .error r => (r, l)
    | .ok wire =>
      (.ok, { l with wire := l.wire ++ [(p, wire)] }.setPort p { l.port p with txFrames := (l.port p).txFrames + 1 })

/-- The frame the board originates next. -/
def ownFrame (l : Link) (type : MsgType) (dst : Addr) (payload : List Byte) : Frame :=
  { type := type, ttl := ttlDefault, src := l.self, dst := dst, seq := l.txSeq, payload := payload, body := [] }

/-- One sequence number for both copies. -/
def linkSend (l : Link) (type : MsgType) (dst : Addr) (payload : List Byte) : Result × Link :=
  let f := ownFrame l type dst payload
  let (r1, l) := emitFrame l .up f
  let (r2, l) := emitFrame l .down f
  (if r2 ≠ .ok then r2 else r1, { l with txSeq := l.txSeq + 1 })

/-! ## Receive -/

/-- Relay the body verbatim apart from the hop limit. -/
def relay (l : Link) (inPort : Port) (f : Frame) : Link :=
  let out := inPort.other
  if f.body.length = 0 || f.body.length > bodyMax then l
  else
    match frameForwardPrepare f.body with
    | .error _ => { l with nTtlDrop := l.nTtlDrop + 1 }
    | .ok body =>
      let wire := flag :: body.flatMap stuff ++ [flag]
      let l := { l with wire := l.wire ++ [(out, wire)] }
      let l := l.setPort out { l.port out with txFrames := (l.port out).txFrames + 1 }
      l.setPort inPort { l.port inPort with forwarded := (l.port inPort).forwarded + 1 }

/-- What becomes of a frame the decoder of `p` has completed. -/
def accept (l : Link) (p : Port) (f : Frame) : Link × Except Result Frame :=
  if !l.hasKey && f.type != msgPair then (l, .error .auth)
  else if f.src = l.self then (l, .error .again)
  else
    let (fresh, seen) := seqIsFresh l.seen f.src f.seq
    let l := { l with seen := seen }
    if !fresh then ({ l with nReplay := l.nReplay + 1 }, .error .replay)
    else
      let l := if f.dst ≠ l.self then relay l p f else l
      (l, if f.dst = l.self || f.dst = addrBroadcast then .ok f else .error .again)

def linkRxByte (l : Link) (p : Port) (byte : Byte) (now : Time) : Link × Except Result Frame :=
  let (framer, r) := framerPush (l.port p).framer byte (if l.hasKey then some l.key else none)
  let l := l.setPort p { l.port p with framer := framer }
  match r with
  | .error e => (l, .error e)
  | .ok f =>
    let l := l.setPort p { l.port p with rxFrames := (l.port p).rxFrames + 1, lastRx := now, neighbour := true }
    accept l p f

/-- A port that was silent for too long has no neighbour, and drops a partial body. -/
def ageOut (l : Link) (p : Port) (now : Time) : Link :=
  let lp := l.port p
  if lp.neighbour && timeAfter now (lp.lastRx + l.neighbourTimeoutMs.toUInt32) then
    l.setPort p { lp with neighbour := false, framer := framerInit }
  else l

def linkTick (l : Link) (now : Time) : Link := ageOut (ageOut l .up now) .down now

/-! ## What each operation leaves alone -/

@[simp] theorem setPort_self (l : Link) (p : Port) (lp : LinkPort) : (l.setPort p lp).self = l.self := by cases p <;> rfl
@[simp] theorem setPort_key (l : Link) (p : Port) (lp : LinkPort) : (l.setPort p lp).key = l.key := by cases p <;> rfl
@[simp] theorem setPort_hasKey (l : Link) (p : Port) (lp : LinkPort) : (l.setPort p lp).hasKey = l.hasKey := by
  cases p <;> rfl
@[simp] theorem setPort_txSeq (l : Link) (p : Port) (lp : LinkPort) : (l.setPort p lp).txSeq = l.txSeq := by
  cases p <;> rfl
@[simp] theorem setPort_seen (l : Link) (p : Port) (lp : LinkPort) : (l.setPort p lp).seen = l.seen := by cases p <;> rfl
@[simp] theorem setPort_wire (l : Link) (p : Port) (lp : LinkPort) : (l.setPort p lp).wire = l.wire := by cases p <;> rfl

theorem emitFrame_same (l : Link) (p : Port) (f : Frame) : (emitFrame l p f).2.hasKey = l.hasKey ∧
    (emitFrame l p f).2.key = l.key ∧ (emitFrame l p f).2.seen = l.seen ∧ (emitFrame l p f).2.self = l.self := by
  unfold emitFrame
  split
  · exact ⟨rfl, rfl, rfl, rfl⟩
  split
  · exact ⟨rfl, rfl, rfl, rfl⟩
  · simp

theorem linkSend_same (l : Link) (type : MsgType) (dst : Addr) (payload : List Byte) :
    (linkSend l type dst payload).2.hasKey = l.hasKey ∧ (linkSend l type dst payload).2.key = l.key ∧
      (linkSend l type dst payload).2.seen = l.seen ∧ (linkSend l type dst payload).2.self = l.self := by
  have h1 := emitFrame_same l .up (ownFrame l type dst payload)
  have h2 := emitFrame_same (emitFrame l .up (ownFrame l type dst payload)).2 .down (ownFrame l type dst payload)
  exact ⟨h2.1.trans h1.1, h2.2.1.trans h1.2.1, h2.2.2.1.trans h1.2.2.1, h2.2.2.2.trans h1.2.2.2⟩

theorem ageOut_same (l : Link) (p : Port) (now : Time) : (ageOut l p now).hasKey = l.hasKey ∧
    (ageOut l p now).key = l.key ∧ (ageOut l p now).seen = l.seen ∧ (ageOut l p now).self = l.self := by
  simp only [ageOut]
  split <;> simp

theorem linkTick_same (l : Link) (now : Time) : (linkTick l now).hasKey = l.hasKey ∧ (linkTick l now).key = l.key ∧
    (linkTick l now).seen = l.seen ∧ (linkTick l now).self = l.self := by
  have h1 := ageOut_same l .up now
  have h2 := ageOut_same (ageOut l .up now) .down now
  exact ⟨h2.1.trans h1.1, h2.2.1.trans h1.2.1, h2.2.2.1.trans h1.2.2.1, h2.2.2.2.trans h1.2.2.2⟩

theorem linkTick_wire (l : Link) (now : Time) : (linkTick l now).wire = l.wire := by
  have key (l : Link) (p : Port) : (ageOut l p now).wire = l.wire := by
    simp only [ageOut]
    split
    · exact setPort_wire _ _ _
    · rfl
  exact (key _ _).trans (key _ _)

/-! ## Sending -/

theorem emitFrame_ok {l : Link} (hk : l.hasKey = true) (p : Port) {f : Frame} (hp : f.payload.length ≤ maxPayload)
    (ht : f.type ≤ 0x0F) : (emitFrame l p f).1 = .ok := by
  have hw := frameEncode_ok f l.key hp ht
  simp only [emitFrame, hk, hw, Bool.not_true, Bool.false_eq_true, if_false]

/-- A keyed link puts whatever fits a frame on both wires. -/
theorem linkSend_ok {l : Link} (hk : l.hasKey = true) {type : MsgType} (dst : Addr) {payload : List Byte}
    (hp : payload.length ≤ maxPayload) (ht : type ≤ 0x0F) : (linkSend l type dst payload).1 = .ok := by
  have hf : (ownFrame l type dst payload).payload.length ≤ maxPayload := hp
  have h1 : (emitFrame l .up (ownFrame l type dst payload)).1 = .ok := emitFrame_ok hk .up hf ht
  have hk' : (emitFrame l .up (ownFrame l type dst payload)).2.hasKey = true := (emitFrame_same _ _ _).1.trans hk
  have h2 := emitFrame_ok hk' .down hf ht
  simp only [linkSend, h1, h2, ne_eq, not_true_eq_false, if_false]

/-! ## Receiving -/

theorem relay_same (l : Link) (p : Port) (f : Frame) : (relay l p f).hasKey = l.hasKey ∧ (relay l p f).key = l.key ∧
    (relay l p f).seen = l.seen ∧ (relay l p f).self = l.self := by
  simp only [relay]
  split
  · exact ⟨rfl, rfl, rfl, rfl⟩
  split
  · exact ⟨rfl, rfl, rfl, rfl⟩
  · simp

theorem accept_same (l : Link) (p : Port) (f : Frame) : (accept l p f).1.hasKey = l.hasKey ∧
    (accept l p f).1.key = l.key ∧ (accept l p f).1.self = l.self := by
  unfold accept
  split
  · exact ⟨rfl, rfl, rfl⟩
  split
  · exact ⟨rfl, rfl, rfl⟩
  obtain ⟨fresh, seen⟩ := seqIsFresh l.seen f.src f.seq
  cases fresh with
  | false => exact ⟨rfl, rfl, rfl⟩
  | true =>
    by_cases hd : f.dst = l.self
    · simp [hd]
    · have h := relay_same { l with seen := seen } p f
      simp [hd, h.1, h.2.1, h.2.2.2]

theorem linkRxByte_same (l : Link) (p : Port) (b : Byte) (now : Time) : (linkRxByte l p b now).1.hasKey = l.hasKey ∧
    (linkRxByte l p b now).1.key = l.key ∧ (linkRxByte l p b now).1.self = l.self := by
  unfold linkRxByte
  obtain ⟨framer, r⟩ := framerPush (l.port p).framer b (if l.hasKey then some l.key else none)
  cases r with
  | error e => simp
  | ok f =>
    have h := fun l' => accept_same l' p f
    simp [h]

/-- A link hands over no frame of its own. -/
theorem accept_src {l : Link} {p : Port} {f g : Frame} (h : (accept l p f).2 = .ok g) : g.src ≠ l.self := by
  unfold accept at h
  split at h
  · cases h
  split at h
  · cases h
  rename_i hsrc
  generalize seqIsFresh l.seen f.src f.seq = judged at h
  obtain ⟨fresh, seen⟩ := judged
  dsimp only at h
  repeat' split at h
  all_goals first | (cases h; exact hsrc) | cases h

theorem linkRxByte_src {l : Link} {p : Port} {b : Byte} {now : Time} {f : Frame} (h : (linkRxByte l p b now).2 = .ok f) :
    f.src ≠ l.self := by
  unfold linkRxByte at h
  generalize framerPush (l.port p).framer b (if l.hasKey then some l.key else none) = pushed at h
  obtain ⟨framer, r⟩ := pushed
  cases r with
  | error e => cases h
  | ok g =>
    have hs := accept_src h
    rw [setPort_self, setPort_self] at hs
    exact hs

/-- A sequence number is turned down only against one accepted before, which it does not
    pass and does not lie far behind. -/
theorem seqIsFresh_false {t : SeenTable} {src : Addr} {seq : UInt16} (h : (seqIsFresh t src seq).1 = false) :
    (seqIsFresh t src seq).2 = t ∧ ∃ s, t.find? src = some s ∧ s.primed = true ∧
      restartJump ≤ seqDelta seq s.highSeq ∧ seqDelta seq s.highSeq ≤ 0 := by
  unfold seqIsFresh at h ⊢
  cases he : t.ensure (freshSeen src) with
  | none =>
    rw [he] at h
    cases h
  | some e =>
    obtain ⟨s, t'⟩ := e
    rw [he] at h
    simp only at h ⊢
    rcases Slots.ensure_cases he with ⟨hf, rfl⟩ | ⟨_, rfl, _⟩
    · by_cases hp : s.primed = true
      · rw [if_neg (by simp [hp])] at h ⊢
        by_cases h1 : seqDelta seq s.highSeq > 0
        · rw [if_pos h1] at h
          cases h
        by_cases h2 : seqDelta seq s.highSeq < restartJump
        · rw [if_neg h1, if_pos h2] at h
          cases h
        · rw [if_neg h1, if_neg h2]
          exact ⟨rfl, s, hf, hp, by omega, by omega⟩
      · rw [if_pos (by simpa using hp)] at h
        cases h
    · -- an entry just claimed is not primed
      rw [if_pos (show (!(freshSeen src).primed) = true from rfl)] at h
      cases h

/-- A sequence number is let through against an entry it passes, or falls far behind of,
    or against none; then it is the highest accepted. -/
theorem seqIsFresh_true {t : SeenTable} {src : Addr} {seq : UInt16} (h : (seqIsFresh t src seq).1 = true)
    (hroom : t.ensure (freshSeen src) ≠ none) : ∃ s t', t.ensure (freshSeen src) = some (s, t') ∧
      (seqIsFresh t src seq).2 = t'.modify src (Seen.mark seq) ∧
      (s.primed = true → seqDelta seq s.highSeq > 0 ∨ seqDelta seq s.highSeq < restartJump) := by
  unfold seqIsFresh at h ⊢
  cases he : t.ensure (freshSeen src) with
  | none => exact absurd he hroom
  | some e =>
    obtain ⟨s, t'⟩ := e
    rw [he] at h
    simp only at h ⊢
    refine ⟨s, t', rfl, ?_⟩
    by_cases hp : s.primed = true
    · rw [if_neg (by simp [hp])] at h ⊢
      by_cases h1 : seqDelta seq s.highSeq > 0
      · rw [if_pos h1]
        exact ⟨rfl, fun _ => Or.inl h1⟩
      by_cases h2 : seqDelta seq s.highSeq < restartJump
      · rw [if_neg h1, if_pos h2]
        exact ⟨rfl, fun _ => Or.inr h2⟩
      · rw [if_neg h1, if_neg h2] at h
        cases h
    · rw [if_pos (by simpa using hp)]
      exact ⟨rfl, fun h => absurd h hp⟩

/-- A number at most 1024 behind another, and not past it, is seen to be so. -/
theorem seqDelta_of_le {a b : UInt16} (h1 : a.toNat ≤ b.toNat) (h2 : b.toNat ≤ a.toNat + 1024) :
    restartJump ≤ seqDelta a b ∧ seqDelta a b ≤ 0 := by
  have ha := a.toNat_lt
  have hb := b.toNat_lt
  have hd : (a - b).toBitVec.toNat = (2 ^ 16 - b.toNat + a.toNat) % 2 ^ 16 := UInt16.toNat_sub a b
  rw [seqDelta, restartJump, BitVec.toInt_eq_toNat_cond, hd]
  by_cases he : a.toNat = b.toNat
  · have hz : (2 ^ 16 - b.toNat + a.toNat) % 2 ^ 16 = 0 := by omega
    rw [hz]
    decide
  · have hz : (2 ^ 16 - b.toNat + a.toNat) % 2 ^ 16 = 2 ^ 16 - b.toNat + a.toNat := by omega
    rw [hz]
    split <;> omega

/-- A number less than half the circle past another is seen to be past it. -/
theorem seqDelta_of_lt {a b : UInt16} (h1 : b.toNat < a.toNat) (h2 : a.toNat < 32768) : seqDelta a b > 0 := by
  have hd : (a - b).toBitVec.toNat = (2 ^ 16 - b.toNat + a.toNat) % 2 ^ 16 := UInt16.toNat_sub a b
  rw [seqDelta, BitVec.toInt_eq_toNat_cond, hd]
  have hz : (2 ^ 16 - b.toNat + a.toNat) % 2 ^ 16 = a.toNat - b.toNat := by omega
  rw [hz, if_pos (by omega)]
  omega

end DeskHop.Wire
