/-
  DeskHop.Client.ClientLink — the gate between the client on a board's machine and the
  chain (`firmware/rp2040/src/clientlink.h`, `firmware/rp2040/src/clientlink.c`,
  `core/src/local.c`).

  The client's bytes are framed like the chain's, under a key that is no secret. Of its
  frames only DATA crosses to the chain, and it is the board's own link that sends it.
-/

import DeskHop.Routing.Router
import DeskHop.Wire.Link

namespace DeskHop.Client

open DeskHop.Routing DeskHop.Wire

/-! ## What the board and the client say to each other -/

def localAttach : Byte := 0
def localStatus : Byte := 1

def localAttachBytes : Nat := 3

structure LocalStatus where
  self : Addr
  focus : Addr
  level : Byte
  boards : Byte
  deriving DecidableEq, Repr

/-- The capabilities an ATTACH announces. -/
def localAttachUnpack (b : List Byte) : Option UInt16 :=
  if b.length < localAttachBytes || byteAt b 0 != localAttach then none else some (get16 b 1)

def localStatusPack (s : LocalStatus) : List Byte :=
  localStatus :: put16 s.self ++ put16 s.focus ++ [s.level, s.boards]

def levelByte : Level → Byte
  | .isolated => 0
  | .elected => 1
  | .coordinated => 2
  | .rich => 3

def routerChainSize (r : Router) : Byte := UInt8.ofNat (r.chain.cells.countP (·.used))

/-! ## State -/

/-- Not a secret. -/
def localKey : Key :=
  ⟨[0x64, 0x68, 0x70, 0x2D, 0x6C, 0x6F, 0x63, 0x61, 0x6C, 0x2D, 0x76, 0x31, 0, 0, 0, 0], rfl⟩

def clientReportBytes : Nat := 64
def clientTimeoutMs : Time := 5000

/-- A ring of 2048 bytes, one of which stays free. -/
def txRoom : Nat := 2047

def msgCap : MsgType := 7

/-- What the client on a machine is called on its own link. -/
def clientAddr : Addr := 0x00FF

structure ClientLink where
  /-- Decodes the stream coming from the client. -/
  framer : Framer
  key : Key
  /-- Waits for the client to fetch it. -/
  tx : List Byte
  txSeq : UInt16
  attached : Bool
  clientCaps : UInt16
  lastRx : Time
  nextStatus : Time
  nProxied : UInt32
  nToClient : UInt32
  nRefused : UInt32
  deriving DecidableEq

def clientInit : ClientLink :=
  { framer := framerInit, key := localKey, tx := [], txSeq := 0, attached := false, clientCaps := 0, lastRx := 0,
    nextStatus := 0, nProxied := 0, nToClient := 0, nRefused := 0 }

/-! ## Toward the client -/

/-- What does not fit is dropped. -/
def txPush (cl : ClientLink) (d : List Byte) : ClientLink := { cl with tx := cl.tx ++ d.take (txRoom - cl.tx.length) }

def sendLocal (cl : ClientLink) (type : MsgType) (src dst : Addr) (seq : UInt16) (payload : List Byte) : ClientLink :=
  match frameEncode ⟨type, ttlDefault, src, dst, seq, payload, []⟩ cl.key wireMax with
  | .ok wire => txPush cl wire
  | .error _ => cl

/-- The source is preserved. -/
def clientDeliver (cl : ClientLink) (f : Frame) : ClientLink :=
  if !cl.attached then cl
  else
    let cl := sendLocal cl f.type f.src f.dst f.seq f.payload
    { cl with nToClient := cl.nToClient + 1 }

def sendStatus (cl : ClientLink) (r : Router) (now : Time) : ClientLink :=
  let st : LocalStatus := ⟨r.cfg.self, r.focus, levelByte r.level, routerChainSize r⟩
  let seq := cl.txSeq
  let cl := sendLocal { cl with txSeq := cl.txSeq + 1 } msgCap r.cfg.self clientAddr seq (localStatusPack st)
  { cl with nextStatus := now + 1000 }

/-! ## From the client -/

def capFiles : UInt16 := 32
def capImages : UInt16 := 64
def capShare : UInt16 := 128

/-- The capabilities a client may announce. -/
def clientMask : UInt16 := Election.capClipboard ||| capFiles ||| capImages ||| capShare

def handleFromClient (cl : ClientLink) (chain : Link) (f : Frame) (now : Time) : ClientLink × Link :=
  let cl := { cl with lastRx := now }
  if f.type = msgCap then
    match localAttachUnpack f.payload with
    | none => (cl, chain)
    | some caps =>
      let cl := { cl with clientCaps := caps &&& clientMask }
      (if !cl.attached then { cl with attached := true, nextStatus := 0 } else cl, chain)
  else if f.type ≠ msgData then ({ cl with nRefused := cl.nRefused + 1 }, chain)
  else if !cl.attached then (cl, chain)
  else ({ cl with nProxied := cl.nProxied + 1 }, (linkSend chain msgData f.dst f.payload).2)

/-- One byte of a report. -/
def clientRxByte (cl : ClientLink) (chain : Link) (b : Byte) (now : Time) : ClientLink × Link :=
  let (framer, r) := framerPush cl.framer b (some cl.key)
  match r with
  | .ok f => handleFromClient { cl with framer := framer } chain f now
  | .error _ => ({ cl with framer := framer }, chain)

def clientRxReport (cl : ClientLink) (chain : Link) (data : List Byte) (now : Time) : ClientLink × Link :=
  data.foldl (fun s b => clientRxByte s.1 s.2 b now) (cl, chain)

/-! ## Periodic -/

/-- Also the report the client is to fetch, if its endpoint is free. -/
def clientTask (cl : ClientLink) (r : Router) (ready : Bool) (now : Time) : ClientLink × Option (List Byte) :=
  if cl.attached && timeAfter now (cl.lastRx + clientTimeoutMs) then
    ({ cl with attached := false, clientCaps := 0, tx := [], framer := framerInit }, none)
  else if !cl.attached then (cl, none)
  else
    let cl := if timeAfter now cl.nextStatus then sendStatus cl r now else cl
    if cl.tx.length = 0 || !ready then (cl, none)
    else
      -- padded with flags, which are idle filler between frames
      let report := cl.tx.take clientReportBytes
      ({ cl with tx := cl.tx.drop clientReportBytes },
        some (report ++ List.replicate (clientReportBytes - report.length) flag))

/-- What the board advertises on the client's behalf. -/
def clientCapsOf (cl : ClientLink) : UInt16 := if cl.attached then cl.clientCaps else 0

/-! ## What the gate lets through -/

/-- What the board sends for the frame `f` of its client. -/
def proxied (cl : ClientLink) (chain : Link) (f : Frame) : Option Frame :=
  if f.type = msgData ∧ cl.attached = true then some (ownFrame chain msgData f.dst f.payload) else none

/-- A frame of the client reaches the chain as DATA of the board's own, or not at all. -/
theorem handleFromClient_chain (cl : ClientLink) (chain : Link) (f : Frame) (now : Time) :
    (handleFromClient cl chain f now).2 =
      match proxied cl chain f with
      | some g => (linkSend chain g.type g.dst g.payload).2
      | none => chain := by
  simp only [handleFromClient, proxied]
  by_cases hc : f.type = msgCap
  · have hd : ¬ (f.type = msgData ∧ cl.attached = true) := fun h => absurd (hc.symm.trans h.1) (by decide)
    rw [if_pos hc, if_neg hd]
    split <;> rfl
  rw [if_neg hc]
  by_cases hd : f.type = msgData
  · by_cases ha : cl.attached = true
    · rw [if_neg (not_not.mpr hd), if_neg (by simp [ha]), if_pos ⟨hd, ha⟩]
      rfl
    · rw [if_neg (not_not.mpr hd), if_pos (by simp [ha]), if_neg fun h => ha h.2]
  · rw [if_pos hd, if_neg fun h => hd h.1]

theorem handleFromClient_key (cl : ClientLink) (chain : Link) (f : Frame) (now : Time) :
    (handleFromClient cl chain f now).1.key = cl.key := by
  simp only [handleFromClient]
  repeat' split
  all_goals rfl

/-- The frame announces capabilities. -/
def announcesCaps (f : Frame) : Bool := f.type == msgCap && (localAttachUnpack f.payload).isSome

/-- Only an ATTACH attaches a client. -/
theorem handleFromClient_attached (cl : ClientLink) (chain : Link) (f : Frame) (now : Time) :
    (handleFromClient cl chain f now).1.attached = (cl.attached || announcesCaps f) := by
  have hother : f.type ≠ msgCap → announcesCaps f = false := fun h => by simp [announcesCaps, h]
  simp only [handleFromClient]
  split
  · rename_i hc
    cases hu : localAttachUnpack f.payload with
    | none => simp [announcesCaps, hu]
    | some caps =>
      rw [show announcesCaps f = true by simp [announcesCaps, hc, hu], Bool.or_true]
      show (if !cl.attached then _ else _ : ClientLink).attached = true
      split
      · rfl
      · rename_i ha
        simpa using ha
  rename_i hc
  rw [hother hc, Bool.or_false]
  split
  · rfl
  split <;> rfl

/-- The client's capabilities are among those it may announce. -/
def Masked (cl : ClientLink) : Prop := cl.clientCaps &&& clientMask = cl.clientCaps

theorem handleFromClient_masked {cl : ClientLink} (h : Masked cl) (chain : Link) (f : Frame) (now : Time) :
    Masked (handleFromClient cl chain f now).1 := by
  have hidem : ∀ caps : UInt16, caps &&& clientMask &&& clientMask = caps &&& clientMask := fun caps => by
    rw [UInt16.and_assoc, UInt16.and_self]
  simp only [handleFromClient]
  repeat' split
  all_goals first | exact h | exact hidem _

/-! ## What the way to the client leaves alone -/

theorem sendLocal_same (cl : ClientLink) (type : MsgType) (src dst : Addr) (seq : UInt16) (payload : List Byte) :
    (sendLocal cl type src dst seq payload).key = cl.key ∧
      (sendLocal cl type src dst seq payload).clientCaps = cl.clientCaps ∧
      (sendLocal cl type src dst seq payload).attached = cl.attached := by
  unfold sendLocal
  split <;> exact ⟨rfl, rfl, rfl⟩

theorem clientDeliver_same (cl : ClientLink) (f : Frame) : (clientDeliver cl f).key = cl.key ∧
    (clientDeliver cl f).clientCaps = cl.clientCaps ∧ (clientDeliver cl f).attached = cl.attached := by
  unfold clientDeliver
  split
  · exact ⟨rfl, rfl, rfl⟩
  · obtain ⟨h1, h2, h3⟩ := sendLocal_same cl f.type f.src f.dst f.seq f.payload
    exact ⟨h1, h2, h3⟩

/-- The periodic work detaches a client, or leaves alone what it came with. -/
theorem clientTask_same (cl : ClientLink) (r : Router) (ready : Bool) (now : Time) :
    (clientTask cl r ready now).1.key = cl.key ∧
      ((clientTask cl r ready now).1.clientCaps = cl.clientCaps ∧ (clientTask cl r ready now).1.attached = cl.attached ∨
        cl.attached = true ∧ (clientTask cl r ready now).1.clientCaps = 0 ∧
          (clientTask cl r ready now).1.attached = false) := by
  have hst : ∀ b : Bool, (if b then sendStatus cl r now else cl).key = cl.key ∧
      (if b then sendStatus cl r now else cl).clientCaps = cl.clientCaps ∧
      (if b then sendStatus cl r now else cl).attached = cl.attached := by
    intro b
    cases b
    · exact ⟨rfl, rfl, rfl⟩
    · obtain ⟨h1, h2, h3⟩ := sendLocal_same { cl with txSeq := cl.txSeq + 1 } msgCap r.cfg.self clientAddr cl.txSeq
        (localStatusPack ⟨r.cfg.self, r.focus, levelByte r.level, routerChainSize r⟩)
      simp only [if_true, sendStatus]
      exact ⟨h1, h2, h3⟩
  obtain ⟨h1, h2, h3⟩ := hst (timeAfter now cl.nextStatus)
  simp only [clientTask]
  generalize (if timeAfter now cl.nextStatus then sendStatus cl r now else cl) = told at h1 h2 h3
  split
  · rename_i h
    exact ⟨rfl, Or.inr ⟨(Bool.and_eq_true _ _ ▸ h).1, rfl, rfl⟩⟩
  split
  · exact ⟨rfl, Or.inl ⟨rfl, rfl⟩⟩
  split
  · exact ⟨h1, Or.inl ⟨h2, h3⟩⟩
  · exact ⟨h1, Or.inl ⟨h2, h3⟩⟩

end DeskHop.Client
