/-
  DeskHop.Bulk.Reads — what the bulk transport reads of a payload (`core/src/data.c`).

  `dataRxRead` is `dhp_data_rx` once more, with every read of the payload failing past its
  end. An OFFER's fixed fields are twelve bytes (`offerMin`); the constant the code checks
  against says eleven.

  Proved (`payload_reads_iff`): every read stays inside and a message too short for its
  fixed fields changes nothing, but for an OFFER of exactly eleven bytes, of which the
  twelfth is read, and a CHUNK or ACK cut short, which still counts as word from the peer.
  With PAIR there is no exception.
-/

import DeskHop.Bulk.Data
import DeskHop.Trust.Reads

namespace DeskHop.Bulk

open DeskHop.Wire

/-! ## Reading -/

def rxOfferRead (d : Data) (peer : Addr) (id : UInt8) (p : List Byte) (now : Time) (app : App) : Option Data :=
  if p.length < offerFixed - 2 then some d
  else do
    let kind ← readByte p 0
    let total ← read32 p 1
    let crc ← read32 p 5
    let nl ← readByte p 9
    let nl := if nl.toNat > nameMax || 10 + nl.toNat > p.length then 0 else nl.toNat
    match d.slotFind peer id false with
    | some i => return if (d.s i).state = .receiving then sendAck d i now else d
    | none =>
      match d.slotFree false with
      | none => return d.emit peer id opReject [dataNoStream]
      | some i =>
        let name ← readBytes p 10 nl
        let s := { Stream.zero with
          state := .offered, id := id, peer := peer, kind := kind, total := total, crc := crc, window := d.window,
          running := adlerInit, lastRx := now, name := nameField name }
        let d := d.upd i fun _ => s
        return if total = 0 || total > d.maxInbound then (d.sendOp i opReject [dataTooBig] now).upd i fun _ => .zero
          else app (d.note (.offered i id peer s.kind s.total s.name))

def rxChunkRead (d : Data) (i : Handle) (p : List Byte) (now : Time) (app : Fin 2 → App) : Option Data :=
  if p.length < 2 || (d.s i).state != .receiving then some d
  else do
    let seq ← read16 p 0
    let n := p.length - 2
    let d := d.upd i fun s => { s with lastRx := now }
    if seq ≠ (d.s i).nextSeq then return if timeAfter now ((d.s i).lastTx + 20) then sendAck d i now else d
    else if offsetOf seq + UInt32.ofNat n > (d.s i).total then
      return (d.sendOp i opAbort [dataCorrupt] now).finish i dataCorrupt (app ⟨0, Nat.two_pos⟩)
    else
      let data ← readBytes p 2 n
      let d := d.upd i fun s => { s with running := adler32Update s.running data }
      return afterChunk (app ⟨0, Nat.two_pos⟩ (d.note (.chunk i (offsetOf seq) data))) i now (app ⟨1, Nat.one_lt_two⟩)

def takeWindowRead (p : List Byte) (k : Nat) (s : Stream) : Option Stream :=
  if k + 1 ≤ p.length then do
    let w ← readByte p k
    return if w > 0 then { s with window := w } else s
  else some s

def rxAckRead (d : Data) (i : Handle) (p : List Byte) (now : Time) : Option Data :=
  if 2 ≤ p.length ∧ ((d.s i).state = .sending ∨ (d.s i).state = .draining) then do
    let next ← read16 p 0
    let d := d.upd i (Stream.progress next)
    let d :=
      if next < (d.s i).nextSeq ∧ (d.s i).rewoundTo ≠ next then
        { d with nRetransmits := d.nRetransmits + 1 }.upd i (Stream.rewind next)
      else d
    let s ← takeWindowRead p 2 (d.s i)
    return pumpSender ((d.upd i fun _ => s).upd i Stream.resume) i now
  else some d

def rxAcceptRead (d : Data) (i : Handle) (p : List Byte) (now : Time) : Option Data :=
  if (d.s i).state = .offering then do
    let s ← takeWindowRead p 0 (d.s i)
    return pumpSender ((d.upd i fun _ => s).upd i Stream.resume) i now
  else some d

def resultRead (p : List Byte) (default : Byte) : Option Byte := if 1 ≤ p.length then readByte p 0 else some default

def rxStreamRead (d : Data) (i : Handle) (op : Byte) (p : List Byte) (now : Time) (app : Fin 2 → App) : Option Data :=
  let d := d.upd i fun s => { s with lastRx := now, retries := 0 }
  if op = opAccept then rxAcceptRead d i p now
  else if op = opReject then return d.finish i (← resultRead p dataRefused) (app ⟨0, Nat.two_pos⟩)
  else if op = opChunk then rxChunkRead d i p now app
  else if op = opAck then rxAckRead d i p now
  else if op = opDone then return d.finish i (← resultRead p dataOk) (app ⟨0, Nat.two_pos⟩)
  else if op = opAbort then return d.finish i (← resultRead p dataCancelled) (app ⟨0, Nat.two_pos⟩)
  else some d

def dataRxRead (d : Data) (f : Frame) (now : Time) (app : Fin 2 → App) : Option Data :=
  if f.type ≠ msgData ∨ f.payload.length < 2 then some d
  else do
    let op ← readByte f.payload 0
    let id ← readByte f.payload 1
    let p := f.payload.drop 2
    if op = opOffer then rxOfferRead d f.src id p now (app ⟨0, Nat.two_pos⟩)
    else
      match d.addressee f.src id op with
      | none => return d
      | some i => rxStreamRead d i op p now app

/-! ## Which read fails -/

/-- The name is copied from inside the payload: a length that would not fit is none. -/
theorem nameLength_fits (p : List Byte) (nl : Byte) (h : 10 ≤ p.length) :
    10 + (if nl.toNat > nameMax || 10 + nl.toNat > p.length then 0 else nl.toNat) ≤ p.length := by
  split
  · exact h
  · rename_i hfits
    simp only [Bool.or_eq_true, decide_eq_true_eq, not_or] at hfits
    omega

theorem rxOfferRead_eq (d : Data) (peer : Addr) (id : UInt8) {p : List Byte} (now : Time) (app : App)
    (h : p.length ≠ 9) : rxOfferRead d peer id p now app = some (rxOffer d peer id p now app) := by
  rw [rxOfferRead, rxOffer]
  by_cases hl : p.length < offerFixed - 2
  · rw [if_pos hl, if_pos hl]
  rw [if_neg hl, if_neg hl]
  have hlen : 10 ≤ p.length := by
    have hnine : 9 ≤ p.length := Nat.not_lt.mp hl
    omega
  have hkind : readByte p 0 = some (byteAt p 0) := readByte_inside (by omega)
  have htotal : read32 p 1 = some (get32 p 1) := read32_inside (by omega)
  have hcrc : read32 p 5 = some (get32 p 5) := read32_inside (by omega)
  have hnl : readByte p 9 = some (byteAt p 9) := readByte_inside (by omega)
  have hname := readBytes_inside (nameLength_fits p (byteAt p 9) hlen)
  simp only [hkind, htotal, hcrc, hnl, Option.bind_eq_bind, Option.bind_some]
  cases d.slotFind peer id false with
  | some i => rfl
  | none =>
    cases d.slotFree false with
    | none => rfl
    | some i =>
      simp only [hname, Option.bind_some]
      rfl

/-- The length of the name is one byte past an offer of eleven. -/
theorem rxOfferRead_nine (d : Data) (peer : Addr) (id : UInt8) {p : List Byte} (now : Time) (app : App)
    (h : p.length = 9) : rxOfferRead d peer id p now app = none := by
  have hkind : readByte p 0 = some (byteAt p 0) := readByte_inside (by omega)
  have htotal : read32 p 1 = some (get32 p 1) := read32_inside (by omega)
  have hcrc : read32 p 5 = some (get32 p 5) := read32_inside (by omega)
  have hnl : readByte p 9 = none := readByte_past (by omega)
  rw [rxOfferRead, if_neg (by rw [h, offerFixed]; omega)]
  simp only [hkind, htotal, hcrc, hnl, Option.bind_eq_bind, Option.bind_some, Option.bind_none]

theorem takeWindowRead_eq (p : List Byte) (k : Nat) (s : Stream) : takeWindowRead p k s = some (s.takeWindow p k) := by
  rw [takeWindowRead, Stream.takeWindow]
  by_cases hk : k + 1 ≤ p.length
  · rw [if_pos hk, readByte_inside hk]
    simp only [Option.bind_eq_bind, Option.bind_some, hk, true_and]
    rfl
  · rw [if_neg hk, if_neg fun h => hk h.1]

theorem resultRead_eq (p : List Byte) (default : Byte) : resultRead p default = some (resultOf p default) := by
  rw [resultRead, resultOf]
  split
  · exact readByte_inside (by omega)
  · rfl

theorem rxAcceptRead_eq (d : Data) (i : Handle) (p : List Byte) (now : Time) :
    rxAcceptRead d i p now = some (rxAccept d i p now) := by
  rw [rxAcceptRead, rxAccept]
  split
  · rw [takeWindowRead_eq]
    rfl
  · rfl

theorem rxAckRead_eq (d : Data) (i : Handle) (p : List Byte) (now : Time) :
    rxAckRead d i p now = some (rxAck d i p now) := by
  rw [rxAckRead, rxAck]
  split
  · rename_i h
    have hnext : read16 p 0 = some (get16 p 0) := read16_inside (by omega)
    simp only [hnext, takeWindowRead_eq, Option.bind_eq_bind, Option.bind_some]
    rfl
  · rfl

theorem rxChunkRead_eq (d : Data) (i : Handle) (p : List Byte) (now : Time) (app : Fin 2 → App) :
    rxChunkRead d i p now app = some (rxChunk d i p now app) := by
  rw [rxChunkRead, rxChunk]
  by_cases hl : (p.length < 2 || (d.s i).state != .receiving) = true
  · rw [if_pos hl, if_pos hl]
  rw [if_neg hl, if_neg hl]
  have hlen : 2 ≤ p.length := by
    have hlong : ¬ p.length < 2 := fun hshort => hl (by simp [hshort])
    omega
  have hseq : read16 p 0 = some (get16 p 0) := read16_inside (by omega)
  have hdata : readBytes p 2 (p.length - 2) = some (p.drop 2) := by
    rw [readBytes_inside (by omega), List.take_of_length_le (by rw [List.length_drop])]
  simp only [hseq, hdata, Option.bind_eq_bind, Option.bind_some, List.length_drop]
  split
  · split <;> rfl
  split <;> rfl

theorem rxStreamRead_eq (d : Data) (i : Handle) (op : Byte) (p : List Byte) (now : Time) (app : Fin 2 → App) :
    rxStreamRead d i op p now app = some (rxStream d i op p now app) := by
  simp only [rxStreamRead, rxStream, rxAcceptRead_eq, resultRead_eq, rxChunkRead_eq, rxAckRead_eq, Option.bind_eq_bind,
    Option.bind_some, Option.pure_def]
  split
  · rfl
  split
  · rfl
  split
  · rfl
  split
  · rfl
  split
  · rfl
  split <;> rfl

/-- An OFFER that stops short of its name's length. -/
def CutOffer (f : Frame) : Prop := f.type = msgData ∧ byteAt f.payload 0 = opOffer ∧ f.payload.length = 11

theorem dataRxRead_eq (d : Data) {f : Frame} (now : Time) (app : Fin 2 → App) (h : ¬ CutOffer f) :
    dataRxRead d f now app = some (dataRx d f now app) := by
  rw [dataRxRead, dataRx]
  by_cases hl : f.type ≠ msgData ∨ f.payload.length < 2
  · rw [if_pos hl, if_pos hl]
  rw [if_neg hl, if_neg hl]
  obtain ⟨htype, hlen⟩ := not_or.mp hl
  have hop : readByte f.payload 0 = some (byteAt f.payload 0) := readByte_inside (by omega)
  have hid : readByte f.payload 1 = some (byteAt f.payload 1) := readByte_inside (by omega)
  simp only [hop, hid, Option.bind_eq_bind, Option.bind_some]
  split
  · rename_i hoffer
    refine rxOfferRead_eq d f.src _ now _ fun hnine => h ⟨not_not.mp htype, hoffer, ?_⟩
    rw [List.length_drop] at hnine
    omega
  · cases d.addressee f.src (byteAt f.payload 1) (byteAt f.payload 0) with
    | none => rfl
    | some i => exact rxStreamRead_eq d i _ _ now app

theorem dataRxRead_cut (d : Data) {f : Frame} (now : Time) (app : Fin 2 → App) (h : CutOffer f) :
    dataRxRead d f now app = none := by
  obtain ⟨htype, hoffer, hlen⟩ := h
  have hop : readByte f.payload 0 = some (byteAt f.payload 0) := readByte_inside (by omega)
  have hid : readByte f.payload 1 = some (byteAt f.payload 1) := readByte_inside (by omega)
  rw [dataRxRead, if_neg (by simp only [htype, ne_eq, not_true_eq_false, false_or]; omega)]
  simp only [hop, hid, Option.bind_eq_bind, Option.bind_some, if_pos hoffer]
  exact rxOfferRead_nine d f.src _ now _ (by rw [List.length_drop]; omega)

/-! ## What is too short -/

/-- op, id, kind, total (4), crc (4) and the name's length. -/
def offerMin : Nat := 12

/-- The fixed fields of a message. A window, a reason or a result may be left out. -/
def dataMin (payload : List Byte) : Nat :=
  if byteAt payload 0 = opOffer then offerMin
  else if byteAt payload 0 = opChunk ∨ byteAt payload 0 = opAck then 4
  else 2

/-- A CHUNK or ACK without its sequence number, for a stream that was not heard on just
    now. -/
structure CutReport (d : Data) (f : Frame) (now : Time) : Prop where
  type : f.type = msgData
  op : byteAt f.payload 0 = opChunk ∨ byteAt f.payload 0 = opAck
  named : 2 ≤ f.payload.length
  cut : f.payload.length < 4
  stirs : ∃ i, d.addressee f.src (byteAt f.payload 1) (byteAt f.payload 0) = some i ∧
    ¬ ((d.s i).lastRx = now ∧ (d.s i).retries = 0)

/-- The stream is heard on, and that is all. -/
theorem rxStream_cut (d : Data) (i : Handle) {op : Byte} {p : List Byte} (now : Time) (app : Fin 2 → App)
    (hop : op = opChunk ∨ op = opAck) (hp : p.length < 2) :
    rxStream d i op p now app = d.upd i fun s => { s with lastRx := now, retries := 0 } := by
  rcases hop with rfl | rfl
  · exact if_pos (by simp [hp])
  · exact if_neg (by omega)

theorem upd_eq_self (d : Data) (i : Handle) (f : Stream → Stream) : d.upd i f = d ↔ f (d.s i) = d.s i := by
  constructor
  · intro h
    have hi := congrFun (congrArg Data.s h) i
    rwa [Data.upd_self] at hi
  · intro h
    rw [Data.upd, h, Function.update_eq_self]

theorem heard_eq_self (s : Stream) (now : Time) :
    ({ s with lastRx := now, retries := 0 } : Stream) = s ↔ s.lastRx = now ∧ s.retries = 0 := by
  constructor
  · intro h
    exact ⟨(congrArg Stream.lastRx h).symm, (congrArg Stream.retries h).symm⟩
  · rintro ⟨rfl, h⟩
    rw [← h]

theorem dataRx_short (d : Data) {f : Frame} (now : Time) (app : Fin 2 → App) (hcut : ¬ CutOffer f)
    (h : f.payload.length < dataMin f.payload) : dataRx d f now app = d ↔ ¬ CutReport d f now := by
  rw [dataRx]
  by_cases hl : f.type ≠ msgData ∨ f.payload.length < 2
  · rw [if_pos hl]
    refine iff_of_true rfl fun hr => ?_
    rcases hl with hl | hl
    · exact hl hr.type
    · exact absurd hr.named (by omega)
  rw [if_neg hl]
  obtain ⟨htype, hlen⟩ := not_or.mp hl
  dsimp only
  unfold dataMin at h
  by_cases hoffer : byteAt f.payload 0 = opOffer
  · -- shorter than eleven, or it would be the one that is cut
    rw [if_pos hoffer] at h
    have hne : f.payload.length ≠ 11 := fun heleven => hcut ⟨not_not.mp htype, hoffer, heleven⟩
    have hshort : (f.payload.drop 2).length < offerFixed - 2 := by
      rw [List.length_drop, offerFixed]
      rw [offerMin] at h
      omega
    rw [if_pos hoffer, rxOffer, if_pos hshort]
    refine iff_of_true rfl fun hr => ?_
    rcases hr.op with hop | hop <;> rw [hoffer] at hop <;> exact absurd hop (by decide)
  · rw [if_neg hoffer] at h
    rw [if_neg hoffer]
    split at h
    · rename_i hop
      have hp : (f.payload.drop 2).length < 2 := by
        rw [List.length_drop]
        omega
      cases ha : d.addressee f.src (byteAt f.payload 1) (byteAt f.payload 0) with
      | none =>
        refine iff_of_true rfl fun hr => ?_
        obtain ⟨i, hi, -⟩ := hr.stirs
        rw [ha] at hi
        cases hi
      | some i =>
        dsimp only
        rw [rxStream_cut d i now app hop hp, upd_eq_self, heard_eq_self]
        constructor
        · intro hsame hr
          obtain ⟨j, hj, hne⟩ := hr.stirs
          rw [ha] at hj
          cases hj
          exact hne hsame
        · intro hr
          by_contra hne
          exact hr ⟨not_not.mp htype, hop, by omega, h, i, ha, hne⟩
    · omega

/-- Every read of a DATA payload stays inside, and one too short for its fixed fields
    changes nothing, exactly if it is neither an OFFER of eleven bytes nor a CHUNK or ACK
    cut short; of a PAIR payload both hold always. -/
theorem payload_reads_iff (c : Trust.Crypto) :
    (∀ (d : Data) (f : Frame) (now : Time) (app : Fin 2 → App),
      ((dataRxRead d f now app).isSome = true ∧ (f.payload.length < dataMin f.payload → dataRx d f now app = d)) ↔
        ¬ CutOffer f ∧ ¬ CutReport d f now) ∧
    ∀ (p : Trust.Pair) (payload : List Byte) (now : Time), (Trust.pairRxRead c p payload now).isSome = true ∧
      (payload.length < Trust.pairMin p payload → Trust.pairRx c p payload now = p) := by
  refine ⟨fun d f now app => ?_, fun p payload now => ⟨?_, fun h => Trust.pairRx_short c h now⟩⟩
  · by_cases hcut : CutOffer f
    · rw [dataRxRead_cut d now app hcut]
      exact iff_of_false (fun h => by cases h.1) fun h => h.1 hcut
    · rw [dataRxRead_eq d now app hcut]
      refine ⟨fun h => ⟨hcut, fun hr => ?_⟩, fun h => ⟨rfl, fun hs => (dataRx_short d now app hcut hs).mpr h.2⟩⟩
      have hs : f.payload.length < dataMin f.payload := by
        have hmin : dataMin f.payload = 4 := by
          rw [dataMin, if_neg, if_pos hr.op]
          intro hoffer
          rcases hr.op with hop | hop <;> rw [hoffer] at hop <;> exact absurd hop (by decide)
        rw [hmin]
        exact hr.cut
      exact (dataRx_short d now app hcut hs).mp (h.2 hs) hr
  · rw [Trust.pairRxRead_eq]
    rfl

/-- An OFFER of eleven bytes: five bytes of kind 0, and no length of a name. -/
def elevenByteOffer : Frame := ⟨msgData, ttlDefault, 2, 1, 1, [opOffer, 1, 0, 5, 0, 0, 0, 9, 9, 9, 9], []⟩

/-- The byte past it is read, and a stream begins. -/
theorem offer_read_past :
    (¬ ∀ (d : Data) (f : Frame) (now : Time) (app : Fin 2 → App), f.type = msgData → f.payload.length ≤ 64 →
      (dataRxRead d f now app).isSome = true) ∧
    ¬ ∀ (d : Data) (f : Frame) (now : Time) (app : Fin 2 → App), f.type = msgData → f.payload.length ≤ 64 →
      f.payload.length < dataMin f.payload → (dataRx d f now app).s = d.s := by
  constructor
  · intro h
    exact absurd (h dataInit elevenByteOffer 0 (fun _ => id) rfl (by decide)) (by decide +kernel)
  · intro h
    have hslot := congrFun (h dataInit elevenByteOffer 0 (fun _ => id) rfl (by decide) (by decide)) 4
    exact absurd (congrArg Stream.state hslot) (by decide +kernel)

end DeskHop.Bulk
