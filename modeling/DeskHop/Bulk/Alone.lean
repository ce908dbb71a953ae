/-
  DeskHop.Bulk.Alone — an endpoint with one stream at most.

  With no other stream in the table, what a turn does is a matter of that stream alone: it
  is replaced, and messages go to its peer (`Data.after`). Here is what exactly the
  sender's loop makes of a stream (`pumpSender_after`), how a lone stream is found, what a
  tick comes to, and the terms two endpoints are on in a transfer (`Terms`).
-/

import DeskHop.Bulk.Directions
import DeskHop.Bulk.Moves
import DeskHop.Bulk.Receiver
import DeskHop.Lib.Window

namespace DeskHop.Bulk

open DeskHop.Lib DeskHop.Wire

/-! ## One stream replaced, messages to its peer -/

/-- Stream `i` is `s` now, and `msgs` are for its peer. -/
def Data.after (d : Data) (i : Handle) (s : Stream) (msgs : List (List Byte)) : Data :=
  { d with s := Function.update d.s i s, out := d.out ++ msgs.map fun p => (s.peer, p) }

namespace Data

variable (d : Data) (i : Handle) (s s' : Stream) (msgs msgs' : List (List Byte))

@[simp] theorem after_self : (d.after i s msgs).s i = s := Function.update_self ..
@[simp] theorem after_ne {j : Handle} (h : j ≠ i) : (d.after i s msgs).s j = d.s j := Function.update_of_ne h ..
@[simp] theorem after_notes : (d.after i s msgs).notes = d.notes := rfl
@[simp] theorem after_window : (d.after i s msgs).window = d.window := rfl

theorem after_after (hpeer : s.peer = s'.peer) :
    (d.after i s msgs).after i s' msgs' = d.after i s' (msgs ++ msgs') := by
  simp only [after, Function.update_idem, List.map_append, List.append_assoc, hpeer]

theorem after_nothing : d.after i (d.s i) [] = d := by
  simp only [after, Function.update_eq_self, List.map_nil, List.append_nil]

theorem upd_after (f : Stream → Stream) : d.upd i f = d.after i (f (d.s i)) [] := by
  simp only [upd, after, List.map_nil, List.append_nil]

theorem upd_then_after (f : Stream → Stream) : (d.upd i f).after i s msgs = d.after i s msgs := by
  simp only [upd, after, Function.update_idem]

theorem sendOp_after (op : Byte) (extra : List Byte) (now : Time) :
    d.sendOp i op extra now = d.after i { d.s i with lastTx := now } [op :: (d.s i).id :: extra] := rfl

theorem mail_after {d : Data} (hout : d.out = []) : (d.after i s msgs).mail s.peer = msgs := by
  have hall : (msgs.map fun p => (s.peer, p)).filter (·.1 = s.peer) = msgs.map fun p => (s.peer, p) := by
    refine List.filter_eq_self.mpr fun x hx => ?_
    obtain ⟨p, -, rfl⟩ := List.mem_map.mp hx
    exact decide_eq_true rfl
  rw [mail, after, hout, List.nil_append, hall, List.map_map]
  exact List.map_id _

end Data

/-! ## The sender's loop -/

/-- Chunk `q` of a content. -/
def chunkMsg (id : UInt8) (content : List Byte) (q : Nat) : List Byte :=
  opChunk :: id :: (put16 (UInt16.ofNat q) ++ piece content (UInt16.ofNat q))

theorem sendChunk_after (d : Data) (i : Handle) (now : Time) :
    sendChunk d i now = d.after i { d.s i with nextSeq := (d.s i).nextSeq + 1, lastTx := now }
      [chunkMsg (d.s i).id (d.s i).src (d.s i).nextSeq.toNat] := by
  rw [sendChunk, Data.sendOp_after, Data.upd_after, Data.after_self, Data.after_after _ _ _ _ _ _ (by rfl), chunkMsg,
    UInt16.ofNat_toNat]
  rfl

/-- How far the window lets a stream go. -/
def Stream.reach (total : UInt16) (s : Stream) : Nat :=
  max s.nextSeq.toNat (min total.toNat (s.acked.toNat + s.window.toNat))

theorem reach_lt (total : UInt16) (s : Stream) : s.reach total < 65536 := by
  have h1 := s.nextSeq.toNat_lt
  have h2 := total.toNat_lt
  unfold Stream.reach
  omega

/-- The loop's condition, in numbers. -/
theorem may_send {total : UInt16} {s : Stream} (hle : s.acked ≤ s.nextSeq) :
    (s.nextSeq < total ∧ s.nextSeq - s.acked < s.window.toUInt16) ↔ s.nextSeq.toNat < s.reach total := by
  rw [UInt16.lt_iff_toNat_lt, UInt16.lt_iff_toNat_lt, UInt16.toNat_sub_of_le _ _ hle, UInt8.toNat_toUInt16]
  have := UInt16.le_iff_toNat_le.mp hle
  unfold Stream.reach
  omega

theorem pumpLoop_after {total : UInt16} {i : Handle} {now : Time} (fuel : Nat) (d : Data)
    (hle : (d.s i).acked ≤ (d.s i).nextSeq) (hfuel : total.toNat - (d.s i).nextSeq.toNat ≤ fuel) :
    ∃ lastTx, pumpLoop total i now fuel d =
      d.after i { d.s i with nextSeq := UInt16.ofNat ((d.s i).reach total), lastTx := lastTx }
        ((List.range' (d.s i).nextSeq.toNat ((d.s i).reach total - (d.s i).nextSeq.toNat)).map
          (chunkMsg (d.s i).id (d.s i).src)) := by
  induction fuel generalizing d with
  | zero =>
    have hreach : (d.s i).reach total = (d.s i).nextSeq.toNat := by
      unfold Stream.reach
      omega
    refine ⟨(d.s i).lastTx, ?_⟩
    rw [hreach, Nat.sub_self, UInt16.ofNat_toNat]
    exact (d.after_nothing i).symm
  | succ fuel ih =>
    rw [pumpLoop]
    by_cases hmay : (d.s i).nextSeq.toNat < (d.s i).reach total
    · rw [if_pos ((may_send hle).mpr hmay), sendChunk_after]
      have hsucc : ((d.s i).nextSeq + 1).toNat = (d.s i).nextSeq.toNat + 1 :=
        toNat_succ ((may_send hle).mpr hmay).1
      have hreach : Stream.reach total { d.s i with nextSeq := (d.s i).nextSeq + 1, lastTx := now } =
          (d.s i).reach total := by
        unfold Stream.reach at hmay ⊢
        show max ((d.s i).nextSeq + 1).toNat (min total.toNat ((d.s i).acked.toNat + (d.s i).window.toNat)) = _
        omega
      obtain ⟨k, hk⟩ := Nat.exists_eq_add_of_lt hmay
      obtain ⟨lastTx, hrest⟩ := ih (d.after i { d.s i with nextSeq := (d.s i).nextSeq + 1, lastTx := now }
        [chunkMsg (d.s i).id (d.s i).src (d.s i).nextSeq.toNat])
        (by
          rw [Data.after_self]
          have := UInt16.le_iff_toNat_le.mp hle
          exact UInt16.le_iff_toNat_le.mpr (by show (d.s i).acked.toNat ≤ ((d.s i).nextSeq + 1).toNat; omega))
        (by rw [Data.after_self, hsucc]; omega)
      refine ⟨lastTx, ?_⟩
      rw [hrest, Data.after_self, hreach, Data.after_after _ _ _ _ _ _ (by rfl), hsucc, hk,
        show (d.s i).nextSeq.toNat + k + 1 - (d.s i).nextSeq.toNat = k + 1 by omega, List.range'_succ,
        show (d.s i).nextSeq.toNat + k + 1 - ((d.s i).nextSeq.toNat + 1) = k by omega]
      rfl
    · rw [if_neg fun h => hmay ((may_send hle).mp h)]
      have hreach : (d.s i).reach total = (d.s i).nextSeq.toNat := by
        unfold Stream.reach at hmay ⊢
        omega
      refine ⟨(d.s i).lastTx, ?_⟩
      rw [hreach, Nat.sub_self, UInt16.ofNat_toNat]
      exact (d.after_nothing i).symm

/-- The window is filled, and with the last chunk out the stream waits for the verdict. -/
theorem pumpSender_after (d : Data) {i : Handle} (now : Time) (hst : (d.s i).state = .sending)
    (hle : (d.s i).acked ≤ (d.s i).nextSeq) :
    ∃ lastTx, pumpSender d i now =
      d.after i { d.s i with
          state := if (chunksFor (d.s i).total).toNat ≤ (d.s i).reach (chunksFor (d.s i).total) then .draining else .sending
          nextSeq := UInt16.ofNat ((d.s i).reach (chunksFor (d.s i).total)), lastTx := lastTx }
        ((List.range' (d.s i).nextSeq.toNat
          ((d.s i).reach (chunksFor (d.s i).total) - (d.s i).nextSeq.toNat)).map (chunkMsg (d.s i).id (d.s i).src)) := by
  obtain ⟨lastTx, hloop⟩ := @pumpLoop_after (chunksFor (d.s i).total) i now _ d hle (Nat.le_refl _)
  refine ⟨lastTx, ?_⟩
  simp only [pumpSender]
  rw [hloop, Data.after_self]
  have hge : UInt16.ofNat ((d.s i).reach (chunksFor (d.s i).total)) ≥ chunksFor (d.s i).total ↔
      (chunksFor (d.s i).total).toNat ≤ (d.s i).reach (chunksFor (d.s i).total) := by
    have hmod : (UInt16.ofNat ((d.s i).reach (chunksFor (d.s i).total))).toNat =
        (d.s i).reach (chunksFor (d.s i).total) := by
      rw [UInt16.toNat_ofNat', Nat.mod_eq_of_lt (reach_lt _ _)]
    rw [ge_iff_le, UInt16.le_iff_toNat_le, hmod]
  by_cases hlast : (chunksFor (d.s i).total).toNat ≤ (d.s i).reach (chunksFor (d.s i).total)
  · rw [if_pos ⟨hge.mpr hlast, hst⟩, if_pos hlast, Data.upd_after, Data.after_self, Data.after_after _ _ _ _ _ _ (by rfl),
      List.append_nil]
    rfl
  · rw [if_neg fun h => hlast (hge.mp h.1), if_neg hlast, ← hst]

/-! ## No other stream -/

/-- No other stream than `i` is in the table. -/
def Data.Alone (d : Data) (i : Handle) : Prop := ∀ j, j ≠ i → (d.s j).state = .free

/-- Nothing is in the table. -/
def Data.Vacant (d : Data) : Prop := ∀ j, (d.s j).state = .free

section alone

variable {d : Data} {i : Handle}

theorem Data.Alone.after (h : d.Alone i) (s : Stream) (msgs : List (List Byte)) : (d.after i s msgs).Alone i :=
  fun j hj => (congrArg Stream.state (d.after_ne i s msgs hj)).trans (h j hj)

theorem Data.Vacant.alone (h : d.Vacant) (i : Handle) : d.Alone i := fun j _ => h j

theorem Data.Vacant.slotFind (h : d.Vacant) (peer : Addr) (id : UInt8) (outbound : Bool) :
    d.slotFind peer id outbound = none := by
  refine List.find?_eq_none.mpr fun j _ => ?_
  rw [h j]
  simp

theorem Data.Alone.slotFind (h : d.Alone i) (hused : (d.s i).state ≠ .free) {outbound : Bool}
    (hi : i ∈ Data.half outbound) : d.slotFind (d.s i).peer (d.s i).id outbound = some i := by
  cases hfind : d.slotFind (d.s i).peer (d.s i).id outbound with
  | none =>
    have := List.find?_eq_none.mp hfind i hi
    simp [hused] at this
  | some j =>
    by_cases hj : j = i
    · rw [hj]
    · exact absurd (h j hj) (d.slotFind_some hfind).1

/-- A message other than an offer, for the stream at `i`. -/
theorem dataRx_stream {src : Addr} {id : UInt8} {op : Byte} (hop : op ≠ opOffer)
    (haddr : d.addressee src id op = some i) (dst : Addr) (extra : List Byte) (now : Time) (app : Fin 2 → App) :
    dataRx d (dataFrame src dst (op :: id :: extra)) now app = rxStream d i op extra now app :=
  dataRx_addressed (f := dataFrame src dst (op :: id :: extra)) rfl (Nat.le_add_left 2 extra.length) hop haddr now app

/-- An ACCEPT, an ACK or a DONE for a lone stream that goes out. -/
theorem Data.Alone.answer (h : d.Alone i) (hi : i ∈ Data.half true) (hused : (d.s i).state ≠ .free) (op : Byte)
    (hop : op = opAccept ∨ op = opAck ∨ op = opDone) (dst : Addr) (extra : List Byte) (now : Time) (app : Fin 2 → App) :
    dataRx d (dataFrame (d.s i).peer dst (op :: (d.s i).id :: extra)) now app = rxStream d i op extra now app := by
  refine dataRx_stream ?_ ?_ dst extra now app
  · rcases hop with rfl | rfl | rfl <;> decide
  · rw [addressee_answer d _ _ hop]
    exact h.slotFind hused hi

/-- The timer of stream `i` has run out for what it sent last. -/
def Data.Overdue (d : Data) (now : Time) (i : Handle) : Prop :=
  (d.s i).outbound = true ∧ timeAfter now ((d.s i).lastTx + (d.patience (d.s i)).toUInt32) = true

/-- A tick gives stream `i` up. -/
def Data.GivesUp (d : Data) (now : Time) (i : Handle) : Prop :=
  (d.s i).state ≠ .free ∧ (timeAfter now ((d.s i).lastRx + d.idleTimeoutMs.toUInt32) = true ∨
    d.Overdue now i ∧ (d.s i).retries + 1 > d.budget (d.s i))

instance (d : Data) (now : Time) (i : Handle) : Decidable (d.Overdue now i) := by
  unfold Data.Overdue
  infer_instance

instance (d : Data) (now : Time) (i : Handle) : Decidable (d.GivesUp now i) := by
  unfold Data.GivesUp
  infer_instance

theorem tickSlot_goesOn (now : Time) (app : Handle → App) (hno : ¬ d.GivesUp now i) :
    tickSlot now app d i = d ∨
      d.Overdue now i ∧ tickSlot now app d i = resend (d.upd i fun s => { s with retries := s.retries + 1 }) i now := by
  unfold Data.GivesUp at hno
  by_cases hfree : (d.s i).state = .free
  · exact Or.inl (if_pos hfree)
  have hidle : ¬ timeAfter now ((d.s i).lastRx + d.idleTimeoutMs.toUInt32) = true := fun h => hno ⟨hfree, Or.inl h⟩
  simp only [tickSlot, if_neg hfree, if_neg hidle]
  by_cases hover : d.Overdue now i
  · have hbudget : ¬ (d.s i).retries + 1 > d.budget (d.s i) := fun h => hno ⟨hfree, Or.inr ⟨hover, h⟩⟩
    refine Or.inr ⟨hover, ?_⟩
    simp only [hover.1, hover.2, Bool.not_true, Bool.false_eq_true, if_false, Data.upd_self, if_neg hbudget]
  · left
    rcases Bool.eq_false_or_eq_true (d.s i).outbound with hout | hout
    · have htime : timeAfter now ((d.s i).lastTx + (d.patience (d.s i)).toUInt32) = false :=
        Bool.eq_false_iff.mpr fun h => hover ⟨hout, h⟩
      simp [hout, htime]
    · simp [hout]

theorem tickSlot_free (now : Time) (app : Handle → App) (hi : (d.s i).state = .free) : tickSlot now app d i = d :=
  if_pos hi

/-- A tick is the turn of that stream. -/
theorem Data.Alone.tick (h : d.Alone i) (now : Time) (app : Handle → App) (hafter : (tickSlot now app d i).Alone i) :
    dataTick d now app = tickSlot now app d i := by
  have hskip (is : List Handle) (hi : i ∉ is) {d' : Data} (h' : d'.Alone i) : is.foldl (tickSlot now app) d' = d' := by
    induction is with
    | nil => rfl
    | cons j is ih =>
      rw [List.mem_cons, not_or] at hi
      rw [List.foldl_cons, tickSlot_free now app (h' j (Ne.symm hi.1))]
      exact ih hi.2
  obtain ⟨before, rest, hsplit⟩ := List.append_of_mem (List.mem_finRange i)
  have honce := List.nodup_finRange 8
  rw [hsplit, List.nodup_middle, List.nodup_cons, List.mem_append, not_or] at honce
  rw [dataTick, hsplit, List.foldl_append, hskip before honce.1.1 h, List.foldl_cons, hskip rest honce.1.2 hafter]

end alone

/-- The slots a stream is given in an empty table. -/
def outSlot : Handle := ⟨0, by decide⟩
def inSlot : Handle := ⟨4, by decide⟩

/-! ## The terms of a transfer -/

/-- Who sends what to whom. -/
structure Terms where
  src : Addr
  dst : Addr
  id : UInt8
  kind : UInt8
  name : List Byte
  content : List Byte
  /-- The sender's own window, which the receiver's replaces unless that is 0. -/
  own : UInt8
  given : UInt8

namespace Terms

variable (m : Terms)

def total : UInt32 := UInt32.ofNat m.content.length
def chunks : Nat := (chunksFor m.total).toNat
def window : UInt8 := if m.given > 0 then m.given else m.own
def every : Nat := (ackEvery m.given).toNat

/-- The stream on offer. -/
def offering : Stream :=
  { Stream.zero with
    state := .offering, outbound := true, id := m.id, peer := m.dst, kind := m.kind, total := m.total,
    src := m.content, crc := contentCrc m.content, window := m.own, rewoundTo := noRewind, name := nameField m.name }

/-- The stream that goes out, where the sender is. -/
def steering (x : Flow) : Stream :=
  { m.offering with
    state := .sending, nextSeq := UInt16.ofNat x.next, acked := UInt16.ofNat x.acked,
    rewoundTo := (x.rewound.map UInt16.ofNat).getD noRewind, window := m.window }

/-- With the last chunk out it waits for the verdict. -/
def sending (x : Flow) : Stream :=
  { m.steering x with state := if m.chunks ≤ x.next then .draining else .sending }

def offer : List Byte := opOffer :: m.id :: offerExtra m.offering
def accept : List Byte := [opAccept, m.id, m.given]
def chunk (q : Nat) : List Byte := chunkMsg m.id m.content q
def ack (n : Nat) : List Byte := opAck :: m.id :: (put16 (UInt16.ofNat n) ++ [m.given])

/-- What the receiver makes of all the chunks together. -/
def verdict : Byte :=
  if adler32Update adlerInit (m.content.take (60 * m.chunks)) = contentCrc m.content then dataOk else dataCorrupt

def done : List Byte := [opDone, m.id, m.verdict]

theorem chunks_lt : m.chunks < 65536 := UInt16.toNat_lt _

end Terms

end DeskHop.Bulk
