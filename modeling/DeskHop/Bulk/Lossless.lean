/-
  DeskHop.Bulk.Lossless — one transfer over a channel that loses nothing.

  Two endpoints at rest, a content sent, an application that accepts it: no message is
  lost and no timer gives a stream up, though timers may have messages sent again. The
  transfer is then the flow of `Lib.Window`, with offers before it and a verdict after it
  (`Stage`). Proved: what each turn of the sender (`Pictured.sender_tick`,
  `Pictured.sender_rx`) and of the receiver (`Pictured.receiver_app`,
  `Pictured.receiver_rx`) makes of a stage.
-/

import DeskHop.Bulk.Incoming

namespace DeskHop.Bulk

open DeskHop.Lib DeskHop.Wire

/-! ## Where a transfer has got to -/

/-- The numbers are of offers on their way, the last one of ACKs sent before the first chunk. -/
inductive Stage where
  | offering (offers : Nat)
  | pending (offers : Nat)
  | accepted (offers repeats : Nat)
  | running (offers : Nat) (x : Flow)
  | finished (x : Flow)

/-- The `e` chunks that have been handed over are all there are, and there are some. -/
def Terms.Taken (m : Terms) (e : Nat) : Prop := 0 < m.chunks ∧ e = m.chunks

instance (m : Terms) (e : Nat) : Decidable (m.Taken e) := by
  unfold Terms.Taken
  infer_instance

/-- The one stream in the table, give or take its times. -/
def Data.Holds (d : Data) (i : Handle) : Option Stream → Prop
  | none => d.Vacant
  | some s => d.Alone i ∧ Stamped s (d.s i)

/-- The stream that comes in has handed over the chunks before `e`, since the log was `base`. -/
def Terms.Handed (m : Terms) (e : Nat) (base notes : List Note) : Prop :=
  ∃ mid, notes = base ++ mid ∧ delivered inSlot notes = m.content.take (60 * e)

/-- It has been reported received, with all the chunks handed over. -/
def Terms.Judged (m : Terms) (base notes : List Note) : Prop :=
  ∃ mid, notes = base ++ mid ++ [.received inSlot m.verdict] ∧
    delivered inSlot (base ++ mid) = m.content.take (60 * m.chunks)

namespace Terms

variable (m : Terms) (e : Nat)

/-- The stream that comes in, when `e` chunks have been handed over. -/
def left : Option Stream := if m.Taken e then none else some (m.receiving e)

/-- The verdict, once there is one. -/
def closing : List (List Byte) := if m.Taken e then [m.done] else []

/-- What the receiving application has been told by then. -/
def HeardAt (base notes : List Note) : Prop := if m.Taken e then m.Judged base notes else m.Handed e base notes

end Terms

namespace Stage

variable (m : Terms)

def outgoing : Stage → Option Stream
  | .offering _ | .pending _ | .accepted _ _ => some m.offering
  | .running _ x => some (m.sending x)
  | .finished _ => none

def incoming : Stage → Option Stream
  | .offering _ | .finished _ => none
  | .pending _ => some m.opened
  | .accepted _ _ => some (m.receiving 0)
  | .running _ x => m.left x.expected

def toR : Stage → List (List Byte)
  | .offering n | .pending n | .accepted n _ => List.replicate n m.offer
  | .running n x => List.replicate n m.offer ++ x.items.map m.chunk
  | .finished x => x.items.map m.chunk

def toS : Stage → List (List Byte)
  | .offering _ | .pending _ | .finished _ => []
  | .accepted _ r => m.accept :: List.replicate r (m.ack 0)
  | .running _ x => x.acks.map m.ack ++ m.closing x.expected

/-- The flow, once it has begun. -/
def flow : Stage → Option Flow
  | .running _ x | .finished x => some x
  | _ => none

def rewinds (g : Stage) : Nat := (g.flow.map Flow.rewinds).getD 0

/-- What the sending application has been told, since the log was `base`. -/
def Said (base notes : List Note) : Stage → Prop
  | .finished _ => ∃ mid, notes = base ++ mid ++ [.sent outSlot m.verdict]
  | _ => ∃ mid, notes = base ++ mid

/-- What the receiving one has. -/
def Heard (base notes : List Note) : Stage → Prop
  | .offering _ => notes = base
  | .pending _ | .accepted _ _ => m.Handed 0 base notes
  | .running _ x => m.HeardAt x.expected base notes
  | .finished _ => m.Judged base notes

/-- The flow is in order, and with offers on the way it has not got far. -/
def Sound : Stage → Prop
  | .running n x => x.Sound m.chunks m.window.toNat m.every ∧ (n = 0 ∨ x.expected = 0)
  | _ => True

end Stage

namespace Transfer

/-- Stage `g` of a transfer on terms `m`, which began at `t0`. -/
structure Pictured (t0 : Transfer) (m : Terms) (t : Transfer) (g : Stage) : Prop where
  addrs : t.addrS = m.src ∧ t.addrR = m.dst
  posted : t.sender.out = [] ∧ t.receiver.out = []
  window : t.receiver.window = m.given
  room : m.total ≤ t.receiver.maxInbound
  outgoing : t.sender.Holds outSlot (g.outgoing m)
  incoming : t.receiver.Holds inSlot (g.incoming m)
  toR : t.toR = g.toR m
  toS : t.toS = g.toS m
  count : t.sender.nRetransmits = t0.sender.nRetransmits + UInt32.ofNat g.rewinds
  said : g.Said m t0.sender.notes t.sender.notes
  heard : g.Heard m t0.receiver.notes t.receiver.notes
  sound : g.Sound m

/-! ## Runs that lose nothing -/

/-- The sender makes no other call, the receiver does nothing but accept, nothing is lost,
    and no timer gives a stream up. -/
def Lossless (t : Transfer) : Event → Prop
  | .sender (.app script _) => script = .done
  | .sender (.tick react now) => (∀ h, react h = .done) ∧ ∀ h, ¬ t.sender.GivesUp now h
  | .sender (.rx react _) => ∀ k, react k = .done
  | .receiver (.tick react now) => (∀ h, (react h).all Call.isAccept = true) ∧ ∀ h, ¬ t.receiver.GivesUp now h
  | .receiver (.app script _) => script.all Call.isAccept = true
  | .receiver (.rx react _) => ∀ k, (react k).all Call.isAccept = true
  | .loseToR _ | .loseToS _ => False

/-- The sender's timer has run out. -/
def Late (t : Transfer) : Event → Prop
  | .sender (.tick _ now) => ∃ h, t.sender.Overdue now h
  | _ => False

/-- Both endpoints idle, nothing on the way. -/
structure Resting (t : Transfer) : Prop where
  sender : t.sender.Vacant
  receiver : t.receiver.Vacant
  posted : t.sender.out = [] ∧ t.receiver.out = []
  toR : t.toR = []
  toS : t.toS = []

/-- A content is sent. -/
def sends (t : Transfer) (kind : UInt8) (name content : List Byte) (now : Time) : Transfer :=
  t.step (.sender (.app (.call (.send t.addrR kind name content) .done .done) now))

end Transfer

inductive Turn where
  | hears
  | reads
  | other
  deriving DecidableEq

/-- Who takes a message off a queue, if anybody does. -/
def Transfer.Event.turn : Transfer.Event → Turn
  | .receiver (.rx _ _) => .hears
  | .sender (.rx _ _) => .reads
  | _ => .other

/-- What a turn makes of a stage, while no timer runs out. -/
inductive Stage.Goes (m : Terms) : Turn → Stage → Stage → Prop
  | stays {g : Stage} : Stage.Goes m .other g g
  | unread {g : Stage} : g.toS m = [] → Stage.Goes m .reads g g
  | unheard {g : Stage} : g.toR m = [] → Stage.Goes m .hears g g
  | offered {n : Nat} : Stage.Goes m .hears (.offering (n + 1)) (.pending n)
  | atOnce {n : Nat} : Stage.Goes m .hears (.offering (n + 1)) (.accepted n 0)
  | ignored {n : Nat} : Stage.Goes m .hears (.pending (n + 1)) (.pending n)
  | accepts {n : Nat} : Stage.Goes m .other (.pending n) (.accepted n 0)
  | answers {n r : Nat} : Stage.Goes m .hears (.accepted (n + 1) r) (.accepted n (r + 1))
  | starts {n r : Nat} : Stage.Goes m .reads (.accepted n r) (.running n (Flow.start m.chunks m.window.toNat r))
  | repeats {n : Nat} {x : Flow} : Stage.Goes m .hears (.running (n + 1) x) (.running n x.repeated)
  | item {x : Flow} (echo : Bool) : x.items ≠ [] →
      Stage.Goes m .hears (.running 0 x) (.running 0 (x.takeItem m.chunks m.every echo))
  | ack {n : Nat} {x : Flow} : x.acks ≠ [] →
      Stage.Goes m .reads (.running n x) (.running n (x.takeAck m.chunks m.window.toNat))
  | told {n : Nat} {x : Flow} : x.acks = [] → m.Taken x.expected → Stage.Goes m .reads (.running n x) (.finished x)
  | drops {x : Flow} : Stage.Goes m .hears (.finished x) (.finished { x with items := x.items.tail })

/-- What a timer that runs out makes of it. -/
inductive Stage.Resends (m : Terms) : Stage → Stage → Prop
  | offering {n : Nat} : Stage.Resends m (.offering n) (.offering (n + 1))
  | pending {n : Nat} : Stage.Resends m (.pending n) (.pending (n + 1))
  | accepted {n r : Nat} : Stage.Resends m (.accepted n r) (.accepted (n + 1) r)
  | running {n : Nat} {x : Flow} : Stage.Resends m (.running n x) (.running n (x.restart m.chunks m.window.toNat))

/-! ## One turn -/

section turns

variable {t0 t : Transfer} {m : Terms} {g g' : Stage}

theorem Data.posted_eq {d : Data} (h : d.out = []) : d.posted = d := by
  cases d
  cases h
  rfl

theorem Data.mail_nil {d : Data} (h : d.out = []) (peer : Addr) : d.mail peer = [] := by
  rw [Data.mail, h]
  rfl

theorem Data.Holds.posted {d : Data} {i : Handle} {o : Option Stream} (h : d.Holds i o) : d.posted.Holds i o := by
  cases o <;> exact h

namespace Transfer

/-- A turn of the sender that leaves it and its queue alone. -/
theorem step_sender_same {e : Act} (hout : t.sender.out = [])
    (hturn : Bulk.turn t.sender t.toS t.addrR t.addrS e = t.sender) (hunread : unread t.toS e = t.toS) :
    t.step (.sender e) = t := by
  show { t with
    sender := (Bulk.turn t.sender t.toS t.addrR t.addrS e).posted, toS := unread t.toS e,
    toR := t.toR ++ (Bulk.turn t.sender t.toS t.addrR t.addrS e).mail t.addrR } = t
  rw [hturn, hunread, Data.posted_eq hout, Data.mail_nil hout, List.append_nil]

theorem step_receiver_same {e : Act} (hout : t.receiver.out = [])
    (hturn : Bulk.turn t.receiver t.toR t.addrS t.addrR e = t.receiver) (hunread : unread t.toR e = t.toR) :
    t.step (.receiver e) = t := by
  show { t with
    receiver := (Bulk.turn t.receiver t.toR t.addrS t.addrR e).posted, toR := unread t.toR e,
    toS := t.toS ++ (Bulk.turn t.receiver t.toR t.addrS t.addrR e).mail t.addrS } = t
  rw [hturn, hunread, Data.posted_eq hout, Data.mail_nil hout, List.append_nil]

/-- A turn of the sender takes a transfer from one stage to another that is the same for the receiver. -/
theorem Pictured.sender (h : Pictured t0 m t g) {e : Act} {d' : Data} (g' : Stage)
    (hturn : Bulk.turn t.sender t.toS t.addrR t.addrS e = d') (hout : d'.Holds outSlot (g'.outgoing m))
    (hin : g'.incoming m = g.incoming m) (hmail : g.toR m ++ d'.mail m.dst = g'.toR m)
    (hunread : unread (g.toS m) e = g'.toS m)
    (hcount : d'.nRetransmits = t0.sender.nRetransmits + UInt32.ofNat g'.rewinds)
    (hsaid : g'.Said m t0.sender.notes d'.notes)
    (hheard : g.Heard m t0.receiver.notes t.receiver.notes → g'.Heard m t0.receiver.notes t.receiver.notes)
    (hsound : g'.Sound m) : Pictured t0 m (t.step (.sender e)) g' := by
  refine ⟨h.addrs, ⟨rfl, h.posted.2⟩, h.window, h.room, ?_, hin ▸ h.incoming, ?_, ?_, ?_, ?_, hheard h.heard, hsound⟩
  · show (Bulk.turn t.sender t.toS t.addrR t.addrS e).posted.Holds outSlot _
    rw [hturn]
    exact hout.posted
  · show t.toR ++ (Bulk.turn t.sender t.toS t.addrR t.addrS e).mail t.addrR = _
    rw [hturn, h.addrs.2, h.toR]
    exact hmail
  · show unread t.toS e = _
    rw [h.toS]
    exact hunread
  · show (Bulk.turn t.sender t.toS t.addrR t.addrS e).nRetransmits = _
    rw [hturn]
    exact hcount
  · show g'.Said m t0.sender.notes (Bulk.turn t.sender t.toS t.addrR t.addrS e).notes
    rw [hturn]
    exact hsaid

/-- A turn of the receiver takes a transfer from one stage to another that is the same for the sender. -/
theorem Pictured.receiver (h : Pictured t0 m t g) {e : Act} {d' : Data} (g' : Stage)
    (hturn : Bulk.turn t.receiver t.toR t.addrS t.addrR e = d') (hin : d'.Holds inSlot (g'.incoming m))
    (hkeep : d'.window = t.receiver.window ∧ d'.maxInbound = t.receiver.maxInbound)
    (hout : g'.outgoing m = g.outgoing m) (hmail : g.toS m ++ d'.mail m.src = g'.toS m)
    (hunread : unread (g.toR m) e = g'.toR m) (hrewinds : g'.rewinds = g.rewinds)
    (hsaid : g.Said m t0.sender.notes t.sender.notes → g'.Said m t0.sender.notes t.sender.notes)
    (hheard : g'.Heard m t0.receiver.notes d'.notes) (hsound : g'.Sound m) :
    Pictured t0 m (t.step (.receiver e)) g' := by
  refine ⟨h.addrs, ⟨h.posted.1, rfl⟩, ?_, ?_, hout ▸ h.outgoing, ?_, ?_, ?_, hrewinds ▸ h.count, hsaid h.said, ?_, hsound⟩
  · show (Bulk.turn t.receiver t.toR t.addrS t.addrR e).window = _
    rw [hturn, hkeep.1]
    exact h.window
  · show m.total ≤ (Bulk.turn t.receiver t.toR t.addrS t.addrR e).maxInbound
    rw [hturn, hkeep.2]
    exact h.room
  · show (Bulk.turn t.receiver t.toR t.addrS t.addrR e).posted.Holds inSlot _
    rw [hturn]
    exact hin.posted
  · show unread t.toR e = _
    rw [h.toR]
    exact hunread
  · show t.toS ++ (Bulk.turn t.receiver t.toR t.addrS t.addrR e).mail t.addrS = _
    rw [hturn, h.addrs.1, h.toS]
    exact hmail
  · show g'.Heard m t0.receiver.notes (Bulk.turn t.receiver t.toR t.addrS t.addrR e).notes
    rw [hturn]
    exact hheard

/-! ### The sender's -/

/-- On offer, a tick repeats the offer at most. -/
theorem Pictured.tick_offering (h : Pictured t0 m t g) (hg : g.outgoing m = some m.offering) (g' : Stage)
    (hg' : g'.outgoing m = some m.offering) (hin : g'.incoming m = g.incoming m)
    (htoR : g'.toR m = g.toR m ++ [m.offer]) (htoS : g'.toS m = g.toS m) (hrewinds : g'.rewinds = g.rewinds)
    (hsaid : g.Said m t0.sender.notes t.sender.notes → g'.Said m t0.sender.notes t.sender.notes)
    (hheard : g.Heard m t0.receiver.notes t.receiver.notes → g'.Heard m t0.receiver.notes t.receiver.notes)
    (hsound : g'.Sound m) {react : Handle → Script} {now : Time} (hno : ¬ t.sender.GivesUp now outSlot) :
    t.step (.sender (.tick react now)) = t ∨ t.sender.Overdue now outSlot ∧
      Pictured t0 m (t.step (.sender (.tick react now))) g' := by
  have hout := h.outgoing
  rw [hg] at hout
  rcases Terms.tick_offering hout.1 hout.2 hno (fun h => (react h).run now) with hstay | ⟨hover, s', hs', hsent⟩
  · exact Or.inl (step_sender_same h.posted.1 hstay rfl)
  · refine Or.inr ⟨hover, h.sender g' hsent ?_ hin ?_ htoS.symm (by rw [hrewinds]; exact h.count) (hsaid h.said)
      hheard hsound⟩
    · rw [hg']
      exact ⟨hout.1.after _ _, by rwa [Data.after_self]⟩
    · rw [← (Terms.offering_used hs').2.1, Data.mail_after outSlot s' _ h.posted.1]
      exact htoR.symm

/-- What the sender posts joins the chunks on their way, and its stream is that of the flow it has now. -/
theorem Terms.sent_after {d : Data} (halone : d.Alone outSlot) (hout : d.out = []) (resent : UInt32) {x x' : Flow}
    {s' : Stream} {more : List Nat} (hs' : Stamped (m.sending x') s') (hitems : x'.items = x.items ++ more)
    (before : List (List Byte)) :
    let d' := ({ d with nRetransmits := resent } : Data).after outSlot s' (more.map m.chunk)
    d'.Holds outSlot (some (m.sending x')) ∧
      before ++ x.items.map m.chunk ++ d'.mail m.dst = before ++ x'.items.map m.chunk := by
  intro d'
  constructor
  · refine ⟨fun j hj => halone.after s' (more.map m.chunk) j hj, ?_⟩
    rw [Data.after_self]
    exact hs'
  · have hmail : d'.mail s'.peer = more.map m.chunk :=
      Data.mail_after (d := { d with nRetransmits := resent }) outSlot s' (more.map m.chunk) hout
    rw [(Terms.sending_used hs').2.1] at hmail
    rw [hmail, hitems, List.map_append, List.append_assoc]

theorem Pictured.sender_tick (h : Pictured t0 m t g) {react : Handle → Script} {now : Time}
    (hok : Lossless t (.sender (.tick react now))) :
    ∃ g', Pictured t0 m (t.step (.sender (.tick react now))) g' ∧
      (Stage.Goes m .other g g' ∨ Stage.Resends m g g' ∧ Late t (.sender (.tick react now))) := by
  have hno := hok.2 outSlot
  have hsame (hstay : t.step (.sender (.tick react now)) = t) :
      ∃ g', Pictured t0 m (t.step (.sender (.tick react now))) g' ∧
        (Stage.Goes m .other g g' ∨ Stage.Resends m g g' ∧ Late t (.sender (.tick react now))) :=
    ⟨g, by rw [hstay]; exact h, Or.inl .stays⟩
  cases g with
  | offering n =>
    rcases h.tick_offering rfl (.offering (n + 1)) rfl rfl List.replicate_succ' rfl rfl id id trivial hno with
      hstay | ⟨hover, hnext⟩
    · exact hsame hstay
    · exact ⟨_, hnext, Or.inr ⟨.offering, outSlot, hover⟩⟩
  | pending n =>
    rcases h.tick_offering rfl (.pending (n + 1)) rfl rfl List.replicate_succ' rfl rfl id id trivial hno with
      hstay | ⟨hover, hnext⟩
    · exact hsame hstay
    · exact ⟨_, hnext, Or.inr ⟨.pending, outSlot, hover⟩⟩
  | accepted n r =>
    rcases h.tick_offering rfl (.accepted (n + 1) r) rfl rfl List.replicate_succ' rfl rfl id id trivial hno with
      hstay | ⟨hover, hnext⟩
    · exact hsame hstay
    · exact ⟨_, hnext, Or.inr ⟨.accepted, outSlot, hover⟩⟩
  | running n x =>
    have hout := h.outgoing
    obtain ⟨hx, hn⟩ := h.sound
    rcases Terms.tick_sending hout.1 hx hout.2 hno (fun h => (react h).run now) with
      hstay | ⟨hover, s', more, hs', hitems, hsent⟩
    · exact hsame (step_sender_same h.posted.1 hstay rfl)
    · refine ⟨.running n (x.restart m.chunks m.window.toNat), ?_, Or.inr ⟨.running, outSlot, hover⟩⟩
      obtain ⟨hholds, hmail⟩ := Terms.sent_after hout.1 h.posted.1 (t.sender.nRetransmits + 1) hs' hitems
        (List.replicate n m.offer)
      have hcount : t.sender.nRetransmits + 1 = t0.sender.nRetransmits + UInt32.ofNat (x.rewinds + 1) := by
        have hcount : t.sender.nRetransmits = t0.sender.nRetransmits + UInt32.ofNat x.rewinds := h.count
        rw [hcount, UInt32.ofNat_add, UInt32.add_assoc]
        rfl
      exact h.sender (.running n (x.restart m.chunks m.window.toNat)) hsent hholds rfl hmail rfl hcount h.said id
        ⟨hx.restart, hn⟩
  | finished x => exact hsame (step_sender_same h.posted.1 (Terms.tick_vacant h.outgoing now _) rfl)

/-- With nothing to read, reading changes nothing. -/
theorem Pictured.nothing_read (h : Pictured t0 m t g) (hnone : g.toS m = []) {react : Fin 2 → Script} {now : Time} :
    ∃ g', Pictured t0 m (t.step (.sender (.rx react now))) g' ∧ Stage.Goes m .reads g g' := by
  have htoS : t.toS = [] := h.toS.trans hnone
  have hstay : t.step (.sender (.rx react now)) = t := by
    refine step_sender_same h.posted.1 ?_ ?_ <;> rw [htoS] <;> rfl
  exact ⟨g, by rw [hstay]; exact h, .unread hnone⟩

theorem Pictured.sender_rx (h : Pictured t0 m t g) {react : Fin 2 → Script} {now : Time}
    (hok : Lossless t (.sender (.rx react now))) :
    ∃ g', Pictured t0 m (t.step (.sender (.rx react now))) g' ∧ Stage.Goes m .reads g g' := by
  have hturn {p : List Byte} {rest : List (List Byte)} (htoS : g.toS m = p :: rest) :
      Bulk.turn t.sender t.toS t.addrR t.addrS (.rx react now) =
        dataRx t.sender (dataFrame m.dst t.addrS p) now fun k => (react k).run now := by
    rw [h.toS, htoS, ← h.addrs.2]
    rfl
  have hout := h.outgoing
  cases g with
  | offering n => exact h.nothing_read rfl
  | pending n => exact h.nothing_read rfl
  | finished x => exact h.nothing_read rfl
  | accepted n r =>
    obtain ⟨s', hs', hrx⟩ := Terms.rx_accept hout.1 hout.2 now t.addrS r fun k => (react k).run now
    refine ⟨_, ?_, .starts⟩
    have hmail : List.replicate n m.offer ++ (t.sender.after outSlot s'
        ((Flow.start m.chunks m.window.toNat r).items.map m.chunk)).mail m.dst =
        List.replicate n m.offer ++ (Flow.start m.chunks m.window.toNat r).items.map m.chunk := by
      have hm := Data.mail_after outSlot s' ((Flow.start m.chunks m.window.toNat r).items.map m.chunk) h.posted.1
      rw [(Terms.sending_used hs').2.1] at hm
      rw [hm]
    have hnone : ¬ m.Taken 0 := fun h => absurd h.1 (by rw [← h.2]; exact Nat.lt_irrefl 0)
    refine h.sender (.running n (Flow.start m.chunks m.window.toNat r)) ((hturn rfl).trans hrx)
      ⟨hout.1.after _ _, ?_⟩ ?_ hmail ?_ h.count h.said (fun hh => ?_)
      ⟨Flow.sound_start _ _ _ r, Or.inr rfl⟩
    · rw [Data.after_self]
      exact hs'
    · exact if_neg hnone
    · show List.replicate r (m.ack 0) = (List.replicate r 0).map m.ack ++ m.closing 0
      rw [Terms.closing, if_neg hnone, List.append_nil, List.map_replicate]
    · show m.HeardAt 0 _ _
      rw [Terms.HeardAt, if_neg hnone]
      exact hh
  | running n x =>
    obtain ⟨hx, hn⟩ := h.sound
    cases hacks : x.acks with
    | cons q rest =>
      have htoS : (Stage.running n x).toS m = m.ack q :: (rest.map m.ack ++ m.closing x.expected) := by
        show x.acks.map m.ack ++ m.closing x.expected = _
        rw [hacks]
        rfl
      obtain ⟨s', r, more, hs', hitems, hrewinds, hrx⟩ := Terms.rx_ack hout.1 hx hacks hout.2 now t.addrS
        fun k => (react k).run now
      have hsame : (x.takeAck m.chunks m.window.toNat).expected = x.expected ∧
          (x.takeAck m.chunks m.window.toNat).acks = rest := by
        have hkeeps := Flow.steer_keeps q { x with acks := rest }
        rw [Flow.takeAck_cons hacks]
        exact ⟨hkeeps.2.1, hkeeps.2.2.1⟩
      obtain ⟨hholds, hmail⟩ := Terms.sent_after hout.1 h.posted.1 (t.sender.nRetransmits + UInt32.ofNat r) hs' hitems
        (List.replicate n m.offer)
      have hcount : t.sender.nRetransmits + UInt32.ofNat r =
          t0.sender.nRetransmits + UInt32.ofNat (x.takeAck m.chunks m.window.toNat).rewinds := by
        have hcount : t.sender.nRetransmits = t0.sender.nRetransmits + UInt32.ofNat x.rewinds := h.count
        rw [hcount, hrewinds, UInt32.ofNat_add, UInt32.add_assoc]
      refine ⟨_, ?_, .ack (by rw [hacks]; exact List.cons_ne_nil q rest)⟩
      refine h.sender (.running n (x.takeAck m.chunks m.window.toNat)) ((hturn htoS).trans hrx) hholds ?_ hmail ?_ hcount
        h.said (fun hh => ?_) ⟨hx.takeAck, ?_⟩
      · show m.left _ = m.left _
        rw [hsame.1]
      · show unread ((Stage.running n x).toS m) _ = (x.takeAck m.chunks m.window.toNat).acks.map m.ack ++ m.closing _
        rw [htoS, hsame.1, hsame.2]
        rfl
      · show m.HeardAt _ _ _
        rw [hsame.1]
        exact hh
      · rw [hsame.1]
        exact hn
    | nil =>
      by_cases htaken : m.Taken x.expected
      swap
      · refine h.nothing_read ?_
        show x.acks.map m.ack ++ m.closing x.expected = []
        rw [hacks, Terms.closing, if_neg htaken]
        rfl
      have htoS : (Stage.running n x).toS m = [m.done] := by
        show x.acks.map m.ack ++ m.closing x.expected = _
        rw [hacks, Terms.closing, if_pos htaken]
        rfl
      have hzero : n = 0 := hn.resolve_right fun hz => absurd htaken.1 (by rw [← htaken.2, hz]; exact Nat.lt_irrefl 0)
      have happ : ∀ d, (react 0).run now d = d := by
        rw [hok 0]
        exact fun _ => rfl
      obtain ⟨hvacant, hsilent, hnotes, hcount⟩ := Terms.rx_done hout.1 hout.2 now t.addrS
        (fun k => (react k).run now) happ
      refine ⟨.finished x, h.sender (.finished x) (hturn htoS) hvacant ?_ ?_ ?_ (hcount.trans h.count) ?_ (fun hh => ?_) trivial,
        .told hacks htaken⟩
      · exact (if_pos htaken).symm
      · rw [Data.mail_nil (hsilent.trans h.posted.1), hzero]
        exact List.append_nil _
      · rw [htoS]
        rfl
      · obtain ⟨mid, hmid⟩ := h.said
        exact ⟨mid, by rw [hnotes, hmid]⟩
      · have hh : m.HeardAt x.expected t0.receiver.notes t.receiver.notes := hh
        rw [Terms.HeardAt, if_pos htaken] at hh
        exact hh

/-! ### The receiver's -/

/-- The stream that comes in is none, or waits for the application, or is being received. -/
theorem Pictured.alone (h : Pictured t0 m t g) : t.receiver.Alone inSlot ∧ (t.receiver.s inSlot).outbound = false ∨
    t.receiver.Vacant := by
  have hin := h.incoming
  cases hg : g.incoming m with
  | none =>
    rw [hg] at hin
    exact Or.inr hin
  | some s =>
    rw [hg] at hin
    refine Or.inl ⟨hin.1, ?_⟩
    have hout : s.outbound = false := by
      cases g with
      | offering n => cases hg
      | finished x => cases hg
      | pending n =>
        cases hg
        rfl
      | accepted n r =>
        cases hg
        rfl
      | running n x =>
        have hg : (if m.Taken x.expected then none else some (m.receiving x.expected)) = some s := hg
        split at hg
        · cases hg
        · cases hg
          rfl
    obtain ⟨_, _, _, hs⟩ := hin.2
    rw [hs]
    exact hout

theorem Pictured.receiver_tick (h : Pictured t0 m t g) {react : Handle → Script} {now : Time}
    (hok : Lossless t (.receiver (.tick react now))) : t.step (.receiver (.tick react now)) = t := by
  refine step_receiver_same h.posted.2 ?_ rfl
  rcases h.alone with ⟨halone, hout⟩ | hvacant
  · exact Terms.tick_incoming halone hout (hok.2 inSlot) _
  · exact Terms.tick_vacant hvacant now _

theorem Pictured.receiver_app (h : Pictured t0 m t g) {script : Script} {now : Time}
    (hok : Lossless t (.receiver (.app script now))) :
    ∃ g', Pictured t0 m (t.step (.receiver (.app script now))) g' ∧ Stage.Goes m .other g g' := by
  have hsame (hs : (t.receiver.s inSlot).state ≠ .offered) :
      ∃ g', Pictured t0 m (t.step (.receiver (.app script now))) g' ∧ Stage.Goes m .other g g' := by
    have halone : t.receiver.Alone inSlot := by
      rcases h.alone with ⟨halone, -⟩ | hvacant
      · exact halone
      · exact hvacant.alone inSlot
    have hstay : t.step (.receiver (.app script now)) = t :=
      step_receiver_same h.posted.2 ((script_accepts hok now).stays halone hs) rfl
    exact ⟨g, by rw [hstay]; exact h, .stays⟩
  have hin := h.incoming
  cases g with
  | offering n => exact hsame (by rw [hin inSlot]; decide)
  | finished x => exact hsame (by rw [hin inSlot]; decide)
  | accepted n r => exact hsame (by rw [(Terms.receiving_used hin.2).1]; decide)
  | running n x =>
    have hin : t.receiver.Holds inSlot (m.left x.expected) := hin
    refine hsame ?_
    unfold Terms.left at hin
    split at hin
    · rw [hin inSlot]
      decide
    · rw [(Terms.receiving_used hin.2).1]
      decide
  | pending n =>
    rcases script_accepts hok now t.receiver hin.1 with hstay | ⟨-, time, haccept⟩
    · have hstay : t.step (.receiver (.app script now)) = t := step_receiver_same h.posted.2 hstay rfl
      exact ⟨.pending n, by rw [hstay]; exact h, .stays⟩
    · have hs' := Terms.opened_accept hin.2 time
      have hmsg : [[opAccept, (t.receiver.s inSlot).id, t.receiver.window]] = [m.accept] := by
        rw [(Terms.opened_used hin.2).2.2, h.window]
        rfl
      rw [hmsg] at haccept
      have hholds : (t.receiver.after inSlot ((t.receiver.s inSlot).accept time) [m.accept]).Holds inSlot
          (some (m.receiving 0)) := by
        refine ⟨hin.1.after _ _, ?_⟩
        rw [Data.after_self]
        exact hs'
      have hmail := Data.mail_after inSlot ((t.receiver.s inSlot).accept time) [m.accept] h.posted.2
      rw [(Terms.receiving_used hs').2.1] at hmail
      exact ⟨.accepted n 0, h.receiver (.accepted n 0) haccept hholds ⟨rfl, rfl⟩ rfl hmail rfl rfl id h.heard trivial,
        .accepts⟩

/-! ### What the receiver hears -/

theorem handed_offer {base notes : List Note} (h : notes = base) : m.Handed 0 base (notes ++ [m.offeredNote]) := by
  refine ⟨[m.offeredNote], by rw [h], ?_⟩
  rw [delivered_snoc, Terms.offeredNote, deliveredStep, if_pos rfl]
  rfl

theorem delivered_chunk {e : Nat} {notes : List Note} (he : e < 65536)
    (h : delivered inSlot notes = m.content.take (60 * e)) :
    delivered inSlot (notes ++ [m.chunkNote e]) = m.content.take (60 * (e + 1)) := by
  have htake := take_piece m.content (UInt16.ofNat e)
  rw [Terms.toNat_ofNat he] at htake
  rw [delivered_snoc, h, ← htake, Terms.chunkNote, deliveredStep, if_pos rfl]

/-- With nothing to hear, listening changes nothing. -/
theorem Pictured.nothing_heard (h : Pictured t0 m t g) (hnone : g.toR m = []) {react : Fin 2 → Script} {now : Time} :
    ∃ g', Pictured t0 m (t.step (.receiver (.rx react now))) g' ∧ Stage.Goes m .hears g g' := by
  have htoR : t.toR = [] := h.toR.trans hnone
  have hstay : t.step (.receiver (.rx react now)) = t := by
    refine step_receiver_same h.posted.2 ?_ ?_ <;> rw [htoR] <;> rfl
  exact ⟨g, by rw [hstay]; exact h, .unheard hnone⟩

theorem Pictured.hears (h : Pictured t0 m t g) {p : List Byte} (rest : List (List Byte)) (htoR : g.toR m = p :: rest)
    (react : Fin 2 → Script) (now : Time) : Bulk.turn t.receiver t.toR t.addrS t.addrR (.rx react now) =
      dataRx t.receiver (dataFrame m.src t.addrR p) now fun k => (react k).run now := by
  rw [h.toR, htoR, ← h.addrs.1]
  rfl

/-- Offers, before the first chunk. -/
theorem Pictured.hears_offer (h : Pictured t0 m t g) (hpos : m.total ≠ 0) {react : Fin 2 → Script} {now : Time}
    (hok : Lossless t (.receiver (.rx react now)))
    (hg : (∃ n, g = .offering n) ∨ (∃ n, g = .pending n) ∨ (∃ n r, g = .accepted n r) ∨ ∃ n x, g = .running (n + 1) x) :
    ∃ g', Pictured t0 m (t.step (.receiver (.rx react now))) g' ∧ Stage.Goes m .hears g g' := by
  have hin := h.incoming
  rcases hg with ⟨n, rfl⟩ | ⟨n, rfl⟩ | ⟨n, r, rfl⟩ | ⟨n, x, rfl⟩
  · cases n with
    | zero => exact h.nothing_heard rfl
    | succ n =>
      have hturn := h.hears (List.replicate n m.offer) rfl react now
      obtain ⟨s', msgs, hrx, hend⟩ := Terms.rx_offer_first hin hpos h.room h.window now t.addrR
        (fun k => (react k).run now) (script_accepts (hok _) now)
      have hmail := Data.mail_after (d := t.receiver.note m.offeredNote) inSlot s' msgs h.posted.2
      have halone : ((t.receiver.note m.offeredNote).after inSlot s' msgs).Alone inSlot :=
        Data.Alone.after (d := t.receiver.note m.offeredNote) (hin.alone inSlot) s' msgs
      rcases hend with ⟨hs', rfl⟩ | ⟨hs', rfl⟩
      · rw [(Terms.opened_used hs').2.1] at hmail
        refine ⟨.pending n, h.receiver (.pending n) (hturn.trans hrx) ⟨halone, ?_⟩ ⟨rfl, rfl⟩ rfl hmail rfl rfl id
          (handed_offer h.heard) trivial, .offered⟩
        rw [Data.after_self]
        exact hs'
      · rw [(Terms.receiving_used hs').2.1] at hmail
        refine ⟨.accepted n 0, h.receiver (.accepted n 0) (hturn.trans hrx) ⟨halone, ?_⟩ ⟨rfl, rfl⟩ rfl hmail rfl rfl id
          (handed_offer h.heard) trivial, .atOnce⟩
        rw [Data.after_self]
        exact hs'
  · cases n with
    | zero => exact h.nothing_heard rfl
    | succ n =>
      have hturn := h.hears (List.replicate n m.offer) rfl react now
      have hrx := Terms.rx_offer_pending hin.1 hin.2 now t.addrR fun k => (react k).run now
      exact ⟨.pending n, h.receiver (.pending n) (hturn.trans hrx) hin ⟨rfl, rfl⟩ rfl (Data.mail_nil h.posted.2 _) rfl rfl
        id h.heard trivial, .ignored⟩
  · cases n with
    | zero => exact h.nothing_heard rfl
    | succ n =>
      have hturn := h.hears (List.replicate n m.offer) rfl react now
      obtain ⟨s', hs', hrx⟩ := Terms.rx_offer_receiving hin.1 hin.2 now t.addrR fun k => (react k).run now
      have hmail := Data.mail_after inSlot s' [m.ack 0] h.posted.2
      rw [(Terms.receiving_used hs').2.1] at hmail
      refine ⟨.accepted n (r + 1), h.receiver (.accepted n (r + 1)) (hturn.trans hrx) ⟨hin.1.after _ _, ?_⟩ ⟨rfl, rfl⟩ rfl
        ?_ rfl rfl id h.heard trivial, .answers⟩
      · rw [Data.after_self]
        exact hs'
      · show m.accept :: List.replicate r (m.ack 0) ++ _ = m.accept :: List.replicate (r + 1) (m.ack 0)
        rw [hmail, List.replicate_succ', List.cons_append]
  · obtain ⟨hx, hn⟩ := h.sound
    have hzero : x.expected = 0 := hn.resolve_left (Nat.succ_ne_zero n)
    have hnone : ¬ m.Taken x.expected := fun h => absurd h.1 (by rw [← h.2, hzero]; exact Nat.lt_irrefl 0)
    have hleft : m.left x.expected = some (m.receiving x.expected) := if_neg hnone
    have hin : t.receiver.Holds inSlot (m.left x.expected) := hin
    rw [hleft] at hin
    have hturn := h.hears (List.replicate n m.offer ++ x.items.map m.chunk) rfl react now
    obtain ⟨s', hs', hrx⟩ := Terms.rx_offer_receiving hin.1 hin.2 now t.addrR fun k => (react k).run now
    have hmail := Data.mail_after inSlot s' [m.ack x.expected] h.posted.2
    rw [(Terms.receiving_used hs').2.1] at hmail
    refine ⟨.running n x.repeated, h.receiver (.running n x.repeated) (hturn.trans hrx) ?_ ⟨rfl, rfl⟩ rfl ?_ rfl rfl id
      h.heard ⟨hx.repeated (Or.inl hzero), Or.inr hzero⟩, .repeats⟩
    · show ((t.receiver.after inSlot s' [m.ack x.expected])).Holds inSlot (m.left x.expected)
      rw [hleft]
      refine ⟨hin.1.after _ _, ?_⟩
      rw [Data.after_self]
      exact hs'
    · show x.acks.map m.ack ++ m.closing x.expected ++ _ = (x.acks ++ [x.expected]).map m.ack ++ m.closing x.expected
      rw [hmail, Terms.closing, if_neg hnone, List.append_nil, List.append_nil, List.map_append]
      rfl

/-- The application has been told of one chunk more. -/
theorem handed_chunk {e : Nat} (he : e < 65536) {base notes : List Note} (h : m.Handed e base notes) :
    m.Handed (e + 1) base (notes ++ [m.chunkNote e]) := by
  obtain ⟨mid, rfl, hd⟩ := h
  exact ⟨mid ++ [m.chunkNote e], List.append_assoc .., delivered_chunk he hd⟩

/-- And then of the verdict. -/
theorem judged_chunk {e : Nat} (he : e + 1 = m.chunks) {base notes : List Note} (h : m.Handed e base notes) :
    m.Judged base (notes ++ [m.chunkNote e, .received inSlot m.verdict]) := by
  have hchunks := m.chunks_lt
  obtain ⟨mid, rfl, hd⟩ := h
  have hall := delivered_chunk (m := m) (by omega) hd
  rw [he] at hall
  refine ⟨mid ++ [m.chunkNote e], ?_, ?_⟩
  · simp only [List.append_assoc, List.cons_append, List.nil_append]
  · rw [← List.append_assoc]
    exact hall

theorem Pictured.holds_next {x : Flow} (h : Pictured t0 m t (.running 0 x)) (hbehind : x.expected < m.chunks) :
    (t.receiver.Alone inSlot ∧ Stamped (m.receiving x.expected) (t.receiver.s inSlot)) ∧
      m.Handed x.expected t0.receiver.notes t.receiver.notes ∧ m.closing x.expected = [] := by
  have htaken : ¬ m.Taken x.expected := fun ht => absurd ht.2 (Nat.ne_of_lt hbehind)
  have hin : t.receiver.Holds inSlot (m.left x.expected) := h.incoming
  have hheard : m.HeardAt x.expected t0.receiver.notes t.receiver.notes := h.heard
  rw [show m.left x.expected = some (m.receiving x.expected) from if_neg htaken] at hin
  unfold Terms.HeardAt at hheard
  rw [if_neg htaken] at hheard
  exact ⟨hin, hheard, if_neg htaken⟩

/-- A chunk that comes next is read, and what is behind it stays. -/
theorem Stage.toR_running {x : Flow} {q : Nat} {rest : List Nat} (hitems : x.items = q :: rest) :
    (Stage.running 0 x).toR m = m.chunk q :: rest.map m.chunk := by
  show [] ++ x.items.map m.chunk = _
  rw [hitems]
  rfl

theorem Stage.unread_running {x : Flow} {q : Nat} {rest : List Nat} (hitems : x.items = q :: rest)
    (react : Fin 2 → Script) (now : Time) : unread ((Stage.running 0 x).toR m) (.rx react now) = rest.map m.chunk := by
  rw [Stage.toR_running hitems]
  rfl

/-- The chunk the receiver waits for. -/
theorem Pictured.hears_next {x : Flow} {rest : List Nat} (h : Pictured t0 m t (.running 0 x))
    (hlen : m.content.length < 4294967296) (hitems : x.items = x.expected :: rest) (hbehind : x.expected < m.chunks)
    {react : Fin 2 → Script} {now : Time} (hok : Lossless t (.receiver (.rx react now))) :
    Pictured t0 m (t.step (.receiver (.rx react now))) (.running 0 (x.takeItem m.chunks m.every false)) := by
  have hchunks := m.chunks_lt
  obtain ⟨hin, hhanded, hclosing⟩ := h.holds_next hbehind
  have haccepts (k : Fin 2) : Accepts ((react k).run now) := script_accepts (hok k) now
  have hturn := h.hears (rest.map m.chunk) (Stage.toR_running hitems) react now
  have hunread := Stage.unread_running (m := m) hitems react now
  have hnext : x.takeItem m.chunks m.every false = { x with
      items := rest, expected := x.expected + 1, acks := x.acks ++ Flow.due m.chunks m.every (x.expected + 1) } := by
    rw [Flow.takeItem_cons hitems, Flow.arrive, if_neg (by show ¬ m.chunks ≤ x.expected; omega)]
    exact if_pos rfl
  have hsound := h.sound.1.takeItem false
  rw [hnext] at hsound ⊢
  by_cases hmore : x.expected + 1 < m.chunks
  · have hnot : ¬ m.Taken (x.expected + 1) := fun ht => absurd ht.2 (Nat.ne_of_lt hmore)
    obtain ⟨s', hs', hrx⟩ := @Terms.rx_chunk_next m _ _ hin.1 hin.2 hlen hmore now t.addrR (fun k => (react k).run now)
      (haccepts _)
    have hmail := Data.mail_after (d := t.receiver.note (m.chunkNote x.expected)) inSlot s'
      ((Flow.due m.chunks m.every (x.expected + 1)).map m.ack) h.posted.2
    rw [(Terms.receiving_used hs').2.1] at hmail
    refine h.receiver (.running 0 _) (hturn.trans hrx) ?_ ⟨rfl, rfl⟩ rfl ?_ hunread rfl id ?_ ⟨hsound, Or.inl rfl⟩
    · show ((t.receiver.note (m.chunkNote x.expected)).after inSlot s' _).Holds inSlot (m.left (x.expected + 1))
      rw [show m.left (x.expected + 1) = some (m.receiving (x.expected + 1)) from if_neg hnot]
      refine ⟨Data.Alone.after (d := t.receiver.note (m.chunkNote x.expected)) hin.1 _ _, ?_⟩
      rw [Data.after_self]
      exact hs'
    · show x.acks.map m.ack ++ m.closing x.expected ++ _ = (x.acks ++ _).map m.ack ++ m.closing (x.expected + 1)
      rw [hmail, hclosing, show m.closing (x.expected + 1) = [] from if_neg hnot, List.append_nil, List.append_nil,
        List.map_append]
    · show m.HeardAt (x.expected + 1) _ _
      rw [Terms.HeardAt, if_neg hnot]
      exact handed_chunk (by omega) hhanded
  · have hlast : x.expected + 1 = m.chunks := by omega
    have htaken : m.Taken (x.expected + 1) := ⟨by omega, hlast⟩
    obtain ⟨hvacant, hmail, hnotes, hwindow, hmax⟩ := Terms.rx_chunk_last hin.1 hin.2 hlen hlast h.posted.2 now t.addrR
      haccepts
    have hnone : Flow.due m.chunks m.every (x.expected + 1) = [] := if_neg fun hdue => hmore hdue.1
    refine h.receiver (.running 0 _) hturn ?_ ⟨hwindow, hmax⟩ rfl ?_ hunread rfl id ?_ ⟨hsound, Or.inl rfl⟩
    · show Data.Holds _ inSlot (m.left (x.expected + 1))
      rw [show m.left (x.expected + 1) = none from if_pos htaken]
      exact hvacant
    · show x.acks.map m.ack ++ m.closing x.expected ++ _ = (x.acks ++ _).map m.ack ++ m.closing (x.expected + 1)
      rw [hmail, hclosing, show m.closing (x.expected + 1) = [m.done] from if_pos htaken, hnone, List.append_nil,
        List.append_nil]
    · show m.HeardAt (x.expected + 1) _ _
      rw [Terms.HeardAt, if_pos htaken, hnotes]
      exact judged_chunk hlast hhanded

/-- Any other chunk. -/
theorem Pictured.hears_other {x : Flow} {q : Nat} {rest : List Nat} (h : Pictured t0 m t (.running 0 x))
    (hitems : x.items = q :: rest) (hbehind : x.expected < m.chunks) (hne : q ≠ x.expected)
    (react : Fin 2 → Script) (now : Time) : ∃ echo,
      Pictured t0 m (t.step (.receiver (.rx react now))) (.running 0 (x.takeItem m.chunks m.every echo)) := by
  have hchunks := m.chunks_lt
  have hq := h.sound.1.lt_total hitems
  obtain ⟨hin, hhanded, hclosing⟩ := h.holds_next hbehind
  have htaken : ¬ m.Taken x.expected := fun ht => absurd ht.2 (Nat.ne_of_lt hbehind)
  have hturn := h.hears (rest.map m.chunk) (Stage.toR_running hitems) react now
  have hunread := Stage.unread_running (m := m) hitems react now
  obtain ⟨echo, s', hs', hrx⟩ := Terms.rx_chunk_other hin.1 hin.2 (by omega) (by omega) hne now t.addrR
    fun k => (react k).run now
  have hmail := Data.mail_after inSlot s' (if echo then [m.ack x.expected] else []) h.posted.2
  rw [(Terms.receiving_used hs').2.1] at hmail
  have hnext : x.takeItem m.chunks m.every echo =
      { x with items := rest, acks := x.acks ++ if echo then [x.expected] else [] } := by
    rw [Flow.takeItem_cons hitems, Flow.arrive, if_neg (by show ¬ m.chunks ≤ x.expected; omega), if_neg hne]
    cases echo with
    | true => rfl
    | false => simp only [Bool.false_eq_true, if_false, List.append_nil]
  have hsound := h.sound.1.takeItem echo
  refine ⟨echo, ?_⟩
  rw [hnext] at hsound ⊢
  refine h.receiver (.running 0 { x with items := rest, acks := x.acks ++ if echo then [x.expected] else [] })
    (hturn.trans hrx) ?_ ⟨rfl, rfl⟩ rfl ?_ hunread rfl id ?_ ⟨hsound, Or.inl rfl⟩
  · show (t.receiver.after inSlot s' _).Holds inSlot (m.left x.expected)
    rw [show m.left x.expected = some (m.receiving x.expected) from if_neg htaken]
    refine ⟨hin.1.after _ _, ?_⟩
    rw [Data.after_self]
    exact hs'
  · show x.acks.map m.ack ++ m.closing x.expected ++ _ =
      (x.acks ++ if echo then [x.expected] else []).map m.ack ++ m.closing x.expected
    rw [hmail, hclosing, List.append_nil, List.append_nil, List.map_append]
    cases echo <;> rfl
  · show m.HeardAt x.expected _ _
    rw [Terms.HeardAt, if_neg htaken]
    exact hhanded

/-- A chunk for a receiver that has them all, or of a stream that is over. -/
theorem Pictured.hears_late {x : Flow} {q : Nat} {rest : List Nat} (h : Pictured t0 m t (.running 0 x))
    (hitems : x.items = q :: rest) (htaken : m.Taken x.expected) {react : Fin 2 → Script} {now : Time} :
    Pictured t0 m (t.step (.receiver (.rx react now))) (.running 0 (x.takeItem m.chunks m.every false)) := by
  have hleft : m.left x.expected = none := if_pos htaken
  have hin : t.receiver.Holds inSlot (m.left x.expected) := h.incoming
  rw [hleft] at hin
  have htoR : (Stage.running 0 x).toR m = m.chunk q :: rest.map m.chunk := by
    show [] ++ x.items.map m.chunk = _
    rw [hitems]
    rfl
  have hturn := (h.hears (rest.map m.chunk) htoR react now).trans (Terms.rx_chunk_vacant hin q now t.addrR _)
  have hnext : x.takeItem m.chunks m.every false = { x with items := rest } := by
    rw [Flow.takeItem_cons hitems]
    exact if_pos (Nat.le_of_eq htaken.2.symm)
  have hsound := h.sound.1.takeItem false
  rw [hnext] at hsound ⊢
  refine h.receiver (.running 0 { x with items := rest }) hturn ?_ ⟨rfl, rfl⟩ rfl ?_ ?_ rfl id h.heard
    ⟨hsound, Or.inl rfl⟩
  · show t.receiver.Holds inSlot (m.left x.expected)
    rw [hleft]
    exact hin
  · rw [Data.mail_nil h.posted.2, List.append_nil]
    rfl
  · rw [htoR]
    rfl

theorem Pictured.receiver_rx (h : Pictured t0 m t g) (hpos : m.total ≠ 0) (hlen : m.content.length < 4294967296)
    {react : Fin 2 → Script} {now : Time} (hok : Lossless t (.receiver (.rx react now))) :
    ∃ g', Pictured t0 m (t.step (.receiver (.rx react now))) g' ∧ Stage.Goes m .hears g g' := by
  cases g with
  | offering n => exact h.hears_offer hpos hok (Or.inl ⟨n, rfl⟩)
  | pending n => exact h.hears_offer hpos hok (Or.inr (Or.inl ⟨n, rfl⟩))
  | accepted n r => exact h.hears_offer hpos hok (Or.inr (Or.inr (Or.inl ⟨n, r, rfl⟩)))
  | running n x =>
    cases n with
    | succ n => exact h.hears_offer hpos hok (Or.inr (Or.inr (Or.inr ⟨n, x, rfl⟩)))
    | zero =>
      cases hitems : x.items with
      | nil => exact h.nothing_heard (by show [] ++ x.items.map m.chunk = []; rw [hitems]; rfl)
      | cons q rest =>
        have hsome : x.items ≠ [] := by rw [hitems]; exact List.cons_ne_nil q rest
        have hq := h.sound.1.lt_total hitems
        have hexp := h.sound.1.expected_le
        by_cases htaken : m.Taken x.expected
        · exact ⟨_, h.hears_late hitems htaken, .item false hsome⟩
        have hbehind : x.expected < m.chunks := by
          by_contra hnot
          exact htaken ⟨by omega, by omega⟩
        by_cases hnow : q = x.expected
        · exact ⟨_, h.hears_next hlen (hnow ▸ hitems) hbehind hok, .item false hsome⟩
        · obtain ⟨echo, hnext⟩ := h.hears_other hitems hbehind hnow react now
          exact ⟨_, hnext, .item echo hsome⟩
  | finished x =>
    cases hitems : x.items with
    | nil => exact h.nothing_heard (by show x.items.map m.chunk = []; rw [hitems]; rfl)
    | cons q rest =>
      have htoR : (Stage.finished x).toR m = m.chunk q :: rest.map m.chunk := by
        show x.items.map m.chunk = _
        rw [hitems]
        rfl
      have hturn := (h.hears (rest.map m.chunk) htoR react now).trans
        (Terms.rx_chunk_vacant h.incoming q now t.addrR _)
      refine ⟨_, h.receiver (.finished { x with items := x.items.tail }) hturn h.incoming ⟨rfl, rfl⟩ rfl ?_ ?_ rfl id h.heard
        trivial, .drops⟩
      · rw [Data.mail_nil h.posted.2, List.append_nil]
        rfl
      · rw [htoR]
        show rest.map m.chunk = x.items.tail.map m.chunk
        rw [hitems]
        rfl

end Transfer

end turns

end DeskHop.Bulk
