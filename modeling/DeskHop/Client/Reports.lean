/-
  DeskHop.Client.Reports — what a client reads of the reports its board sends
  (`firmware/rp2040/src/clientlink.c`).

  The ring takes of a frame what fits; a report takes the next 64 bytes of the ring, padded
  with flags when there are fewer; a client that has gone quiet is forgotten and the ring
  cleared. Logged are the frames given to the ring, each with how many of its bytes went
  in, and the reports.

  Proved: whatever comes when, the reports and the ring are one piece of each logged frame
  after another, its padding after all that the ring took of it (`Tracks`); so what is
  decoded are logged frames, in order and once each, of which nothing is missing but the
  closing flag, if that (`reports_decode`). The last flag can be missing: the flag that
  comes next closes the frame too (`cut_frame_read`).
-/

import DeskHop.Client.Status
import DeskHop.Wire.Cut
import DeskHop.Wire.Relay

namespace DeskHop.Client

open DeskHop.Routing DeskHop.Wire

/-! ## The way to the client -/

/-- A frame given to the ring, and how many of its bytes went in. -/
structure Enqueued where
  frame : Frame
  took : Nat
  deriving DecidableEq

/-- What `sendLocal` puts into the ring of a frame. -/
def enqueue (cl : ClientLink) (f : Frame) : List Enqueued :=
  match frameEncode f cl.key wireMax with
  | .ok wire => [⟨f, min (txRoom - cl.tx.length) wire.length⟩]
  | .error _ => []

structure Feed where
  cl : ClientLink
  /-- The reports sent, first one first. -/
  reports : List (List Byte)
  log : List Enqueued
  /-- The client has been forgotten at least once. -/
  left : Bool

namespace Feed

inductive Event where
  /-- The chain has a frame for the client. -/
  | deliver (f : Frame)
  /-- The client has sent a report, and the chain link is as it is then. -/
  | report (chain : Link) (data : List Byte) (now : Time)
  | task (r : Router) (ready : Bool) (now : Time)

def start : Feed := ⟨clientInit, [], [], false⟩

def step (d : Feed) : Event → Feed
  | .deliver f =>
    { d with
      cl := clientDeliver d.cl f
      log := d.log ++ if d.cl.attached then enqueue d.cl (localFrame f.type f.src f.dst f.seq f.payload) else [] }
  | .report chain data now => { d with cl := (clientRxReport d.cl chain data now).1 }
  | .task r ready now =>
    let (cl, report) := clientTask d.cl r ready now
    { cl := cl
      reports := d.reports ++ report.toList
      log := d.log ++ if statusDue d.cl now then enqueue d.cl (statusFrame (statusOf r) d.cl.txSeq) else []
      left := d.left || timedOut d.cl now }

def run (es : List Event) : Feed := es.foldl step start

/-- All that was sent. -/
def stream (d : Feed) : List Byte := d.reports.flatten

end Feed

/-- What a client that starts with these bytes decodes. -/
def received (bs : List Byte) : List Frame := (feed (some localKey) framerInit bs).2.filterMap Except.toOption

/-! ## The stream and the log -/

/-- What the stream has of a logged frame. -/
structure Of (p : Piece) (e : Enqueued) : Prop where
  frame : p.frame = e.frame
  most : p.bytes ≤ e.took
  /-- Padding comes after all that went in. -/
  padded : 0 < p.padding → p.bytes = e.took
  took : e.took ≤ (onWire e.frame localKey).length

/-- The stream and the ring are pieces of the logged frames, of those since the ring was last
    cleared all that went in. -/
structure Tracks (stream tx : List Byte) (log : List Enqueued) (left : Bool) : Prop where
  pieces : ∃ old new oldLog newLog, log = oldLog ++ newLog ∧ List.Forall₂ Of old oldLog ∧
    List.Forall₂ (fun p e => Of p e ∧ p.bytes = e.took) new newLog ∧
    stream ++ tx = (old ++ new).flatMap (·.onLine localKey) ∧ (new = [] → tx = []) ∧ (left = false → old = [])

theorem forall₂_snoc {α β : Type} {R : α → β → Prop} {l : List α} {l' : List β} {b : β}
    (h : List.Forall₂ R l (l' ++ [b])) : ∃ k a, l = k ++ [a] ∧ List.Forall₂ R k l' ∧ R a b := by
  obtain ⟨a, rest, hab, hrest, hdrop⟩ := List.forall₂_cons_right_iff.mp (List.forall₂_drop_append l l' [b] h)
  rw [List.forall₂_nil_right_iff.mp hrest] at hdrop
  refine ⟨l.take l'.length, a, ?_, List.forall₂_take_append l l' [b] h, hab⟩
  rw [← hdrop, List.take_append_drop]

section tracks

variable {stream tx : List Byte} {log : List Enqueued} {left : Bool}

theorem tracks_start : Tracks [] [] [] false := ⟨[], [], [], [], rfl, .nil, .nil, rfl, fun _ => rfl, fun _ => rfl⟩

theorem Of.cutAt {p : Piece} {e : Enqueued} (h : Of p e) (n : Nat) : Of (p.cutAt localKey n) e := by
  have hsize : ((onWire p.frame localKey).take p.bytes).length = p.bytes := by
    refine List.length_take_of_le ?_
    rw [h.frame]
    exact Nat.le_trans h.most h.took
  refine ⟨h.frame, Nat.le_trans (Nat.min_le_right _ _) h.most, fun hpad => ?_, h.took⟩
  obtain ⟨hn, hpad⟩ := Nat.lt_min.mp hpad
  rw [hsize] at hn
  exact (Nat.min_eq_right (by omega)).trans (h.padded hpad)

theorem forall₂_cutShort {ps : List Piece} (h : List.Forall₂ Of ps log) (n : Nat) :
    List.Forall₂ Of (cutShort localKey n ps) log := by
  induction h generalizing n with
  | nil => exact .nil
  | cons hp _ ih => exact .cons (hp.cutAt n) (ih _)

/-- A client is forgotten, with what was in the ring. -/
theorem Tracks.clear (h : Tracks stream tx log left) : Tracks stream [] log true := by
  obtain ⟨old, new, oldLog, newLog, rfl, hold, hnew, hline, -⟩ := h.pieces
  have hall := List.rel_append hold (hnew.imp fun _ _ hpe => hpe.1)
  refine ⟨cutShort localKey stream.length (old ++ new), [], oldLog ++ newLog, [], (List.append_nil _).symm,
    forall₂_cutShort hall _, .nil, ?_, fun _ => rfl, fun h => ?_⟩
  · rw [List.append_nil, List.append_nil, ← take_pieces, ← hline, List.take_left]
  · cases h

/-- A frame goes into the ring, as much of it as there is room for. -/
theorem Tracks.push {f : Frame} (h : Tracks stream tx log left) (hs : Sendable f) (room : Nat) :
    Tracks stream (tx ++ (onWire f localKey).take room) (log ++ [⟨f, min room (onWire f localKey).length⟩]) left := by
  obtain ⟨old, new, oldLog, newLog, rfl, hold, hnew, hline, -, hleft⟩ := h.pieces
  let p : Piece := ⟨f, min room (onWire f localKey).length, 0, hs⟩
  let e : Enqueued := ⟨f, min room (onWire f localKey).length⟩
  have hof : Of p e := ⟨rfl, Nat.le_refl _, fun _ => rfl, Nat.min_le_right _ _⟩
  have hp : p.onLine localKey = (onWire f localKey).take room := by
    show (onWire f localKey).take (min room (onWire f localKey).length) ++ [] = _
    rw [List.append_nil, ← List.take_eq_take_min]
  refine ⟨old, new ++ [p], oldLog, newLog ++ [e], List.append_assoc .., hold,
    List.rel_append hnew (.cons ⟨hof, rfl⟩ .nil), ?_, fun hnil => ?_, hleft⟩
  · have hsnoc : (old ++ (new ++ [p])).flatMap (·.onLine localKey) =
        (old ++ new).flatMap (·.onLine localKey) ++ p.onLine localKey := by
      rw [← List.append_assoc, List.flatMap_append, List.flatMap_singleton]
    rw [hsnoc, ← hline, hp, List.append_assoc]
  · exact absurd hnil (List.append_ne_nil_of_right_ne_nil _ (List.cons_ne_nil _ _))

/-- Whether the encoder takes a frame or not. -/
theorem Tracks.send {cl : ClientLink} (h : Tracks stream cl.tx log left) (hk : cl.key = localKey) (type : MsgType)
    (src dst : Addr) (seq : UInt16) (payload : List Byte) :
    Tracks stream (sendLocal cl type src dst seq payload).tx
      (log ++ enqueue cl (localFrame type src dst seq payload)) left := by
  unfold sendLocal enqueue localFrame
  cases henc : frameEncode ⟨type, ttlDefault, src, dst, seq, payload, []⟩ cl.key wireMax with
  | error e =>
    rw [List.append_nil]
    exact h
  | ok wire =>
    obtain ⟨hsend, rfl⟩ := frameEncode_some henc
    rw [hk]
    exact h.push hsend _

/-- What was next in the ring is in the stream; what is padded is the last of it. -/
theorem Tracks.fetch {cl : ClientLink} (h : Tracks stream cl.tx log left) (ready : Bool) :
    Tracks (stream ++ (fetched cl ready).2.toList.flatten) (fetched cl ready).1.tx log left := by
  obtain ⟨old, new, oldLog, newLog, rfl, hold, hnew, hline, hfresh, hleft⟩ := h.pieces
  obtain ⟨n, hbytes, hlast⟩ := fetched_bytes cl ready
  by_cases hn : n = 0
  · rw [hn, List.replicate_zero, List.append_nil] at hbytes
    refine ⟨old, new, oldLog, newLog, rfl, hold, hnew, by rw [List.append_assoc, hbytes, hline], fun hnil => ?_, hleft⟩
    rw [hfresh hnil] at hbytes
    exact (List.append_eq_nil_iff.mp hbytes).2
  -- the ring is empty now, and the last piece has all that went in
  obtain ⟨htx, hempty⟩ := hlast hn
  rcases List.eq_nil_or_concat newLog with rfl | ⟨rest, e, rfl⟩
  · exact absurd (hfresh (List.forall₂_nil_right_iff.mp hnew)) htx
  rw [List.concat_eq_append] at hnew ⊢
  obtain ⟨init, p, rfl, hinit, hof, hwhole⟩ := forall₂_snoc hnew
  have hpadded : Of { p with padding := p.padding + n } e := ⟨hof.frame, hof.most, fun _ => hwhole, hof.took⟩
  refine ⟨old, init ++ [{ p with padding := p.padding + n }], oldLog, rest ++ [e], rfl, hold,
    List.rel_append hinit (.cons ⟨hpadded, hwhole⟩ .nil), ?_, fun _ => hempty, hleft⟩
  rw [List.append_assoc, hbytes, ← List.append_assoc, hline]
  simp only [List.flatMap_append, List.flatMap_singleton, Piece.onLine, List.append_assoc, List.replicate_add]

end tracks

/-! ## A run -/

namespace Feed

/-- Of a feed that has come to be so. -/
structure Sound (d : Feed) : Prop where
  key : d.cl.key = localKey
  tracks : Tracks d.stream d.cl.tx d.log d.left

variable {d : Feed}

theorem Sound.deliver (h : d.Sound) (f : Frame) : (d.step (.deliver f)).Sound := by
  by_cases ha : d.cl.attached = true
  · have hcl : clientDeliver d.cl f = { sendLocal d.cl f.type f.src f.dst f.seq f.payload with
        nToClient := (sendLocal d.cl f.type f.src f.dst f.seq f.payload).nToClient + 1 } := by
      rw [clientDeliver, ha]
      rfl
    simp only [step, hcl, if_pos ha]
    exact ⟨(sendLocal_same ..).1.trans h.key, h.tracks.send h.key ..⟩
  · have hcl : clientDeliver d.cl f = d.cl := by
      rw [clientDeliver, Bool.eq_false_iff.mpr ha]
      rfl
    simp only [step, hcl, if_neg ha, List.append_nil]
    exact h

theorem Sound.report (h : d.Sound) (chain : Link) (data : List Byte) (now : Time) :
    (d.step (.report chain data now)).Sound := by
  obtain ⟨hkey, htx, -⟩ := clientRxReport_tx d.cl chain data now
  refine ⟨hkey.trans h.key, ?_⟩
  show Tracks d.stream (clientRxReport d.cl chain data now).1.tx d.log d.left
  rw [htx]
  exact h.tracks

/-- A STATUS goes into the ring when it is due. -/
theorem Sound.status (h : d.Sound) (r : Router) (now : Time) :
    (if statusDue d.cl now then sendStatus d.cl r now else d.cl).key = localKey ∧
      Tracks d.stream (if statusDue d.cl now then sendStatus d.cl r now else d.cl).tx
        (d.log ++ if statusDue d.cl now then enqueue d.cl (statusFrame (statusOf r) d.cl.txSeq) else []) d.left := by
  split
  · let cl := { d.cl with txSeq := d.cl.txSeq + 1 }
    have hnumbered : Tracks d.stream cl.tx d.log d.left := h.tracks
    obtain ⟨hkey, -⟩ := sendLocal_same cl msgCap r.cfg.self clientAddr d.cl.txSeq (localStatusPack (statusOf r))
    have hsent := hnumbered.send h.key msgCap r.cfg.self clientAddr d.cl.txSeq (localStatusPack (statusOf r))
    have hsame : enqueue cl (statusFrame (statusOf r) d.cl.txSeq) = enqueue d.cl (statusFrame (statusOf r) d.cl.txSeq) := by
      rw [enqueue, enqueue]
    have hcl : sendStatus d.cl r now =
        { sendLocal cl msgCap r.cfg.self clientAddr d.cl.txSeq (localStatusPack (statusOf r)) with
          nextStatus := now + 1000 } := by
      rw [sendStatus]
      rfl
    rw [hcl, ← hsame]
    exact ⟨hkey.trans h.key, hsent⟩
  · rw [List.append_nil]
    exact ⟨h.key, h.tracks⟩

theorem Sound.task (h : d.Sound) (r : Router) (ready : Bool) (now : Time) : (d.step (.task r ready now)).Sound := by
  by_cases hout : timedOut d.cl now = true
  · have hdue : statusDue d.cl now = false := by
      rw [statusDue, hout]
      rfl
    simp only [step, clientTask_eq, hout, hdue, if_true, Bool.false_eq_true, if_false, Option.toList_none, List.append_nil,
      Bool.or_true]
    exact ⟨h.key, h.tracks.clear⟩
  by_cases ha : d.cl.attached = true
  · obtain ⟨hkey, htold⟩ := h.status r now
    simp only [step, clientTask_eq, ha, Bool.eq_false_iff.mpr hout, Bool.not_true, Bool.false_eq_true, if_false,
      Bool.or_false]
    generalize (if statusDue d.cl now then sendStatus d.cl r now else d.cl) = told at hkey htold ⊢
    refine ⟨(fetched_same told ready).1.trans hkey, ?_⟩
    show Tracks (d.reports ++ (fetched told ready).2.toList).flatten _ _ d.left
    rw [List.flatten_append]
    exact htold.fetch ready
  · have hdue : statusDue d.cl now = false := by
      rw [statusDue, Bool.eq_false_iff.mpr ha]
      simp
    simp only [step, clientTask_eq, Bool.eq_false_iff.mpr ha, hdue, Bool.eq_false_iff.mpr hout, Bool.not_false, if_true,
      Bool.false_eq_true, if_false, Option.toList_none, List.append_nil, Bool.or_false]
    exact h

theorem Sound.run (es : List Event) : (run es).Sound := by
  refine List.foldlRecOn (motive := Sound) es step ⟨rfl, tracks_start⟩ fun d hd e _ => ?_
  cases e with
  | deliver f => exact hd.deliver f
  | report chain data now => exact hd.report chain data now
  | task r ready now => exact hd.task r ready now

/-! ## What the client decodes -/

theorem received_pieces (ps : List Piece) : received (ps.flatMap (·.onLine localKey) ++ [flag]) =
    (ps.filter (·.intact localKey)).map fun p => decoded p.frame localKey := by
  rw [received, (carries_pieces localKey ps).frames, List.map_map]
  rfl

theorem received_append (bs more : List Byte) : received bs <+: received (bs ++ more) := by
  rw [received, received, feed_append, List.filterMap_append]
  exact List.prefix_append _ _

/-- The pieces that are intact are of logged frames, in order. -/
theorem intact_logged {ps : List Piece} {log : List Enqueued} (h : List.Forall₂ Of ps log) :
    ∃ kept : List Enqueued, kept.Sublist log ∧ (∀ e ∈ kept, (onWire e.frame localKey).length ≤ e.took + 1) ∧
      ((ps.filter (·.intact localKey)).map fun p => decoded p.frame localKey) =
        kept.map fun e => decoded e.frame localKey := by
  induction h with
  | nil => exact ⟨[], .slnil, fun e he => absurd he List.not_mem_nil, rfl⟩
  | @cons p e ps log hpe _ ih =>
    obtain ⟨kept, hsub, hwhole, hsame⟩ := ih
    by_cases hp : p.intact localKey = true
    · have hlen := of_decide_eq_true hp
      rw [hpe.frame] at hlen
      have hmost := hpe.most
      refine ⟨e :: kept, hsub.cons_cons e, fun x hx => ?_, ?_⟩
      · rcases List.mem_cons.mp hx with rfl | hx
        · omega
        · exact hwhole x hx
      · rw [List.filter_cons_of_pos hp, List.map_cons, List.map_cons, hpe.frame, hsame]
    · refine ⟨kept, hsub.cons e, hwhole, ?_⟩
      rw [List.filter_cons_of_neg hp, hsame]

theorem whole_logged {ps : List Piece} {log : List Enqueued}
    (h : List.Forall₂ (fun p e => Of p e ∧ p.bytes = e.took) ps log)
    (hwhole : ∀ e ∈ log, e.took = (onWire e.frame localKey).length) :
    (∀ p ∈ ps, p.bytes = (onWire p.frame localKey).length) ∧ ps.map Piece.frame = log.map Enqueued.frame := by
  induction h with
  | nil => exact ⟨fun p hp => absurd hp List.not_mem_nil, rfl⟩
  | @cons p e ps log hpe _ ih =>
    obtain ⟨hrest, hsame⟩ := ih fun x hx => hwhole x (List.mem_cons_of_mem _ hx)
    refine ⟨fun q hq => ?_, by rw [List.map_cons, List.map_cons, hpe.1.frame, hsame]⟩
    rcases List.mem_cons.mp hq with rfl | hq
    · rw [hpe.2, hpe.1.frame]
      exact hwhole e List.mem_cons_self
    · exact hrest q hq

/-- Whatever comes when, the stream and the ring are pieces of the frames logged, one after
    another and each with its padding behind it; a flag after any of them closes what was
    sent so far, and brings out the frames of which nothing is missing but the last flag,
    if that. So the client decodes logged frames, in order and each once; and all of them
    once the ring is empty, if it took them whole and the client was not forgotten. -/
theorem reports_decode (es : List Event) :
    ∃ ps : List Piece, List.Forall₂ Of ps (run es).log ∧
      (run es).stream ++ (run es).cl.tx = ps.flatMap (·.onLine localKey) ∧
      (∀ i, received ((ps.take i).flatMap (·.onLine localKey) ++ [flag]) =
        ((ps.take i).filter (·.intact localKey)).map fun p => decoded p.frame localKey) ∧
      (∃ kept : List Enqueued, kept.Sublist (run es).log ∧
        (∀ e ∈ kept, (onWire e.frame localKey).length ≤ e.took + 1) ∧
        received (run es).stream = kept.map fun e => decoded e.frame localKey) ∧
      ((∀ e ∈ (run es).log, e.took = (onWire e.frame localKey).length) → (run es).left = false →
        (run es).cl.tx = [] → received (run es).stream = (run es).log.map fun e => decoded e.frame localKey) := by
  obtain ⟨old, new, oldLog, newLog, hlog, hold, hnew, hline, -, hleft⟩ := (Sound.run es).tracks.pieces
  have hall : List.Forall₂ Of (old ++ new) (run es).log := by
    rw [hlog]
    exact List.rel_append hold (hnew.imp fun _ _ hpe => hpe.1)
  refine ⟨old ++ new, hall, hline, fun i => received_pieces _, ?_, fun hwhole hstay hdrained => ?_⟩
  · obtain ⟨kept, hsub, hmost, hsame⟩ := intact_logged hall
    -- what is in the ring, and a flag, bring out more, but nothing else
    have hprefix := received_append (run es).stream ((run es).cl.tx ++ [flag])
    rw [← List.append_assoc, hline, received_pieces, hsame] at hprefix
    refine ⟨kept.take (received (run es).stream).length, (List.take_sublist _ _).trans hsub,
      fun e he => hmost e (List.mem_of_mem_take he), ?_⟩
    rw [List.map_take]
    exact List.prefix_iff_eq_take.mp hprefix
  · obtain rfl := hleft hstay
    obtain rfl := List.forall₂_nil_left_iff.mp hold
    rw [List.nil_append] at hlog hline
    rw [hlog] at hwhole ⊢
    rw [hdrained, List.append_nil] at hline
    obtain ⟨hfull, hsame⟩ := whole_logged hnew hwhole
    rw [hline, received, (carries_whole localKey hfull).frames, hsame, List.map_map]
    rfl

def attachReport : List Byte := onWire (localFrame msgCap clientAddr addrBroadcast 0 (localAttachPack 1)) localKey

/-- A client attaches and is told who the board is. -/
def greeting : List Event := [.report (linkInit 7) attachReport 0, .task (Joined.sampleRouter 7 2) true 0]

/-- A bulk frame of 64 bytes on the wire. -/
def bulky (seq : UInt16) : Frame := localFrame msgData 9 7 seq (List.replicate 23 flag ++ [0])

def unhurried : List Event := greeting ++ [.deliver (bulky 0), .task (Joined.sampleRouter 7 2) true 1]

theorem reports_decode_of_greeting : (run unhurried).log.length = 2 ∧
    received (run unhurried).stream = (run unhurried).log.map fun e => decoded e.frame localKey := by
  obtain ⟨ps, -, -, -, -, hall⟩ := reports_decode unhurried
  exact ⟨by decide +kernel, hall (by decide +kernel) (by decide +kernel) (by decide +kernel)⟩

/-! ## A flag too many -/

theorem deliver_eq {d : Feed} (ha : d.cl.attached = true) {f : Frame} (hs : Sendable f)
    (hlocal : localFrame f.type f.src f.dst f.seq f.payload = f) : d.step (.deliver f) = { d with
      cl := { d.cl with
        tx := d.cl.tx ++ (onWire f d.cl.key).take (txRoom - d.cl.tx.length)
        nToClient := d.cl.nToClient + 1 }
      log := d.log ++ [⟨f, min (txRoom - d.cl.tx.length) (onWire f d.cl.key).length⟩] } := by
  have henc := frameEncode_ok f d.cl.key hs.2 hs.1
  have hsend : sendLocal d.cl f.type f.src f.dst f.seq f.payload = txPush d.cl (onWire f d.cl.key) := by
    rw [← hlocal] at henc
    rw [sendLocal, ← localFrame, henc, hlocal]
  have hcl : clientDeliver d.cl f =
      { txPush d.cl (onWire f d.cl.key) with nToClient := d.cl.nToClient + 1 } := by
    rw [clientDeliver, if_neg (by rw [ha]; decide)]
    simp only [hsend]
    rfl
  simp only [step, hcl, if_pos ha, hlocal, enqueue, henc]
  rfl

/-- Frames for which there is room go in whole. -/
theorem deliver_whole (fs : List Frame) {d : Feed} (ha : d.cl.attached = true) (hs : ∀ f ∈ fs, Sendable f)
    (hlocal : ∀ f ∈ fs, localFrame f.type f.src f.dst f.seq f.payload = f)
    (hroom : d.cl.tx.length + (fs.flatMap (onWire · d.cl.key)).length ≤ txRoom) :
    ∃ n, (fs.map Event.deliver).foldl step d = { d with
      cl := { d.cl with tx := d.cl.tx ++ fs.flatMap (onWire · d.cl.key), nToClient := n }
      log := d.log ++ fs.map fun f => ⟨f, (onWire f d.cl.key).length⟩ } := by
  induction fs generalizing d with
  | nil =>
    refine ⟨d.cl.nToClient, ?_⟩
    rw [List.flatMap_nil, List.append_nil, List.map_nil, List.map_nil, List.append_nil]
    rfl
  | cons f fs ih =>
    rw [List.flatMap_cons, List.length_append] at hroom
    have hstep := deliver_eq ha (hs f List.mem_cons_self) (hlocal f List.mem_cons_self)
    rw [List.take_of_length_le (by omega), Nat.min_eq_right (by omega)] at hstep
    have hleft : (d.cl.tx ++ onWire f d.cl.key).length + (fs.flatMap (onWire · d.cl.key)).length ≤ txRoom := by
      rw [List.length_append]
      omega
    obtain ⟨n, hn⟩ := ih (d := { d with
      cl := { d.cl with tx := d.cl.tx ++ onWire f d.cl.key, nToClient := d.cl.nToClient + 1 }
      log := d.log ++ [⟨f, (onWire f d.cl.key).length⟩] }) ha (fun g hg => hs g (List.mem_cons_of_mem _ hg))
      (fun g hg => hlocal g (List.mem_cons_of_mem _ hg)) hleft
    refine ⟨n, ?_⟩
    rw [List.map_cons, List.foldl_cons, hstep, hn]
    simp only [List.append_assoc, List.flatMap_cons, List.map_cons, List.singleton_append]

/-- A turn that has nothing to do but to send a report. -/
theorem task_report {d : Feed} (ha : d.cl.attached = true) {now : Time} (hout : timedOut d.cl now = false)
    (hdue : statusDue d.cl now = false) (r : Router) (htx : d.cl.tx ≠ []) : d.step (.task r true now) = { d with
      cl := { d.cl with tx := d.cl.tx.drop clientReportBytes }
      reports := d.reports ++ [d.cl.tx.take clientReportBytes ++
        List.replicate (clientReportBytes - (d.cl.tx.take clientReportBytes).length) flag] } := by
  have hsome : ¬ (decide (d.cl.tx.length = 0) || !true) = true := by simpa using htx
  have htask : clientTask d.cl r true now = ({ d.cl with tx := d.cl.tx.drop clientReportBytes },
      some (d.cl.tx.take clientReportBytes ++
        List.replicate (clientReportBytes - (d.cl.tx.take clientReportBytes).length) flag)) := by
    rw [clientTask_eq, if_neg (by rw [hout]; decide), if_neg (by rw [ha]; decide), if_neg (by rw [hdue]; decide), fetched,
      if_neg hsome]
  simp only [step, htask, hdue, hout, Bool.false_eq_true, if_false, List.append_nil, Bool.or_false, Option.toList_some]

/-- Turns that send a full report each. -/
theorem task_reports (n : Nat) {d : Feed} (ha : d.cl.attached = true) {now : Time} (hout : timedOut d.cl now = false)
    (hdue : statusDue d.cl now = false) (r : Router) (hn : clientReportBytes * n ≤ d.cl.tx.length) :
    ∃ rs, (List.replicate n (Event.task r true now)).foldl step d = { d with
      cl := { d.cl with tx := d.cl.tx.drop (clientReportBytes * n) }
      reports := d.reports ++ rs } ∧ rs.flatten = d.cl.tx.take (clientReportBytes * n) := by
  induction n generalizing d with
  | zero =>
    refine ⟨[], ?_, rfl⟩
    rw [List.append_nil]
    rfl
  | succ n ih =>
    have hsucc : clientReportBytes * (n + 1) = clientReportBytes + clientReportBytes * n := by
      rw [Nat.mul_succ, Nat.add_comm]
    rw [hsucc] at hn ⊢
    have htx : d.cl.tx ≠ [] := List.ne_nil_of_length_pos (by rw [clientReportBytes] at hn; omega)
    have hfull : clientReportBytes - (d.cl.tx.take clientReportBytes).length = 0 := by
      rw [List.length_take_of_le (by omega), Nat.sub_self]
    have hfirst := task_report ha hout hdue r htx
    rw [hfull, List.replicate_zero, List.append_nil] at hfirst
    obtain ⟨rs, hrs, hflat⟩ := ih (d := { d with
      cl := { d.cl with tx := d.cl.tx.drop clientReportBytes }
      reports := d.reports ++ [d.cl.tx.take clientReportBytes] }) ha hout hdue (by rw [List.length_drop]; omega)
    refine ⟨d.cl.tx.take clientReportBytes :: rs, ?_, ?_⟩
    · rw [List.replicate_succ, List.foldl_cons, hfirst, hrs]
      simp only [List.drop_drop, List.append_assoc, List.singleton_append]
    · rw [List.flatten_cons, hflat, List.take_add]

/-- The ring takes all of a frame but its closing flag. -/
theorem deliver_short {d : Feed} (hk : d.cl.key = localKey) (ha : d.cl.attached = true) {g : Frame} (hs : Sendable g)
    (hlocal : localFrame g.type g.src g.dst g.seq g.payload = g)
    (hlen : d.cl.tx.length + (onWire g localKey).length = txRoom + 1) :
    ∃ e tx n, e.frame = g ∧ e.took + 1 = (onWire g localKey).length ∧ tx ++ [flag] = d.cl.tx ++ onWire g localKey ∧
      d.step (.deliver g) = { d with cl := { d.cl with tx := tx, nToClient := n }, log := d.log ++ [e] } := by
  have hstep := deliver_eq ha hs hlocal
  rw [hk] at hstep
  have hwire := length_onWire g localKey
  refine ⟨⟨g, min (txRoom - d.cl.tx.length) (onWire g localKey).length⟩, _, _, rfl, ?_, ?_, hstep⟩
  · show min _ _ + 1 = _
    omega
  · have hroom : txRoom - d.cl.tx.length = (flag :: (frameBody g localKey).flatMap stuff).length := by
      rw [List.length_cons]
      omega
    rw [hroom, onWire, List.take_left, List.append_assoc]

/-- The padding of the last report is one flag. -/
theorem task_last (n : Nat) {d : Feed} (ha : d.cl.attached = true) {now : Time} (hout : timedOut d.cl now = false)
    (hdue : statusDue d.cl now = false) (r : Router) (hn : clientReportBytes * (n + 1) = d.cl.tx.length + 1) :
    ∃ cl rs, (List.replicate (n + 1) (Event.task r true now)).foldl step d =
      { d with cl := cl, reports := d.reports ++ rs } ∧ rs.flatten = d.cl.tx ++ [flag] := by
  have hsize : clientReportBytes = 64 := rfl
  rw [Nat.mul_succ] at hn
  obtain ⟨rs, hrs, hflat⟩ := task_reports n ha hout hdue r (by omega)
  let rest := d.cl.tx.drop (clientReportBytes * n)
  have hrest : rest.length + 1 = clientReportBytes := by
    rw [List.length_drop]
    omega
  let d' : Feed := { d with cl := { d.cl with tx := rest }, reports := d.reports ++ rs }
  have hone : clientReportBytes - rest.length = 1 := by omega
  have hlast := task_report (d := d') ha hout hdue r (List.ne_nil_of_length_pos (show 0 < rest.length by omega))
  rw [show d'.cl.tx = rest from rfl, List.take_of_length_le (by omega), hone] at hlast
  refine ⟨{ d'.cl with tx := rest.drop clientReportBytes }, rs ++ [rest ++ [flag]], ?_, ?_⟩
  · rw [List.replicate_succ', List.foldl_append, hrs, ← List.append_assoc]
    exact hlast
  · rw [List.flatten_append, hflat, List.flatten_singleton, ← List.append_assoc, List.take_append_drop]

/-- Frames come while nothing is sent, and then nothing but reports is sent. -/
def rush (fs : List Frame) (g : Frame) (n : Nat) (r : Router) (now : Time) : List Event :=
  fs.map .deliver ++ .deliver g :: List.replicate (n + 1) (.task r true now)

theorem rush_carries (n : Nat) {d : Feed} (hk : d.cl.key = localKey) (ha : d.cl.attached = true) (hempty : d.cl.tx = [])
    {now : Time} (hout : timedOut d.cl now = false) (hdue : statusDue d.cl now = false) {told : List Frame}
    (hcar : Carries localKey framerInit d.stream told) (r : Router) {fs : List Frame} {g : Frame}
    (hs : ∀ f ∈ fs ++ [g], Sendable f) (hlocal : ∀ f ∈ fs ++ [g], localFrame f.type f.src f.dst f.seq f.payload = f)
    (hlen : (fs.flatMap (onWire · localKey)).length + (onWire g localKey).length = txRoom + 1)
    (hn : clientReportBytes * (n + 1) = txRoom + 1) :
    (∃ e ∈ ((rush fs g n r now).foldl step d).log, e.frame = g ∧ e.took + 1 = (onWire g localKey).length) ∧
      Carries localKey framerInit ((rush fs g n r now).foldl step d).stream (told ++ (fs ++ [g])) := by
  have hg : g ∈ fs ++ [g] := List.mem_append_right _ List.mem_cons_self
  have hwire := length_onWire g localKey
  obtain ⟨k, h1⟩ := deliver_whole fs ha (fun f hf => hs f (List.mem_append_left _ hf))
    (fun f hf => hlocal f (List.mem_append_left _ hf)) (by rw [hempty, hk, List.length_nil]; omega)
  rw [hempty, hk, List.nil_append] at h1
  generalize hlog : d.log ++ fs.map (fun f => Enqueued.mk f (onWire f localKey).length) = log at h1
  let d1 : Feed := { d with cl := { d.cl with tx := fs.flatMap (onWire · localKey), nToClient := k }, log := log }
  obtain ⟨e, tx, k', he, htook, htx, h2⟩ := deliver_short (d := d1) hk ha (hs g hg) (hlocal g hg) hlen
  let d2 : Feed := { d1 with cl := { d1.cl with tx := tx, nToClient := k' }, log := log ++ [e] }
  have hfull : tx.length = txRoom := by
    have h := congrArg List.length htx
    rw [List.length_append, List.length_append, List.length_singleton] at h
    exact Nat.succ.inj (h.trans hlen)
  obtain ⟨cl, rs, h3, hflat⟩ := task_last n (d := d2) ha hout hdue r (hn.trans (congrArg (· + 1) hfull.symm))
  have hend : (rush fs g n r now).foldl step d = { d2 with cl := cl, reports := d.reports ++ rs } := by
    rw [rush, List.foldl_append, h1, List.foldl_cons, h2]
    exact h3
  rw [hend]
  refine ⟨⟨e, List.mem_append_right _ List.mem_cons_self, he, htook⟩, ?_⟩
  have hframes := carries_frames hcar hs
  rw [List.flatMap_append, List.flatMap_singleton, ← htx, ← hflat] at hframes
  show Carries localKey framerInit (d.reports ++ rs).flatten _
  rw [List.flatten_append]
  exact hframes

theorem bulky_sendable (seq : UInt16) : Sendable (bulky seq) :=
  ⟨show msgData ≤ 0x0F by decide, show 24 ≤ maxPayload by decide⟩

/-- Thirty-two of them are a byte more than the ring takes. -/
def overrun : List Event := greeting ++ rush (List.replicate 31 (bulky 0)) (bulky 1) 31 (Joined.sampleRouter 7 2) 1

/-- The last of the frames was cut short, and is read. -/
theorem cut_frame_read : ∃ e ∈ (run overrun).log, e.took < (onWire e.frame localKey).length ∧
    decoded e.frame localKey ∈ received (run overrun).stream := by
  have hstream : (run greeting).stream = onWire (statusFrame ⟨7, 2, 0, 1⟩ 0) localKey ++ List.replicate 40 flag := by
    decide +kernel
  have hstart : Carries localKey framerInit [] [] := carries_nil localKey rfl
  have htold := (hstart.frame (f := statusFrame ⟨7, 2, 0, 1⟩ 0) (by decide) (by decide)).idle 40
  rw [List.nil_append, ← hstream] at htold
  have h0 : (onWire (bulky 0) localKey).length = 64 := by decide +kernel
  have h1 : (onWire (bulky 1) localKey).length = 64 := by decide +kernel
  have hlen : ((List.replicate 31 (bulky 0)).flatMap (onWire · localKey)).length + (onWire (bulky 1) localKey).length =
      txRoom + 1 := by
    rw [List.length_flatMap, List.map_replicate, h0, h1]
    rfl
  have hbulky : ∀ f ∈ List.replicate 31 (bulky 0) ++ [bulky 1], ∃ seq, f = bulky seq := fun f hf =>
    (List.mem_append.mp hf).elim (fun h => ⟨0, List.eq_of_mem_replicate h⟩) fun h => ⟨1, List.mem_singleton.mp h⟩
  have hs : ∀ f ∈ List.replicate 31 (bulky 0) ++ [bulky 1], Sendable f := by
    intro f hf
    obtain ⟨seq, rfl⟩ := hbulky f hf
    exact bulky_sendable seq
  have hlocal : ∀ f ∈ List.replicate 31 (bulky 0) ++ [bulky 1], localFrame f.type f.src f.dst f.seq f.payload = f := by
    intro f hf
    obtain ⟨seq, rfl⟩ := hbulky f hf
    rfl
  have hout : timedOut (run greeting).cl 1 = false := by decide +kernel
  have hdue : statusDue (run greeting).cl 1 = false := by decide +kernel
  have ha : (run greeting).cl.attached = true := by decide +kernel
  have hempty : (run greeting).cl.tx = [] := by decide +kernel
  obtain ⟨⟨e, he, hg, htook⟩, hcar⟩ := rush_carries 31 (Sound.run greeting).key ha hempty hout hdue htold
    (Joined.sampleRouter 7 2) hs hlocal hlen rfl
  have hrun : run overrun = (rush (List.replicate 31 (bulky 0)) (bulky 1) 31 (Joined.sampleRouter 7 2) 1).foldl step
      (run greeting) := List.foldl_append
  rw [hrun]
  refine ⟨e, he, ?_, ?_⟩
  · rw [hg]
    omega
  · rw [received, hcar.frames, hg]
    exact List.mem_map.mpr ⟨bulky 1, by simp, rfl⟩

end Feed

end DeskHop.Client
