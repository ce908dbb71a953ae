/-
  DeskHop.Client.BoardLink — from the client to its board (`client/src/boardlink.c`,
  `on_tx` of `client/src/main.c`, and `clientlink_rx_report` at the other end).

  A socket takes as much as it has room for. A HID device takes reports of 64 bytes, so the
  end of a frame is padded with flags. Either may stop in the middle of a frame; what is left
  of it is never sent.

  Proved: what arrives of the frames of a client is a stream of pieces of them (`sent_pieces`),
  and a board, whatever else happens to it, hears just the frames of which nothing is missing,
  or nothing but the last flag (`board_hears`).
-/

import DeskHop.Client.Firmware
import DeskHop.Lib.Drain
import DeskHop.Wire.Cut

namespace DeskHop.Client

open DeskHop.Lib DeskHop.Routing DeskHop.Wire DeskHop.Trust

/-! ## The client's end -/

inductive BoardlinkKind where
  | hidraw
  | socket
  deriving DecidableEq

def hidReportBytes : Nat := 64

/-- The reports a HID device takes, without their id, and how many bytes of the data are in them. -/
def hidWrite : List Answer → List Byte → List (List Byte) × Nat
  | _, [] => ([], 0)
  | [], _ :: _ => ([], 0)
  | .wrote _ :: answers, left =>
    let n := min left.length hidReportBytes
    let rest := hidWrite answers (left.drop n)
    ((left.take n ++ List.replicate (hidReportBytes - n) flag) :: rest.1, n + rest.2)
  | .interrupted :: answers, left => hidWrite answers left
  | _ :: _, _ => ([], 0)

/-- What the board is given of `data`, and the result. -/
def boardlinkWrite (kind : BoardlinkKind) (answers : List Answer) (data : List Byte) : List Byte × Int :=
  match kind with
  | .socket =>
    let d := drain answers data
    (d.taken, if d.failed then -1 else d.taken.length)
  | .hidraw =>
    let (reports, off) := hidWrite answers data
    (reports.flatten, off)

/-- `on_tx`: a frame, and what the descriptor answers. -/
def onTx (kind : BoardlinkKind) (x : Frame × List Answer) : List Byte :=
  (boardlinkWrite kind x.2 (onWire x.1 localKey)).1

/-! ## Pieces -/

theorem hidWrite_piece (answers : List Answer) (data : List Byte) : (hidWrite answers data).2 ≤ data.length ∧
    ∃ padding, (hidWrite answers data).1.flatten = data.take (hidWrite answers data).2 ++ List.replicate padding flag := by
  induction answers generalizing data with
  | nil =>
    cases data with
    | nil => exact ⟨Nat.le_refl _, 0, rfl⟩
    | cons b data => exact ⟨Nat.zero_le _, 0, rfl⟩
  | cons a answers ih =>
    cases data with
    | nil => exact ⟨Nat.le_refl _, 0, rfl⟩
    | cons b data =>
      cases a with
      | interrupted => exact ih _
      | again => exact ⟨Nat.zero_le _, 0, rfl⟩
      | failed => exact ⟨Nat.zero_le _, 0, rfl⟩
      | wrote k =>
        let left := b :: data
        let n := min left.length hidReportBytes
        obtain ⟨hle, padding, hflat⟩ := ih (left.drop n)
        have hn : n ≤ left.length := Nat.min_le_left _ _
        rw [List.length_drop] at hle
        have hoff : (hidWrite (.wrote k :: answers) left).2 = n + (hidWrite answers (left.drop n)).2 := rfl
        have hreports : (hidWrite (.wrote k :: answers) left).1.flatten =
            left.take n ++ List.replicate (hidReportBytes - n) flag ++ (hidWrite answers (left.drop n)).1.flatten := by
          show ((_ :: _ : List (List Byte))).flatten = _
          rw [List.flatten_cons]
        show (hidWrite (.wrote k :: answers) left).2 ≤ left.length ∧ _
        rw [hoff, hreports, hflat]
        refine ⟨by omega, ?_⟩
        by_cases hfull : hidReportBytes ≤ left.length
        · -- a full report has no padding
          have hsize : hidReportBytes - n = 0 := by omega
          refine ⟨padding, ?_⟩
          rw [hsize, List.replicate_zero, List.append_nil, List.take_add, List.append_assoc]
        · have hall : n = left.length := Nat.min_eq_left (by omega)
          refine ⟨hidReportBytes - n + padding, ?_⟩
          have hnone : left.drop n = [] := List.drop_of_length_le (Nat.le_of_eq hall.symm)
          have hwhole : left.take (n + (hidWrite answers []).2) = left :=
            List.take_of_length_le (hall ▸ Nat.le_add_right _ _)
          rw [hnone, hwhole, List.take_nil, List.nil_append, List.append_assoc, ← List.replicate_add,
            List.take_of_length_le (Nat.le_of_eq hall.symm)]

/-- How many bytes of the data have gone out. -/
def boardlinkSent (kind : BoardlinkKind) (answers : List Answer) (data : List Byte) : Nat :=
  match kind with
  | .socket => (drain answers data).taken.length
  | .hidraw => (hidWrite answers data).2

/-- What the board is given is the data up to there, and flags. -/
theorem boardlinkWrite_piece (kind : BoardlinkKind) (answers : List Answer) (data : List Byte) : ∃ padding,
    (boardlinkWrite kind answers data).1 =
      data.take (boardlinkSent kind answers data) ++ List.replicate padding flag := by
  cases kind with
  | hidraw =>
    obtain ⟨-, padding, hflat⟩ := hidWrite_piece answers data
    exact ⟨padding, hflat⟩
  | socket =>
    have htake : ((drain answers data).taken ++ (drain answers data).left).take (drain answers data).taken.length =
        (drain answers data).taken := List.take_left
    rw [drain_all] at htake
    refine ⟨0, ?_⟩
    show (drain answers data).taken = data.take (drain answers data).taken.length ++ _
    rw [htake, List.replicate_zero, List.append_nil]

/-- The whole frame has gone out, or all of it but the last flag. -/
def wentOut (kind : BoardlinkKind) (x : Frame × List Answer) : Bool :=
  (onWire x.1 localKey).length ≤ boardlinkSent kind x.2 (onWire x.1 localKey) + 1

/-- The frames of a client are pieces of frames on their way to its board. -/
theorem sent_pieces (kind : BoardlinkKind) {xs : List (Frame × List Answer)} (hs : ∀ x ∈ xs, Sendable x.1) :
    ∃ ps : List Piece, xs.flatMap (onTx kind) = ps.flatMap (·.onLine localKey) ∧
      (ps.filter (·.intact localKey)).map Piece.frame = (xs.filter (wentOut kind)).map Prod.fst := by
  induction xs with
  | nil => exact ⟨[], rfl, rfl⟩
  | cons x xs ih =>
    obtain ⟨ps, hline, hframes⟩ := ih fun y hy => hs y (List.mem_cons_of_mem _ hy)
    obtain ⟨padding, hpiece⟩ := boardlinkWrite_piece kind x.2 (onWire x.1 localKey)
    let p : Piece := ⟨x.1, boardlinkSent kind x.2 (onWire x.1 localKey), padding, hs x List.mem_cons_self⟩
    have hx : onTx kind x = p.onLine localKey := hpiece
    have hintact : p.intact localKey = wentOut kind x := rfl
    refine ⟨p :: ps, by rw [List.flatMap_cons, List.flatMap_cons, hx, hline], ?_⟩
    cases hw : wentOut kind x with
    | true =>
      rw [List.filter_cons_of_pos (hintact.trans hw), List.filter_cons_of_pos hw, List.map_cons, List.map_cons, hframes]
    | false =>
      rw [List.filter_cons_of_neg (by rw [hintact, hw]; decide), List.filter_cons_of_neg (by rw [hw]; decide), hframes]

/-! ## The board's end -/

/-- The bytes of the client that these events hand over. -/
def reported (es : List Event) : List Byte := es.flatMap fun e => match e with
  | .report data _ => data
  | _ => []

/-- What a board hears in events of which it has a decoder's part, `fr` and `key`. -/
structure Hears (d d' : Firmware) (bs : List Byte) (hs : List Heard) : Prop where
  key : d'.client.key = d.client.key
  history : d'.history = d.history ++ hs
  /-- Unless the client fell silent, that is what a decoder makes of the bytes. -/
  heard : Heard.silence ∉ hs → d'.client.framer = (feed (some d.client.key) d.client.framer bs).1 ∧
    hs = ((feed (some d.client.key) d.client.framer bs).2.filterMap Except.toOption).map Heard.frame

namespace Hears

variable {d d' d'' : Firmware} {bs bs' : List Byte} {hs hs' : List Heard}

theorem refl (d : Firmware) : Hears d d [] [] := ⟨rfl, (List.append_nil _).symm, fun _ => ⟨rfl, rfl⟩⟩

theorem of_same (hc : d'.client.key = d.client.key ∧ d'.client.framer = d.client.framer) (hh : d'.history = d.history) :
    Hears d d' [] [] :=
  ⟨hc.1, by rw [hh, List.append_nil], fun _ => ⟨hc.2, rfl⟩⟩

theorem trans (h : Hears d d' bs hs) (h' : Hears d' d'' bs' hs') : Hears d d'' (bs ++ bs') (hs ++ hs') := by
  refine ⟨h'.key.trans h.key, by rw [h'.history, h.history, List.append_assoc], fun hno => ?_⟩
  obtain ⟨hfr, heq⟩ := h.heard fun hm => hno (List.mem_append_left _ hm)
  obtain ⟨hfr', heq'⟩ := h'.heard fun hm => hno (List.mem_append_right _ hm)
  rw [hfr, h.key] at hfr' heq'
  rw [feed_append, List.filterMap_append, List.map_append, heq, heq']
  exact ⟨hfr', rfl⟩

end Hears

theorem handleFromClient_framer (cl : ClientLink) (chain : Link) (f : Frame) (now : Time) :
    (handleFromClient cl chain f now).1.framer = cl.framer := by
  simp only [handleFromClient]
  repeat' split
  all_goals rfl

theorem sendLocal_framer (cl : ClientLink) (type : MsgType) (src dst : Addr) (seq : UInt16) (payload : List Byte) :
    (sendLocal cl type src dst seq payload).framer = cl.framer := by
  unfold sendLocal
  split <;> rfl

theorem clientDeliver_framer (cl : ClientLink) (f : Frame) : (clientDeliver cl f).framer = cl.framer := by
  unfold clientDeliver
  split
  · rfl
  · exact sendLocal_framer _ _ _ _ _ _

/-- The periodic work leaves the decoder alone, unless it detaches the client. -/
theorem clientTask_framer (cl : ClientLink) (r : Router) (ready : Bool) (now : Time) :
    (clientTask cl r ready now).1.framer = cl.framer ∨
      (cl.attached = true ∧ (clientTask cl r ready now).1.attached = false) := by
  have hst (b : Bool) : (if b then sendStatus cl r now else cl).framer = cl.framer := by
    cases b with
    | false => simp only [Bool.false_eq_true, if_false]
    | true =>
      have hsent := sendLocal_framer { cl with txSeq := cl.txSeq + 1 } msgCap r.cfg.self clientAddr cl.txSeq
        (localStatusPack ⟨r.cfg.self, r.focus, levelByte r.level, routerChainSize r⟩)
      simp only [if_true, sendStatus]
      exact hsent
  have htold := hst (timeAfter now cl.nextStatus)
  simp only [clientTask]
  generalize (if timeAfter now cl.nextStatus then sendStatus cl r now else cl) = told at htold
  split
  · rename_i hout
    exact Or.inr ⟨(Bool.and_eq_true_iff.mp hout).1, rfl⟩
  · split
    · exact Or.inl rfl
    · split <;> exact Or.inl htold

section hears

variable (c : Crypto) (d : Firmware)

theorem route_hears (op : Routing.Op) : Hears d (d.route op) [] [] := by
  unfold Firmware.route
  refine List.foldlRecOn (motive := fun e => Hears d e [] []) _ _ (.of_same ⟨rfl, rfl⟩ rfl) fun e he a _ => ?_
  have hstep : Hears e (e.perform a) [] [] := by
    cases a with
    | deliverData f => exact .of_same ⟨(clientDeliver_same _ _).1, clientDeliver_framer _ _⟩ rfl
    | _ => exact .of_same ⟨rfl, rfl⟩ rfl
  exact he.trans hstep

theorem clientByte_hears (b : Byte) (now : Time) : ∃ hs, Hears d (d.clientByte b now) [b] hs := by
  have hfeed : feed (some d.client.key) d.client.framer [b] =
      ((framerPush d.client.framer b (some d.client.key)).1, [(framerPush d.client.framer b (some d.client.key)).2]) :=
    rfl
  simp only [Firmware.clientByte, clientRxByte]
  cases hr : (framerPush d.client.framer b (some d.client.key)).2 with
  | error e =>
    refine ⟨[], rfl, (List.append_nil _).symm, fun _ => ?_⟩
    rw [hfeed, hr]
    exact ⟨rfl, rfl⟩
  | ok f =>
    refine ⟨[.frame f], handleFromClient_key _ _ _ _, rfl, fun _ => ?_⟩
    rw [hfeed, hr]
    exact ⟨handleFromClient_framer _ _ _ _, rfl⟩

theorem report_hears (data : List Byte) (now : Time) : ∃ hs, Hears d (d.act c (.report data now)) data hs := by
  show ∃ hs, Hears d (data.foldl (fun d b => d.clientByte b now) d) data hs
  induction data generalizing d with
  | nil => exact ⟨[], .refl d⟩
  | cons b data ih =>
    obtain ⟨hs, hb⟩ := clientByte_hears d b now
    obtain ⟨hs', hrest⟩ := ih (d.clientByte b now)
    exact ⟨hs ++ hs', hb.trans hrest⟩

theorem task_hears (ready : Bool) (now : Time) : ∃ hs, Hears d (d.task ready now) [] hs := by
  have hkey := (clientTask_same d.client d.router ready now).1
  have hframer := clientTask_framer d.client d.router ready now
  unfold Firmware.task
  generalize (clientTask d.client d.router ready now) = told at hkey hframer
  obtain ⟨cl, report⟩ := told
  dsimp only at hkey hframer ⊢
  split
  · exact ⟨[.silence], hkey, rfl, fun hno => absurd List.mem_cons_self hno⟩
  · rename_i hstill
    refine ⟨[], .of_same ⟨hkey, hframer.resolve_right fun hboth => hstill ?_⟩ rfl⟩
    rw [hboth.1, hboth.2]
    rfl

theorem act_hears (e : Event) : ∃ hs, Hears d (d.act c e) (reported [e]) hs := by
  cases e with
  | report data now =>
    have hbytes : reported [.report data now] = data := List.append_nil _
    rw [hbytes]
    exact report_hears c d data now
  | task ready now => exact task_hears d ready now
  | byte p b now =>
    refine ⟨[], ?_⟩
    show Hears d (d.rxByte c p b now) [] []
    have hnode : Hears d { d with node := d.node.rxByte c p b now } [] [] := .of_same ⟨rfl, rfl⟩ rfl
    unfold Firmware.rxByte
    dsimp only
    split
    · exact hnode
    · split
      · exact hnode.trans (route_hears _ _)
      · exact hnode
  | caps =>
    refine ⟨[], ?_⟩
    show Hears d d.checkCaps [] []
    unfold Firmware.checkCaps
    dsimp only
    split
    · exact (route_hears d _).trans (.of_same ⟨rfl, rfl⟩ rfl)
    · exact .refl d
  | localKbd rep => exact ⟨[], route_hears d _⟩
  | localMouse rep now => exact ⟨[], route_hears d _⟩
  | switchButton now => exact ⟨[], route_hears d _⟩
  | tick now => exact ⟨[], route_hears d _⟩
  | _ => exact ⟨[], .of_same ⟨rfl, rfl⟩ rfl⟩

theorem run_hears (es : List Event) : ∃ hs, Hears d (es.foldl (Firmware.act c) d) (reported es) hs := by
  induction es generalizing d with
  | nil => exact ⟨[], .refl d⟩
  | cons e es ih =>
    obtain ⟨hs, hstep⟩ := act_hears c d e
    obtain ⟨hs', hrest⟩ := ih (d.act c e)
    have hsplit : reported (e :: es) = reported [e] ++ reported es := by
      simp only [reported, List.flatMap_cons, List.flatMap_nil, List.append_nil]
    exact ⟨hs ++ hs', hsplit ▸ hstep.trans hrest⟩

end hears

/-! ## Both ends -/

/-- The frames of a client that get out whole are, in order, the frames its board hears of it
    before the client falls silent, whatever else happens to the board: the first of them as
    far as the bytes have come, all once these have come and a flag after them. -/
theorem board_hears (c : Crypto) (kind : BoardlinkKind) {xs : List (Frame × List Answer)} (hs : ∀ x ∈ xs, Sendable x.1)
    (self : Addr) (uid : Uid) (stored : Option Key) (hasInput : Bool) (now : Time) (es : List Event)
    (hcame : reported es <+: xs.flatMap (onTx kind) ++ [flag]) (hatt :
      Heard.silence ∉ (es.foldl (Firmware.act c) (Firmware.boot self uid stored hasInput now)).history) :
    let heard := (es.foldl (Firmware.act c) (Firmware.boot self uid stored hasInput now)).history
    let out := ((xs.filter (wentOut kind)).map Prod.fst).map fun f => Heard.frame (decoded f localKey)
    heard <+: out ∧ (reported es = xs.flatMap (onTx kind) ++ [flag] → heard = out) := by
  intro heard out
  let d0 : Firmware :=
    { node := Node.boot self uid stored ⟨0, false⟩
      router := routerInit ⟨self, uid, if hasInput then Election.capHidOut ||| Election.capHidIn else Election.capHidOut,
        false, Election.timingDefault, pointerCfgDefault⟩
      client := clientInit
      lastCaps := if hasInput then Election.capHidOut ||| Election.capHidIn else Election.capHidOut
      hasInput := hasInput, delivered := [], history := [], proxied := [] }
  obtain ⟨hs', hrun⟩ := run_hears c (Firmware.boot self uid stored hasInput now) es
  have hboot : Hears d0 (Firmware.boot self uid stored hasInput now) [] [] := route_hears d0 _
  have hall := hboot.trans hrun
  have hheard : heard = hs' := hall.history
  have hframes : heard = (decodes localKey (reported es)).map Heard.frame := by
    refine hheard.trans (hall.heard fun hm => hatt ?_).2
    show Heard.silence ∈ heard
    rw [hheard]
    exact hm
  have hstream : decodes localKey (xs.flatMap (onTx kind) ++ [flag]) =
      ((xs.filter (wentOut kind)).map Prod.fst).map (decoded · localKey) := by
    obtain ⟨ps, hline, hintact⟩ := sent_pieces kind hs
    rw [hline, ← hintact]
    exact (carries_pieces localKey ps).frames
  have hout : out = (decodes localKey (xs.flatMap (onTx kind) ++ [flag])).map Heard.frame := by
    rw [hstream, List.map_map]
    rfl
  rw [hframes, hout]
  exact ⟨(decodes_begins localKey hcame).map _, fun hwhole => by rw [hwhole]⟩

/-- An ATTACH of a client, which its HID device takes in one report. -/
def attachSent : List (Frame × List Answer) :=
  [(⟨msgCap, ttlDefault, clientAddr, addrBroadcast, 0, [localAttach, 16, 0], []⟩, [.interrupted, .wrote 65])]

def attachReports : List Event := [.report (attachSent.flatMap (onTx .hidraw) ++ [flag]) 7]

theorem board_hears_an_attach :
    (attachReports.foldl (Firmware.act mockCrypto) (Firmware.boot 1 0x1111 none false 0)).history =
      attachSent.map fun x => Heard.frame (decoded x.1 localKey) := by
  have hs : ∀ x ∈ attachSent, Sendable x.1 := by
    intro x hx
    rw [List.mem_singleton.mp hx]
    exact ⟨by decide, by decide⟩
  have hreported : reported attachReports = attachSent.flatMap (onTx .hidraw) ++ [flag] := List.append_nil _
  have hall : attachSent.filter (wentOut .hidraw) = attachSent := by decide +kernel
  have hheard := (board_hears mockCrypto .hidraw hs 1 0x1111 none false 0 attachReports (hreported ▸ List.prefix_refl _)
    (by decide +kernel)).2 hreported
  rw [hall, List.map_map] at hheard
  exact hheard

end DeskHop.Client
