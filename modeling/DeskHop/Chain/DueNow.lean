/-
  DeskHop.Chain.DueNow — timers that are set to 0 to be due at once.

  Four of them: the STATUS of a board to a client that has just attached
  (`firmware/rp2040/src/clientlink.c`), the first ATTACH of a client and its first look at
  the clipboard (`client/src/main.c`), and the coordinator's redraw after a change
  (`coordinator/src/main.c`). Each is then compared with the clock as any time is.

  Proved: at whatever time, each of the four fires exactly in the first half of the
  clock's range (`fires_when_early`), so "due at once" is true of them there and nowhere else
  (`due_now_iff`). After a redraw the panel is less than 250 ms old at the end of every
  turn, as long as the turns that ask for a redraw get it (`stays_fresh`).
-/

import DeskHop.Bulk.Data
import DeskHop.Chain.Coordinator
import DeskHop.Client.Inbound
import DeskHop.Client.Status

namespace DeskHop.Chain

open DeskHop.Bulk DeskHop.Client DeskHop.Lib DeskHop.Routing DeskHop.Trust DeskHop.Wire

/-- The clock is in the first half of its range. -/
def Early (now : Time) : Prop := now.toNat < 2 ^ 31

instance (now : Time) : Decidable (Early now) := inferInstanceAs (Decidable (_ < _))

theorem timeAfter_zero (now : Time) : timeAfter now 0 = true ↔ Early now := by
  rw [timeAfter_iff, UInt32.sub_zero, Early]

/-! ## The board's STATUS -/

/-- The rest of the periodic work: a report for the client to fetch. -/
def clientFetch (cl : ClientLink) (ready : Bool) : ClientLink × Option (List Byte) :=
  if cl.tx.length = 0 || !ready then (cl, none)
  else
    let report := cl.tx.take clientReportBytes
    ({ cl with tx := cl.tx.drop clientReportBytes },
      some (report ++ List.replicate (clientReportBytes - report.length) flag))

/-- The periodic work sends a STATUS. -/
def Told (cl : ClientLink) (r : Router) (ready : Bool) (now : Time) : Prop :=
  clientTask cl r ready now = clientFetch (sendStatus cl r now) ready

/-- What else the board's client link is called for. -/
inductive Meanwhile where
  | report (data : List Byte) (now : Time)
  | deliver (f : Frame)

def Meanwhile.step (s : ClientLink × Link) : Meanwhile → ClientLink × Link
  | .report data now => clientRxReport s.1 s.2 data now
  | .deliver f => (clientDeliver s.1 f, s.2)

/-- Nobody is attached, or somebody who has been told nothing yet. -/
def Untold (cl : ClientLink) : Prop := cl.attached = true → cl.nextStatus = 0

theorem untold_frame {cl : ClientLink} (h : Untold cl) (chain : Link) (f : Frame) (now : Time) :
    Untold (handleFromClient cl chain f now).1 := by
  unfold handleFromClient
  dsimp only
  split
  · split
    · exact h
    · split
      · exact fun _ => rfl
      · exact h
  split
  · exact h
  split <;> exact h

theorem untold_report {cl : ClientLink} (h : Untold cl) (chain : Link) (data : List Byte) (now : Time) :
    Untold (clientRxReport cl chain data now).1 := by
  refine List.foldlRecOn (motive := fun s : ClientLink × Link => Untold s.1) data _ h fun s hs b _ => ?_
  unfold clientRxByte
  dsimp only
  split
  · exact @untold_frame { s.1 with framer := (framerPush s.1.framer b (some s.1.key)).1 } hs s.2 _ now
  · exact hs

theorem sendLocal_nextStatus (cl : ClientLink) (type : MsgType) (src dst : Addr) (seq : UInt16) (payload : List Byte) :
    (sendLocal cl type src dst seq payload).nextStatus = cl.nextStatus ∧
      (sendLocal cl type src dst seq payload).txSeq = cl.txSeq := by
  unfold sendLocal
  split <;> exact ⟨rfl, rfl⟩

theorem untold_meanwhile {s : ClientLink × Link} (h : Untold s.1) (es : List Meanwhile) :
    Untold (es.foldl Meanwhile.step s).1 := by
  refine List.foldlRecOn (motive := fun s : ClientLink × Link => Untold s.1) es _ h fun s hs e _ => ?_
  cases e with
  | report data now => exact untold_report hs s.2 data now
  | deliver f =>
    show Untold (clientDeliver s.1 f)
    unfold clientDeliver
    split
    · exact hs
    · intro ha
      exact ((sendLocal_nextStatus s.1 _ _ _ _ _).1).trans (hs ((sendLocal_same s.1 _ _ _ _ _).2.2.symm.trans ha))

theorem attached_meanwhile {s : ClientLink × Link} (h : s.1.attached = true) (es : List Meanwhile) :
    (es.foldl Meanwhile.step s).1.attached = true := by
  refine List.foldlRecOn (motive := fun s : ClientLink × Link => s.1.attached = true) es _ h fun s hs e _ => ?_
  cases e with
  | report data now =>
    refine List.foldlRecOn (motive := fun s : ClientLink × Link => s.1.attached = true) data _ hs fun s hs b _ => ?_
    unfold clientRxByte
    dsimp only
    split
    · rw [handleFromClient_attached]
      exact Bool.or_eq_true_iff.mpr (Or.inl hs)
    · exact hs
  | deliver f => exact (clientDeliver_same s.1 f).2.2.trans hs

theorem clientTask_eq (cl : ClientLink) (r : Router) (ready : Bool) (now : Time) (ha : cl.attached = true)
    (ht : timedOut cl now = false) :
    clientTask cl r ready now = clientFetch (if timeAfter now cl.nextStatus then sendStatus cl r now else cl) ready := by
  have hstay : ¬ (cl.attached && timeAfter now (cl.lastRx + clientTimeoutMs)) = true := Bool.eq_false_iff.mp ht
  rw [clientTask, if_neg hstay, if_neg (by simp [ha])]
  rfl

theorem told_iff {cl : ClientLink} (ha : cl.attached = true) (h : cl.nextStatus = 0) (r : Router) (ready : Bool)
    (now : Time) : Told cl r ready now ↔ Early now ∧ timedOut cl now = false := by
  have hseq : ∀ cl : ClientLink, (clientFetch cl ready).1.txSeq = cl.txSeq := by
    intro cl
    unfold clientFetch
    split <;> rfl
  have hsent : (sendStatus cl r now).txSeq = cl.txSeq + 1 := by
    simp only [sendStatus]
    rw [(sendLocal_nextStatus _ _ _ _ _ _).2]
  have hne : cl.txSeq ≠ cl.txSeq + 1 := by
    intro he
    have hone : (1 : UInt16) = 0 := by simpa using he.symm
    cases hone
  cases ht : timedOut cl now with
  | true =>
    refine iff_of_false (fun htold => ?_) (by simp)
    have hdrop : (clientTask cl r ready now).1.txSeq = cl.txSeq := by
      unfold timedOut at ht
      simp only [clientTask, ht, if_true]
    rw [htold, hseq, hsent] at hdrop
    exact hne hdrop.symm
  | false =>
    rw [Told, clientTask_eq cl r ready now ha ht, h, ← timeAfter_zero]
    refine ⟨fun htold => ⟨?_, rfl⟩, fun hd => by rw [if_pos hd.1]⟩
    by_contra hnot
    rw [if_neg hnot] at htold
    have hboth := congrArg (fun s => s.1.txSeq) htold
    simp only [hseq, hsent] at hboth
    exact hne hboth

/-! ## The client's ATTACH -/

theorem linkSend_txSeq (l : Link) (type : MsgType) (dst : Addr) (payload : List Byte) :
    (linkSend l type dst payload).2.txSeq = l.txSeq + 1 := by
  have hemit : ∀ (l : Link) (p : Port) (f : Frame), (emitFrame l p f).2.txSeq = l.txSeq := by
    intro l p f
    unfold emitFrame
    split
    · rfl
    split
    · rfl
    · simp
  simp only [linkSend, hemit]

/-- `announce` sends an ATTACH. -/
def Announced (c : ClientSide) (clipboard : Bool) (now : Time) : Prop :=
  (announce c clipboard now).link =
    (linkSend c.link msgCap addrBroadcast (localAttachPack (clientCaps clipboard))).2

theorem announced_iff {c : ClientSide} (h : c.nextAttach = 0) (clipboard : Bool) (now : Time) :
    Announced c clipboard now ↔ Early now := by
  rw [Announced, announce, h, ← timeAfter_zero]
  cases timeAfter now 0 with
  | true => exact iff_of_true rfl rfl
  | false =>
    refine iff_of_false (fun hsame => ?_) Bool.false_ne_true
    have hseq : c.link.txSeq = c.link.txSeq + 1 := (congrArg Link.txSeq hsame).trans (linkSend_txSeq _ _ _ _)
    have hone : (1 : UInt16) = 0 := by simpa using hseq.symm
    cases hone

/-! ## The client's clipboard -/

/-- The outbound part of `client_t`. -/
structure ClipWatch where
  /-- There are helpers to read and to write the clipboard. -/
  available : Bool
  txBuf : List Byte
  txBusy : Bool
  lastClip : Option (List Byte)
  nextClipPoll : Time
  peer : Addr
  data : Data

def clipStart (available : Bool) (peer : Addr) (data : Data) : ClipWatch := ⟨available, [], false, none, 0, peer, data⟩

/-- "clipboard". -/
def clipboardName : List Byte := [99, 108, 105, 112, 98, 111, 97, 114, 100]

/-- Keeps `data` until it has been sent. -/
def sendOwned (c : ClipWatch) (kind : UInt8) (name data : List Byte) (now : Time) : Bool × ClipWatch :=
  if c.txBusy then (false, c)
  else
    match dataSend c.data c.peer kind name data now with
    | (.ok _, d) => (true, { c with data := d, txBuf := data, txBusy := true })
    | (.error _, d) => (false, { c with data := d, txBuf := [], txBusy := false })

/-- Whether the helper is asked for the clipboard, whose answer is `cur`; `malloc`: there
    is memory for a copy. -/
def pollClipboard (c : ClipWatch) (cur : Option (List Byte)) (malloc : Bool) (now wall : Time) : Bool × ClipWatch :=
  if !c.available || c.txBusy then (false, c)
  else if !timeAfter now c.nextClipPoll then (false, c)
  else
    let c := { c with nextClipPoll := now + 500 }
    match cur with
    | none => (true, c)
    | some text =>
      -- unchanged, or something we ourselves just pasted in
      if c.lastClip = some text then (true, c)
      else (true, (sendOwned { c with lastClip := if malloc then some text else none } dataText clipboardName text wall).2)

theorem polled_iff (peer : Addr) (data : Data) (cur : Option (List Byte)) (malloc : Bool) (now wall : Time) :
    (pollClipboard (clipStart true peer data) cur malloc now wall).1 = true ↔ Early now := by
  have hfree : ¬ (!(clipStart true peer data).available || (clipStart true peer data).txBusy) = true := Bool.false_ne_true
  rw [← timeAfter_zero, pollClipboard, if_neg hfree]
  split
  · rename_i h
    refine iff_of_false Bool.false_ne_true fun ht => ?_
    have hlate : (!timeAfter now 0) = true := h
    rw [ht] at hlate
    cases hlate
  · rename_i h
    have ht : timeAfter now 0 = true := by simpa using (show ¬ (!timeAfter now 0) = true from h)
    refine iff_of_true ?_ ht
    cases cur with
    | none => rfl
    | some text =>
      dsimp only
      split <;> rfl

/-! ## The coordinator's panel -/

section

variable (c : Crypto)

/-- The turn ends with a redraw. -/
def Redraws (k : Coordinator) (p : Pass) : Prop := ∃ st, (k.pass c p).drawn = k.drawn ++ [(p.now, st)]

theorem pass_due (k : Coordinator) (p : Pass) :
    (timeAfter p.now (k.work c p).nextRender = true ∧ Redraws c k p ∧ (k.pass c p).nextRender = p.now + 250) ∨
      (timeAfter p.now (k.work c p).nextRender = false ∧ ¬ Redraws c k p ∧
        (k.pass c p).nextRender = (k.work c p).nextRender) := by
  have hdrawn := (Coordinator.work_asks c k p).drawn
  unfold Redraws Coordinator.pass Coordinator.refresh
  split
  · rename_i h
    refine Or.inl ⟨h, ⟨(k.work c p).dspStatus p.now, ?_⟩, rfl⟩
    show (k.work c p).drawn ++ _ = _
    rw [hdrawn]
  · rename_i h
    refine Or.inr ⟨Bool.eq_false_iff.mpr h, fun ⟨st, hst⟩ => ?_, rfl⟩
    have hlen := congrArg List.length (hdrawn.symm.trans hst)
    simp at hlen

theorem pass_router (k : Coordinator) (p : Pass) : (k.pass c p).router = (k.work c p).router := by
  unfold Coordinator.pass Coordinator.refresh
  split <;> rfl

theorem redraws_iff {k : Coordinator} {p : Pass} (h : (k.work c p).asked = true) : Redraws c k p ↔ Early p.now := by
  have hdue : (k.work c p).nextRender = 0 := by rw [Coordinator.work_due, if_pos h]
  rcases pass_due c k p with ⟨ht, hr, -⟩ | ⟨ht, hr, -⟩
  · rw [hdue] at ht
    exact iff_of_true hr ((timeAfter_zero _).mp ht)
  · rw [hdue] at ht
    refine iff_of_false hr fun he => ?_
    rw [(timeAfter_zero _).mpr he] at ht
    cases ht

/-- The coordinator, when it made its last turn and when it drew last. -/
structure Shown where
  k : Coordinator
  time : Nat
  drawnAt : Nat

/-- A turn at a real time. -/
structure Turn where
  time : Nat
  pass : Pass

def Shown.step (s : Shown) (e : Turn) : Shown :=
  ⟨s.k.pass c e.pass, e.time,
    if (s.k.pass c e.pass).drawn.length = s.k.drawn.length then s.drawnAt else e.time⟩

/-- The turns come less than 2^31 ms apart, and one that asks for a redraw gets it. -/
def Prompt (s : Shown) (e : Turn) : Prop :=
  e.pass.now = UInt32.ofNat e.time ∧ s.time ≤ e.time ∧ e.time < s.time + 2 ^ 31 ∧
    ((s.k.work c e.pass).asked = true → Redraws c s.k e.pass)

/-- The panel is less than 250 ms old. -/
def UpToDate (s : Shown) : Prop := s.time < s.drawnAt + 250

/-- The next redraw is set for 250 ms after the last. -/
structure Armed (s : Shown) : Prop where
  past : s.drawnAt ≤ s.time
  fresh : UpToDate s
  due : s.k.nextRender = UInt32.ofNat (s.drawnAt + 250)

theorem armed_of_redraw {k : Coordinator} {p : Pass} {t : Nat} (hp : p.now = UInt32.ofNat t) (h : Redraws c k p) :
    Armed ⟨k.pass c p, t, t⟩ := by
  refine ⟨Nat.le_refl t, Nat.lt_add_of_pos_right (by decide), ?_⟩
  rcases pass_due c k p with ⟨-, -, hn⟩ | ⟨-, hr, -⟩
  · rw [hn, hp, UInt32.ofNat_add]
    rfl
  · exact absurd h hr

theorem armed_step {s : Shown} (h : Armed s) {e : Turn} (he : Prompt c s e) : Armed (s.step c e) := by
  obtain ⟨hclock, hle, hlt, hprompt⟩ := he
  rcases pass_due c s.k e.pass with ⟨-, hr, -⟩ | ⟨ht, hr, hn⟩
  · obtain ⟨st, hst⟩ := id hr
    have hlen : (s.k.pass c e.pass).drawn.length ≠ s.k.drawn.length := by
      rw [hst]
      simp
    rw [Shown.step, if_neg hlen]
    exact armed_of_redraw c hclock hr
  · -- nothing asked for a redraw, so the one that was set is still ahead
    have hasked : (s.k.work c e.pass).asked ≠ true := fun ha => hr (hprompt ha)
    have hsame : (s.k.work c e.pass).nextRender = UInt32.ofNat (s.drawnAt + 250) := by
      rw [Coordinator.work_due, if_neg hasked, h.due]
    have hfresh : s.time < s.drawnAt + 250 := h.fresh
    have hpast := h.past
    have hahead : e.time < s.drawnAt + 250 := by
      by_contra hge
      rw [hsame, hclock, timeAfter_of_le (by omega) (by omega)] at ht
      cases ht
    have hlen : (s.k.pass c e.pass).drawn.length = s.k.drawn.length := by
      unfold Coordinator.pass Coordinator.refresh
      rw [if_neg (by rw [ht]; exact Bool.false_ne_true), (Coordinator.work_asks c s.k e.pass).drawn]
    rw [Shown.step, if_pos hlen]
    exact ⟨by show s.drawnAt ≤ e.time; omega, hahead, hn.trans hsame⟩

/-- After a redraw the panel is up to date at the end of every turn. -/
theorem stays_fresh {k : Coordinator} {p : Pass} {t : Nat} (hp : p.now = UInt32.ofNat t) (h : Redraws c k p)
    {es : List Turn} (hes : Reach.Admitted (Prompt c) (Shown.step c) ⟨k.pass c p, t, t⟩ es) :
    UpToDate (es.foldl (Shown.step c) ⟨k.pass c p, t, t⟩) := by
  have hrun : Reach (fun s => Armed s) (Prompt c) (Shown.step c) (es.foldl (Shown.step c) ⟨k.pass c p, t, t⟩) :=
    (Reach.init (armed_of_redraw c hp h)).run es hes
  exact (hrun.inv (I := Armed) (fun _ hs => hs) fun _ _ hs he => armed_step c hs he).fresh

/-! ## All four -/

/-- Each of the four fires at `now`, if `due`. -/
structure FiresWhen (due : Prop) (now : Time) : Prop where
  /-- A client that a report attaches is told at the next periodic work, whatever comes in
      between, unless it has timed out by then. -/
  status : ∀ cl chain data t0 es r ready, cl.attached = false →
    (clientRxReport cl chain data t0).1.attached = true →
    let s := List.foldl Meanwhile.step (clientRxReport cl chain data t0) es
    Told s.1 r ready now ↔ due ∧ timedOut s.1 now = false
  attach : ∀ c : ClientSide, c.nextAttach = 0 → ∀ clipboard, Announced c clipboard now ↔ due
  poll : ∀ peer data cur malloc wall, (pollClipboard (clipStart true peer data) cur malloc now wall).1 = true ↔ due
  /-- A turn that changes the focus or the level ends with a redraw, -/
  redraw : ∀ k p, p.now = now →
    ((k.pass c p).router.focus ≠ k.router.focus ∨ (k.pass c p).router.level ≠ k.router.level) →
    (Redraws c k p ↔ due)
  /-- and from then on the panel is less than 250 ms old. -/
  fresh : ∀ k p t, p.now = now → now = UInt32.ofNat t → Redraws c k p → ∀ es,
    Reach.Admitted (Prompt c) (Shown.step c) ⟨k.pass c p, t, t⟩ es →
    UpToDate (es.foldl (Shown.step c) ⟨k.pass c p, t, t⟩)

theorem fires_when_early (now : Time) : FiresWhen c (Early now) now := by
  constructor
  case status =>
    intro cl chain data t0 es r ready hout hin s
    have huntold : Untold (clientRxReport cl chain data t0).1 :=
      untold_report (fun ha => absurd (hout.symm.trans ha) Bool.false_ne_true) chain data t0
    have ha : s.1.attached = true := attached_meanwhile hin es
    exact told_iff ha (untold_meanwhile huntold es ha) r ready now
  case attach => exact fun client h clipboard => announced_iff h clipboard now
  case poll => exact fun peer data cur malloc wall => polled_iff peer data cur malloc now wall
  case redraw =>
    rintro k p rfl hchanged
    rw [pass_router] at hchanged
    exact redraws_iff c (Coordinator.work_changed c hchanged)
  case fresh => exact fun k p t hp ht h es hes => stays_fresh c (hp.trans ht) h hes

/-- The four timers that are due now fire now, exactly in the first half of the clock's
    range. -/
theorem due_now_iff (now : Time) : FiresWhen c True now ↔ Early now := by
  have h := fires_when_early c now
  constructor
  · intro hall
    exact (h.attach clientStart rfl true).mp ((hall.attach clientStart rfl true).mpr trivial)
  · intro hearly
    have hdue : Early now = True := eq_true hearly
    rw [hdue] at h
    exact h

end

/-- From 24.8 days on a client that has just started does not announce itself. -/
theorem late_client_is_silent : announce clientStart true 0x80000000 = clientStart ∧
    ¬ ∀ (c : Crypto) (now : Time), FiresWhen c True now := by
  refine ⟨by decide +kernel, fun h => ?_⟩
  have hearly := (due_now_iff mockCrypto 0x80000000).mp (h mockCrypto 0x80000000)
  exact absurd hearly (by decide)

end DeskHop.Chain
