/-
  DeskHop.Wire.Forged — what somebody without the key can do on a wire: nothing.

  A run of a keyed link is bytes on its two ports, frames the board sends and ticks
  (`linkRun`); it yields the link and the frames delivered. Somebody who can write on
  the wire of a port inserts bytes after a flag, the last of them a flag; none of the
  pieces they are cut into is a frame under the key (`Forgery`). Other things may
  happen meanwhile, as long as no tick gives the port up.

  Two links that differ in their decoders only are one link with two sets of decoders
  (`setFramers`): everything but the receipt of a byte treats them alike.

  Proved: the run with the forgery delivers the frames, transmits the bytes and ends in
  the link of the run without it, up to the decoders' counters (`forgery_has_no_effect`).
-/

import DeskHop.Wire.Batch
import DeskHop.Wire.Replay

namespace DeskHop.Wire

open Tap (Event)

/-! ## Runs -/

/-- One event, and the frame it delivers. -/
def linkStep (l : Link) : Event → Link × List (Port × Frame)
  | .byte p b now =>
    let r := linkRxByte l p b now
    (r.1, (r.2.toOption.map (Prod.mk p)).toList)
  | .send type dst payload => ((linkSend l type dst payload).2, [])
  | .tick now => (linkTick l now, [])

def linkRun : Link → List Event → Link × List (Port × Frame)
  | l, [] => (l, [])
  | l, e :: es =>
    let r := linkStep l e
    let t := linkRun r.1 es
    (t.1, r.2 ++ t.2)

theorem linkRun_cons (l : Link) (e : Event) (es : List Event) : linkRun l (e :: es) =
    ((linkRun (linkStep l e).1 es).1, (linkStep l e).2 ++ (linkRun (linkStep l e).1 es).2) := rfl

theorem linkRun_append (l : Link) (xs ys : List Event) : linkRun l (xs ++ ys) =
    ((linkRun (linkRun l xs).1 ys).1, (linkRun l xs).2 ++ (linkRun (linkRun l xs).1 ys).2) := by
  induction xs generalizing l with
  | nil => rfl
  | cons e xs ih =>
    rw [List.cons_append, linkRun_cons, ih, linkRun_cons, List.append_assoc]

/-- The event is not a byte on `p`. -/
def elsewhere (p : Port) : Event → Bool
  | .byte q _ _ => q != p
  | _ => true

/-- The byte of an event on `p`. -/
def byteOn (p : Port) : Event → Option Byte
  | .byte q b _ => if q = p then some b else none
  | _ => none

/-- A tick at `now` gives port `p` up. -/
def expires (l : Link) (p : Port) (now : Time) : Bool :=
  (l.port p).neighbour && timeAfter now ((l.port p).lastRx + l.neighbourTimeoutMs.toUInt32)

/-- Bytes that end in a flag, and that hold no frame under the key. -/
structure Forgery (key : Key) (bs : List Byte) : Prop where
  closed : bs.getLast? = some flag
  fails : ∀ seg ∈ (bs.splitOn flag).dropLast, ¬ WellFormed (some key) (unstuff flag seg)

instance (key : Key) (bs : List Byte) : Decidable (Forgery key bs) :=
  decidable_of_iff (bs.getLast? = some flag ∧
      ∀ seg ∈ (bs.splitOn flag).dropLast, ¬ WellFormed (some key) (unstuff flag seg))
    ⟨fun h => ⟨h.1, h.2⟩, fun h => ⟨h.closed, h.fails⟩⟩

/-! ## Decoders that differ in their counters -/

/-- The same decoder, but for what it has counted. -/
structure SameDecoder (a b : Framer) : Prop where
  body : a.body = b.body
  inFrame : a.inFrame = b.inFrame
  escaped : a.escaped = b.escaped
  overflow : a.overflow = b.overflow

theorem SameDecoder.refl (a : Framer) : SameDecoder a a := ⟨rfl, rfl, rfl, rfl⟩

theorem Collecting.same {a b : Framer} {body : List Byte} (ha : Collecting a body) (hb : Collecting b body) :
    SameDecoder a b :=
  ⟨ha.body.trans hb.body.symm, ha.inFrame.trans hb.inFrame.symm, ha.escaped.trans hb.escaped.symm,
    ha.overflow.trans hb.overflow.symm⟩

theorem finish_same {a b : Framer} (key : Option Key) (h : a.body = b.body) : (finish a key).2 = (finish b key).2 := by
  unfold finish
  rw [h]
  simp only
  repeat' split
  all_goals rfl

theorem framerPush_same {a b : Framer} (byte : Byte) (key : Option Key) (h : SameDecoder a b) :
    SameDecoder (framerPush a byte key).1 (framerPush b byte key).1 ∧
      (framerPush a byte key).2 = (framerPush b byte key).2 := by
  by_cases hflag : byte = flag
  · subst hflag
    refine ⟨(push_flag a key).same (push_flag b key), ?_⟩
    cases hopen : b.inFrame && !b.overflow && !b.body.isEmpty with
    | false => rw [push_flag_of_closed key hopen, push_flag_of_closed key (by rw [h.inFrame, h.overflow, h.body, hopen])]
    | true =>
      rw [push_flag_of_open key hopen, push_flag_of_open key (by rw [h.inFrame, h.overflow, h.body, hopen])]
      exact finish_same key h.body
  unfold framerPush
  rw [if_neg hflag, if_neg hflag]
  simp only [h.inFrame, h.overflow, h.escaped, h.body]
  split
  · exact ⟨h, rfl⟩
  split
  · exact ⟨⟨rfl, rfl, rfl, rfl⟩, rfl⟩
  split
  · exact ⟨⟨rfl, rfl, rfl, rfl⟩, rfl⟩
  · exact ⟨⟨rfl, rfl, rfl, rfl⟩, rfl⟩

/-! ## One link, two sets of decoders -/

def setFramers (l : Link) (frs : Port → Framer) : Link :=
  { l with up := { l.up with framer := frs .up }, down := { l.down with framer := frs .down } }

theorem setFramers_port (l : Link) (frs : Port → Framer) (p : Port) :
    (setFramers l frs).port p = { l.port p with framer := frs p } := by
  cases p <;> rfl

theorem setFramers_self (l : Link) : setFramers l (fun p => (l.port p).framer) = l := rfl

theorem emitFrame_setFramers (l : Link) (frs : Port → Framer) (p : Port) (f : Frame) :
    emitFrame (setFramers l frs) p f = ((emitFrame l p f).1, setFramers (emitFrame l p f).2 frs) := by
  unfold emitFrame
  have hk : (setFramers l frs).hasKey = l.hasKey := rfl
  have hkey : (setFramers l frs).key = l.key := rfl
  rw [hk, hkey]
  cases l.hasKey with
  | false => rfl
  | true =>
    cases frameEncode f l.key wireMax with
    | error r => rfl
    | ok wire => cases p <;> rfl

theorem linkSend_setFramers (l : Link) (frs : Port → Framer) (type : MsgType) (dst : Addr) (payload : List Byte) :
    linkSend (setFramers l frs) type dst payload =
      ((linkSend l type dst payload).1, setFramers (linkSend l type dst payload).2 frs) := by
  have hown : ownFrame (setFramers l frs) type dst payload = ownFrame l type dst payload := rfl
  unfold linkSend
  simp only [hown, emitFrame_setFramers]
  rfl

theorem relay_setFramers (l : Link) (frs : Port → Framer) (p : Port) (f : Frame) :
    relay (setFramers l frs) p f = setFramers (relay l p f) frs := by
  unfold relay
  simp only
  split
  · rfl
  cases frameForwardPrepare f.body with
  | error r => rfl
  | ok body => cases p <;> rfl

theorem accept_setFramers (l : Link) (frs : Port → Framer) (p : Port) (f : Frame) :
    accept (setFramers l frs) p f = (setFramers (accept l p f).1 frs, (accept l p f).2) := by
  have hk : (setFramers l frs).hasKey = l.hasKey := rfl
  have hs : (setFramers l frs).self = l.self := rfl
  have hseen : (setFramers l frs).seen = l.seen := rfl
  unfold accept
  rw [hk, hs, hseen]
  split
  · rfl
  split
  · rfl
  obtain ⟨fresh, seen⟩ := seqIsFresh l.seen f.src f.seq
  cases fresh with
  | false => rfl
  | true =>
    simp only [Bool.not_true, Bool.false_eq_true, if_false]
    by_cases hd : f.dst = l.self
    · rw [if_neg (not_not.mpr hd), if_neg (not_not.mpr hd)]
      rfl
    · have hr := relay_setFramers { l with seen := seen } frs p f
      rw [if_pos hd, if_pos hd]
      show (relay (setFramers { l with seen := seen } frs) p f,
        if decide (f.dst = (relay (setFramers { l with seen := seen } frs) p f).self) || _ then _ else _) = _
      rw [hr]
      rfl

theorem ageOut_setFramers (l : Link) (frs : Port → Framer) (p : Port) (now : Time) : ageOut (setFramers l frs) p now =
    setFramers (ageOut l p now) (if expires l p now then Function.update frs p framerInit else frs) := by
  have hexp : (((setFramers l frs).port p).neighbour &&
      timeAfter now (((setFramers l frs).port p).lastRx + (setFramers l frs).neighbourTimeoutMs.toUInt32)) =
        expires l p now := by
    cases p <;> rfl
  have hexp' : ((l.port p).neighbour && timeAfter now ((l.port p).lastRx + l.neighbourTimeoutMs.toUInt32)) =
      expires l p now := rfl
  unfold ageOut
  simp only
  rw [hexp, hexp']
  cases expires l p now with
  | false => rfl
  | true => cases p <;> rfl

theorem expires_ageOut (l : Link) {p q : Port} (now : Time) (h : q ≠ p) (t : Time) :
    expires (ageOut l p now) q t = expires l q t := by
  unfold ageOut
  simp only
  split
  · cases p <;> cases q <;> first | rfl | exact absurd rfl h
  · rfl

/-- The key the decoders are given. -/
def Link.rxKey (l : Link) : Option Key := if l.hasKey then some l.key else none

/-- Where its decoder refuses the byte, nothing else of the link changes. -/
theorem linkRxByte_refused {l : Link} (frs : Port → Framer) {p : Port} {b : Byte} {e : Result} (now : Time)
    (h : (framerPush (frs p) b l.rxKey).2 = .error e) : linkRxByte (setFramers l frs) p b now =
      (setFramers l (Function.update frs p (framerPush (frs p) b l.rxKey).1), .error e) := by
  have hfr : ((setFramers l frs).port p).framer = frs p := by
    rw [setFramers_port]
  have hkey : (if (setFramers l frs).hasKey then some (setFramers l frs).key else none) = l.rxKey := rfl
  simp only [linkRxByte, hfr, hkey, h]
  cases p <;> rfl

/-- Where both decoders return the same, so do both links. -/
theorem linkRxByte_setFramers {l : Link} {frs : Port → Framer} {p : Port} {b : Byte} (now : Time)
    (h : (framerPush (frs p) b l.rxKey).2 = (framerPush (l.port p).framer b l.rxKey).2) :
    linkRxByte (setFramers l frs) p b now =
      (setFramers (linkRxByte l p b now).1 (Function.update frs p (framerPush (frs p) b l.rxKey).1),
        (linkRxByte l p b now).2) := by
  cases hr : (framerPush (l.port p).framer b l.rxKey).2 with
  | error e =>
    rw [linkRxByte_refused frs now (h.trans hr)]
    have hself := linkRxByte_refused (fun p => (l.port p).framer) now hr
    rw [setFramers_self] at hself
    rw [hself]
    rfl
  | ok f =>
    have hfr : ((setFramers l frs).port p).framer = frs p := by
      rw [setFramers_port]
    have hkey : (if (setFramers l frs).hasKey then some (setFramers l frs).key else none) = l.rxKey := rfl
    have hkey' : (if l.hasKey then some l.key else none) = l.rxKey := rfl
    simp only [linkRxByte, hfr, hkey, hkey', h, hr]
    rw [← accept_setFramers]
    cases p <;> rfl

/-! ## Both links, one event on -/

/-- The decoders after an event. -/
def framersStep (l : Link) (frs : Port → Framer) : Event → Port → Framer
  | .byte p b _ => Function.update frs p (framerPush (frs p) b l.rxKey).1
  | .send .. => frs
  | .tick now => fun p => if expires l p now then framerInit else frs p

/-- Whatever completes a frame in one completes it in the other. -/
def Agree (l : Link) (frs : Port → Framer) : Event → Prop
  | .byte p b _ => (framerPush (frs p) b l.rxKey).2 = (framerPush (l.port p).framer b l.rxKey).2
  | _ => True

theorem linkTick_setFramers (l : Link) (frs : Port → Framer) (now : Time) : linkTick (setFramers l frs) now =
    setFramers (linkTick l now) (framersStep l frs (.tick now)) := by
  have hdown := expires_ageOut l (p := .up) (q := .down) now (by decide) now
  unfold linkTick
  rw [ageOut_setFramers, ageOut_setFramers, hdown]
  congr 1
  funext p
  simp only [framersStep]
  cases p with
  | up => cases expires l .up now <;> cases expires l .down now <;> rfl
  | down => cases expires l .up now <;> cases expires l .down now <;> rfl

theorem linkStep_setFramers {l : Link} {frs : Port → Framer} {e : Event} (h : Agree l frs e) :
    linkStep (setFramers l frs) e = (setFramers (linkStep l e).1 (framersStep l frs e), (linkStep l e).2) := by
  cases e with
  | byte p b now =>
    simp only [linkStep]
    rw [linkRxByte_setFramers now h]
    rfl
  | send type dst payload =>
    simp only [linkStep]
    rw [linkSend_setFramers]
    rfl
  | tick now =>
    simp only [linkStep]
    rw [linkTick_setFramers]

/-- So the link's own decoders after an event are these. -/
theorem framer_linkStep (l : Link) (e : Event) (p : Port) :
    ((linkStep l e).1.port p).framer = framersStep l (fun p => (l.port p).framer) e p := by
  have hagree : Agree l (fun p => (l.port p).framer) e := by
    cases e <;> first | rfl | trivial
  have h := congrArg (fun r => (r.1.port p).framer) (linkStep_setFramers hagree)
  simp only [setFramers_self, setFramers_port] at h
  exact h

theorem linkStep_key (l : Link) (e : Event) : (linkStep l e).1.hasKey = l.hasKey ∧ (linkStep l e).1.key = l.key := by
  cases e with
  | byte p b now => exact ⟨(linkRxByte_same l p b now).1, (linkRxByte_same l p b now).2.1⟩
  | send type dst payload => exact ⟨(linkSend_same l type dst payload).1, (linkSend_same l type dst payload).2.1⟩
  | tick now => exact ⟨(linkTick_same l now).1, (linkTick_same l now).2.1⟩

/-- Decoders that differ in their counters go on doing so, and nothing else differs. -/
theorem linkRun_same {l : Link} {frs : Port → Framer} (h : ∀ p, SameDecoder (frs p) (l.port p).framer) (es : List Event) :
    ∃ frs', linkRun (setFramers l frs) es = (setFramers (linkRun l es).1 frs', (linkRun l es).2) ∧
      ∀ p, SameDecoder (frs' p) ((linkRun l es).1.port p).framer := by
  induction es generalizing l frs with
  | nil => exact ⟨frs, rfl, h⟩
  | cons e es ih =>
    have hagree : Agree l frs e := by
      cases e with
      | byte p b now => exact (framerPush_same b l.rxKey (h p)).2
      | _ => trivial
    have hnext : ∀ p, SameDecoder (framersStep l frs e p) ((linkStep l e).1.port p).framer := by
      intro p
      rw [framer_linkStep]
      cases e with
      | byte q b now =>
        simp only [framersStep]
        by_cases hq : p = q
        · subst hq
          rw [Function.update_self, Function.update_self]
          exact (framerPush_same b l.rxKey (h p)).1
        · rw [Function.update_of_ne hq, Function.update_of_ne hq]
          exact h p
      | send type dst payload => exact h p
      | tick now =>
        simp only [framersStep]
        split
        · exact SameDecoder.refl _
        · exact h p
    obtain ⟨frs', hrun, hsame⟩ := ih hnext
    refine ⟨frs', ?_, hsame⟩
    rw [linkRun_cons, linkStep_setFramers hagree, hrun, linkRun_cons]

/-! ## What becomes of a port meanwhile -/

/-- What a tick goes by when it gives a port up. -/
def clock (l : Link) (p : Port) : Bool × Time × UInt16 := ((l.port p).neighbour, (l.port p).lastRx, l.neighbourTimeoutMs)

theorem expires_congr {l l' : Link} {p : Port} (h : clock l' p = clock l p) (now : Time) :
    expires l' p now = expires l p now := by
  simp only [clock, Prod.mk.injEq] at h
  simp only [expires, h.1, h.2.1, h.2.2]

theorem clock_emitFrame (l : Link) (q : Port) (f : Frame) (p : Port) : clock (emitFrame l q f).2 p = clock l p := by
  unfold emitFrame
  split
  · rfl
  split
  · rfl
  · cases q <;> cases p <;> rfl

theorem clock_relay (l : Link) (q : Port) (f : Frame) (p : Port) : clock (relay l q f) p = clock l p := by
  unfold relay
  simp only
  split
  · rfl
  split
  · rfl
  · cases q <;> cases p <;> rfl

theorem clock_accept (l : Link) (q : Port) (f : Frame) (p : Port) : clock (accept l q f).1 p = clock l p := by
  unfold accept
  split
  · rfl
  split
  · rfl
  obtain ⟨fresh, seen⟩ := seqIsFresh l.seen f.src f.seq
  cases fresh with
  | false => rfl
  | true =>
    have hr := clock_relay { l with seen := seen } q f p
    by_cases hd : f.dst = l.self
    · simp only [hd, ne_eq, not_true_eq_false, if_false]
      rfl
    · simp only [hd, ne_eq, not_false_eq_true, if_true, Bool.not_true, Bool.false_eq_true, if_false]
      exact hr

theorem clock_linkRxByte {l : Link} {p q : Port} (h : q ≠ p) (b : Byte) (now : Time) :
    clock (linkRxByte l q b now).1 p = clock l p := by
  have hset : ∀ l' : Link, ∀ lp : LinkPort, clock (l'.setPort q lp) p = clock l' p := by
    intro l' lp
    cases p <;> cases q <;> first | rfl | exact absurd rfl h
  unfold linkRxByte
  simp only
  split
  · exact hset l _
  · rw [clock_accept, hset, hset]

theorem clock_ageOut (l : Link) (p q : Port) (now : Time) (h : q = p → expires l p now = false) :
    clock (ageOut l q now) p = clock l p := by
  unfold ageOut
  simp only
  split
  · rename_i hexp
    by_cases hq : q = p
    · subst hq
      have hexp' : expires l q now = true := hexp
      rw [h rfl] at hexp'
      cases hexp'
    · cases p <;> cases q <;> first | rfl | exact absurd rfl hq
  · rfl

/-- The event is no byte on `p`, and no tick that gives `p` up. -/
def Spares (l : Link) (p : Port) (e : Event) : Prop :=
  elsewhere p e = true ∧ ∀ now, e = .tick now → expires l p now = false

theorem clock_linkStep {l : Link} {p : Port} {e : Event} (h : Spares l p e) : clock (linkStep l e).1 p = clock l p := by
  obtain ⟨helse, htick⟩ := h
  cases e with
  | byte q b now => exact clock_linkRxByte (by simpa [elsewhere] using helse) b now
  | send type dst payload =>
    show clock (emitFrame (emitFrame l .up _).2 .down _).2 p = clock l p
    rw [clock_emitFrame, clock_emitFrame]
  | tick now =>
    have hexp := htick now rfl
    show clock (ageOut (ageOut l .up now) .down now) p = clock l p
    have hup : clock (ageOut l .up now) p = clock l p := clock_ageOut l p .up now fun _ => hexp
    rw [clock_ageOut _ p .down now fun _ => (expires_congr hup now).trans hexp, hup]

theorem framersStep_spares {l : Link} {p : Port} {e : Event} (h : Spares l p e) (fr : Framer) :
    framersStep l (Function.update (fun q => (l.port q).framer) p fr) e =
      Function.update (framersStep l (fun q => (l.port q).framer) e) p fr := by
  obtain ⟨helse, htick⟩ := h
  funext q
  cases e with
  | byte r b now =>
    have hr : r ≠ p := by simpa [elsewhere] using helse
    simp only [framersStep, Function.update_of_ne hr]
    rw [Function.update_comm hr]
  | send type dst payload => rfl
  | tick now =>
    simp only [framersStep]
    by_cases hq : q = p
    · subst hq
      rw [htick now rfl, Function.update_self, Function.update_self]
      rfl
    · rw [Function.update_of_ne hq, Function.update_of_ne hq]

/-! ## The forgery -/

/-- While the decoder of `p` refuses what comes on `p`, the rest of the link does what
    it would without that. -/
theorem linkRun_forged {l : Link} {p : Port} {fr : Framer} {mid : List Event}
    (hrefused : ∀ f, .ok f ∉ (feed l.rxKey fr (mid.filterMap (byteOn p))).2)
    (hticks : ∀ now, Event.tick now ∈ mid → expires l p now = false) :
    linkRun (setFramers l (Function.update (fun q => (l.port q).framer) p fr)) mid =
      (setFramers (linkRun l (mid.filter (elsewhere p))).1
        (Function.update (fun q => ((linkRun l (mid.filter (elsewhere p))).1.port q).framer) p
          (feed l.rxKey fr (mid.filterMap (byteOn p))).1), (linkRun l (mid.filter (elsewhere p))).2) ∧
      ((linkRun l (mid.filter (elsewhere p))).1.port p).framer = (l.port p).framer := by
  induction mid generalizing l fr with
  | nil => exact ⟨rfl, rfl⟩
  | cons e mid ih =>
    have hticks' : ∀ now, Event.tick now ∈ mid → expires l p now = false := fun now h =>
      hticks now (List.mem_cons_of_mem e h)
    cases helse : elsewhere p e with
    | true =>
      have hspares : Spares l p e := by
        refine ⟨helse, ?_⟩
        rintro now rfl
        exact hticks now List.mem_cons_self
      have hnone : byteOn p e = none := by
        cases e with
        | byte q b now => simpa [elsewhere, byteOn] using helse
        | _ => rfl
      have hagree : Agree l (Function.update (fun q => (l.port q).framer) p fr) e := by
        cases e with
        | byte q b now =>
          have hq : q ≠ p := by simpa [elsewhere] using helse
          show (framerPush (Function.update (fun q => (l.port q).framer) p fr q) b l.rxKey).2 = _
          rw [Function.update_of_ne hq]
        | _ => trivial
      have hkey : (linkStep l e).1.rxKey = l.rxKey := by
        simp only [Link.rxKey, linkStep_key]
      have hown : framersStep l (fun q => (l.port q).framer) e = fun q => ((linkStep l e).1.port q).framer :=
        funext fun q => (framer_linkStep l e q).symm
      rw [List.filter_cons_of_pos helse, List.filterMap_cons_none hnone] at *
      rw [linkRun_cons, linkRun_cons, linkStep_setFramers hagree, framersStep_spares hspares, hown]
      rw [← hkey] at hrefused
      obtain ⟨h1, h2⟩ := ih hrefused fun now hm => (expires_congr (clock_linkStep hspares) now).trans (hticks' now hm)
      rw [h1, hkey]
      refine ⟨rfl, h2.trans ?_⟩
      rw [framer_linkStep]
      have hsame := congrFun (framersStep_spares hspares (l.port p).framer) p
      rw [Function.update_self, Function.update_eq_self] at hsame
      exact hsame
    | false =>
      cases e with
      | send type dst payload => cases helse
      | tick now => cases helse
      | byte q b now =>
        have hq : q = p := by simpa [elsewhere] using helse
        subst hq
        have hsome : byteOn q (.byte q b now) = some b := if_pos rfl
        rw [List.filterMap_cons_some hsome] at *
        rw [List.filter_cons_of_neg (by rw [helse]; exact Bool.false_ne_true)]
        obtain ⟨r, hr⟩ : ∃ r, (framerPush fr b l.rxKey).2 = .error r := by
          cases hpush : (framerPush fr b l.rxKey).2 with
          | error r => exact ⟨r, rfl⟩
          | ok f => exact absurd (List.mem_cons.mpr (Or.inl hpush.symm)) (hrefused f)
        have hstep : linkStep (setFramers l (Function.update (fun r => (l.port r).framer) q fr)) (.byte q b now) =
            (setFramers l (Function.update (fun r => (l.port r).framer) q (framerPush fr b l.rxKey).1), []) := by
          simp only [linkStep]
          rw [linkRxByte_refused _ now (by rw [Function.update_self]; exact hr), Function.update_self, Function.update_idem]
          rfl
        rw [linkRun_cons, hstep]
        exact ih (fun f hf => hrefused f (List.mem_cons_of_mem _ hf)) hticks'

/-- The decoder that takes a forgery in after a flag refuses all of it, and is where it
    was. -/
theorem feed_forgery {key : Key} {bs : List Byte} (h : Forgery key bs) {fr : Framer} (hfr : Collecting fr []) :
    (∀ f, .ok f ∉ (feed (some key) fr bs).2) ∧ Collecting (feed (some key) fr bs).1 [] := by
  constructor
  · intro f hf
    rw [(feed_segments (some key) bs.length bs (Nat.le_refl _) fr hfr).1] at hf
    obtain ⟨seg, hseg, hout⟩ := segmentResults_ok hf
    exact h.fails seg hseg (outcome_ok hout).1
  · obtain ⟨init, rfl⟩ := List.getLast?_eq_some_iff.mp h.closed
    rw [feed_append]
    exact push_flag _ _

theorem rxKey_of_keyed {l : Link} (hk : l.hasKey = true) : l.rxKey = some l.key := if_pos hk

theorem linkRun_key (l : Link) (es : List Event) : (linkRun l es).1.hasKey = l.hasKey ∧ (linkRun l es).1.key = l.key := by
  induction es generalizing l with
  | nil => exact ⟨rfl, rfl⟩
  | cons e es ih =>
    have h := linkStep_key l e
    exact ⟨(ih (linkStep l e).1).1.trans h.1, (ih (linkStep l e).1).2.trans h.2⟩

/-- Bytes without a frame under the key, put in after a flag and ending in one, make no
    difference to what a link delivers, transmits and remembers: the counters of its
    decoders are all that tells the runs apart. -/
theorem forgery_has_no_effect (l : Link) (hk : l.hasKey = true) (p : Port) (before mid after : List Event) (now : Time)
    (hforged : Forgery l.key (mid.filterMap (byteOn p)))
    (hticks : ∀ t, Event.tick t ∈ mid → expires (linkRun l (before ++ [.byte p flag now])).1 p t = false) :
    ∃ frs, linkRun l (before ++ [.byte p flag now] ++ (mid ++ after)) =
        (setFramers (linkRun l (before ++ [.byte p flag now] ++ (mid.filter (elsewhere p) ++ after))).1 frs,
          (linkRun l (before ++ [.byte p flag now] ++ (mid.filter (elsewhere p) ++ after))).2) ∧
      ∀ q, SameDecoder (frs q)
        ((linkRun l (before ++ [.byte p flag now] ++ (mid.filter (elsewhere p) ++ after))).1.port q).framer := by
  rw [linkRun_append l _ (mid ++ after), linkRun_append l _ (mid.filter (elsewhere p) ++ after)]
  generalize hat : (linkRun l (before ++ [.byte p flag now])).1 = l1 at hticks ⊢
  have hcollecting : Collecting (l1.port p).framer [] := by
    have hlast : l1 = (linkStep (linkRun l before).1 (.byte p flag now)).1 := by
      rw [← hat, linkRun_append]
      rfl
    rw [hlast, framer_linkStep]
    simp only [framersStep, Function.update_self]
    exact push_flag _ _
  have hkey : l1.rxKey = some l.key := by
    have h := linkRun_key l (before ++ [.byte p flag now])
    rw [hat] at h
    rw [rxKey_of_keyed (h.1.trans hk), h.2]
  obtain ⟨hrefused, hback⟩ := feed_forgery hforged hcollecting
  rw [← hkey] at hrefused hback
  obtain ⟨hmid, hframer⟩ := linkRun_forged hrefused hticks
  rw [Function.update_eq_self, setFramers_self] at hmid
  -- after the forgery the decoder of the port is at the start of a frame in both runs
  have hsame : ∀ q, SameDecoder
      (Function.update (fun q => ((linkRun l1 (mid.filter (elsewhere p))).1.port q).framer) p
        (feed l1.rxKey (l1.port p).framer (mid.filterMap (byteOn p))).1 q)
      ((linkRun l1 (mid.filter (elsewhere p))).1.port q).framer := by
    intro q
    by_cases hq : q = p
    · subst hq
      rw [Function.update_self, hframer]
      exact hback.same hcollecting
    · rw [Function.update_of_ne hq]
      exact SameDecoder.refl _
  obtain ⟨frs, hafter, hsame'⟩ := linkRun_same hsame after
  rw [linkRun_append l1 mid, hmid, hafter, linkRun_append l1 (mid.filter (elsewhere p))]
  exact ⟨frs, rfl, hsame'⟩

/-! ## A frame under another key -/

def listener : Link := linkSetKey (linkInit 1) blankKey

/-- The key of another chain. -/
def otherKey : Key := ⟨List.replicate 16 1, rfl⟩

def forgedBytes : List Event := (onWire blankFrame otherKey).map fun b => .byte .up b 20

theorem forgery_of_another_chain : ∃ frs,
    linkRun listener ([.send msgHello addrBroadcast []] ++ [.byte .up flag 10] ++
        (.tick 15 :: forgedBytes ++ (onWire blankFrame blankKey).map fun b => .byte .up b 30)) =
      (setFramers (linkRun listener ([.send msgHello addrBroadcast []] ++ [.byte .up flag 10] ++
          ([.tick 15] ++ (onWire blankFrame blankKey).map fun b => .byte .up b 30))).1 frs,
        (linkRun listener ([.send msgHello addrBroadcast []] ++ [.byte .up flag 10] ++
          ([.tick 15] ++ (onWire blankFrame blankKey).map fun b => .byte .up b 30))).2) := by
  have hevents : (.tick 15 :: forgedBytes).filter (elsewhere .up) = [.tick 15] := by
    simp [forgedBytes, elsewhere, List.filter_cons, List.filter_map]
  obtain ⟨frs, h, -⟩ := forgery_has_no_effect listener rfl .up [.send msgHello addrBroadcast []] (.tick 15 :: forgedBytes)
    ((onWire blankFrame blankKey).map fun b => .byte .up b 30) 10 (by decide +kernel) fun t _ => by
      have hsilent : ((linkRun listener ([.send msgHello addrBroadcast []] ++ [.byte .up flag 10])).1.port .up).neighbour =
        false := by decide +kernel
      rw [expires, hsilent]
      rfl
  rw [hevents] at h
  exact ⟨frs, h⟩

end DeskHop.Wire
