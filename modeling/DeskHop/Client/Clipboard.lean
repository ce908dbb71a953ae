/-
  DeskHop.Client.Clipboard — the clipboard watch of clients that send text to each other
  (`client/src/main.c`: `poll_clipboard`, `send_owned`, `on_sent`, `on_received`).

  A machine is its client's part in this, over the transport, with the clipboard as its
  helpers read it. The transport calls the hooks as it logs them; of those only `on_offer`
  answers it. Among the machines (`happen`) users copy, clients poll, and any message ever
  sent to a machine may reach it, at any time, once, more than once or never.

  Proved: what the watch sends was copied on that machine, after the last it sent and after
  the last text that was put on the clipboard, so it sends no more often than users copy
  (`no_echo`). A text that arrives and cannot be put on the clipboard does not undo a copy
  made before it (`copy_outlives_a_text`).
-/

import DeskHop.Bulk.Moves
import DeskHop.Client.Inbound
import DeskHop.Lib.Credit

namespace DeskHop.Client

open DeskHop.Bulk DeskHop.Lib DeskHop.Wire

/-! ## A machine -/

inductive Deed where
  /-- By the user. -/
  | copied
  /-- A text, sound; and whether it was put on the clipboard. -/
  | received (put : Bool)
  /-- By the watch. -/
  | sent
  deriving DecidableEq

structure Machine where
  data : Data
  inbound : Inbound
  txBusy : Bool
  nextClipPoll : Time
  /-- Who to send to. -/
  peer : Addr
  /-- There are helpers to read and write the clipboard. -/
  available : Bool
  clipboard : List Byte
  log : List Deed

namespace Machine

/-- The helper's output, unless there is none. -/
def clipboardGet (m : Machine) : Option (List Byte) := if m.clipboard = [] then none else some m.clipboard

def sendOwned (m : Machine) (kind : UInt8) (name data : List Byte) (now : Time) : Bool × Machine :=
  if m.txBusy then (false, m)
  else
    match dataSend m.data m.peer kind name data now with
    | (.error _, d) => (false, { m with data := d, txBusy := false })
    | (.ok _, d) => (true, { m with data := d, txBusy := true })

/-- "clipboard". -/
def clipboardName : List Byte := [99, 108, 105, 112, 98, 111, 97, 114, 100]

/-- What the watch sends goes on record. -/
def sendWatched (m : Machine) (cur : List Byte) (now : Time) : Machine :=
  let (started, m) := m.sendOwned dataText clipboardName cur now
  if started then { m with log := m.log ++ [.sent] } else m

/-- `malloc`: there is memory to remember the text in. -/
def pollClipboard (m : Machine) (malloc : Bool) (now : Time) : Machine :=
  if !m.available || m.txBusy then m
  else if !timeAfter now m.nextClipPoll then m
  else
    let m := { m with nextClipPoll := now + 500 }
    match m.clipboardGet with
    | none => m
    | some cur =>
      if m.inbound.lastClip = some cur then m
      else
        { m with inbound := { m.inbound with lastClip := if malloc then some cur else none } }.sendWatched cur now

def copy (m : Machine) (bytes : List Byte) : Machine := { m with clipboard := bytes, log := m.log ++ [.copied] }

/-! ## The hooks -/

def handleByte (h : Handle) : UInt8 := UInt8.ofNat h.val

/-- What `on_received` leaves on the clipboard. -/
def written (clipboard : List Byte) (world : World) : Option Output → List Byte
  | some (.clipboard bytes _) => if world.clipboardSet then bytes else clipboard
  | _ => clipboard

/-- A hook called, as the transport logs it. -/
def hook (heap : Option (Nat → Byte)) (world : World) (m : Machine) : Note → Machine
  | .begun .. => m
  | .offered h _ _ kind total name => { m with inbound := (onOffer m.inbound (handleByte h) kind total name heap).2 }
  | .chunk h offset data => { m with inbound := onChunk m.inbound (handleByte h) offset data }
  | .received h result =>
    let (output, inbound) := onReceived m.inbound (handleByte h) result world
    { m with
      inbound := inbound
      clipboard := written m.clipboard world output
      log := m.log ++ if result = dataOk ∧ m.inbound.rxKind = dataText then [.received world.clipboardSet] else [] }
  | .sent .. => { m with txBusy := false }

/-- The offer the transport has just called about is accepted or rejected. -/
def answer (m : Machine) (heap : Option (Nat → Byte)) (now : Time) : App := fun d =>
  match d.notes.getLast? with
  | some (.offered h _ _ kind total name) => (onOffer m.inbound (handleByte h) kind total name heap).1.perform now id d
  | _ => d

/-- What the transport has become, and the hooks it called on the way. -/
def after (m : Machine) (heap : Option (Nat → Byte)) (world : World) (d : Data) : Machine :=
  (d.notes.drop m.data.notes.length).foldl (hook heap world) { m with data := d }

def rx (m : Machine) (f : Frame) (heap : Option (Nat → Byte)) (world : World) (now : Time) : Machine :=
  m.after heap world (dataRx m.data f now fun _ => m.answer heap now)

def tick (m : Machine) (world : World) (now : Time) : Machine := m.after none world (dataTick m.data now fun _ => id)

/-- Nothing has been copied, sent or received. -/
def Fresh (m : Machine) : Prop :=
  Transfer.Idle m.data ∧ m.inbound.lastClip = none ∧ m.inbound.rxKind = dataText ∧ m.clipboard = [] ∧ m.log = []

end Machine

/-! ## Machines -/

inductive Happening (ι : Type) where
  | copy (i : ι) (bytes : List Byte)
  | poll (i : ι) (malloc : Bool) (now : Time)
  /-- By the control socket. -/
  | send (i : ι) (kind : UInt8) (name data : List Byte) (now : Time)
  | aim (i : ι) (peer : Addr)
  /-- The `k`th message of `j`, to machine `i` if it is for that. -/
  | deliver (i j : ι) (k : Nat) (heap : Option (Nat → Byte)) (world : World) (now : Time)
  | tick (i : ι) (world : World) (now : Time)

section machines

variable {ι : Type} [DecidableEq ι] (addr : ι → Addr)

def happen (w : ι → Machine) : Happening ι → ι → Machine
  | .copy i bytes => Function.update w i ((w i).copy bytes)
  | .poll i malloc now => Function.update w i ((w i).pollClipboard malloc now)
  | .send i kind name data now => Function.update w i ((w i).sendOwned kind name data now).2
  | .aim i peer => Function.update w i { w i with peer := peer }
  | .deliver i j k heap world now =>
    match (w j).data.out[k]? with
    | none => w
    | some (peer, payload) =>
      if peer = addr i then Function.update w i ((w i).rx (dataFrame (addr j) peer payload) heap world now) else w
  | .tick i world now => Function.update w i ((w i).tick world now)

/-- Text only, and memory enough to remember it. -/
def TextOnly (w : ι → Machine) : Happening ι → Prop
  | .poll _ malloc _ => malloc = true
  | .send _ kind _ _ _ => kind = dataText
  | .deliver _ j k _ world _ => world.malloc = true ∧
      ∀ x ∈ (w j).data.out[k]?, byteAt x.2 0 = opOffer → byteAt x.2 2 = dataText
  | .tick _ world _ => world.malloc = true
  | _ => True

instance (w : ι → Machine) (e : Happening ι) : Decidable (TextOnly w e) := by
  unfold TextOnly
  split <;> infer_instance

end machines

/-! ## What the transport calls about -/

/-- An offer the client is called about is one of text. -/
def TextNote : Note → Prop
  | .offered _ _ _ kind _ _ => kind = dataText
  | _ => True

/-- The message a turn takes offers nothing but text. -/
def Given.text (g : Given) : Prop := ∀ p, g.payload = some p → byteAt p 0 = opOffer → byteAt p 2 = dataText

theorem textNote_end (s : Stream) (i : Handle) (r : Byte) : TextNote (endNote s i r) := by
  unfold endNote
  split
  · trivial
  · trivial

theorem callMove_text {calm : Prop} {held : Option Handle} {now : Time} {d d' : Data} (h : CallMove calm held now d d') :
    ∃ ns, d'.notes = d.notes ++ ns ∧ ∀ n ∈ ns, TextNote n := by
  cases h with
  | accept _ hb => exact ⟨_, hb.notes, fun n hn => absurd hn List.not_mem_nil⟩
  | reject _ hb => exact ⟨_, hb.notes, fun n hn => absurd hn List.not_mem_nil⟩
  | cancel _ _ hb => exact ⟨_, hb.notes, fun n hn => List.mem_singleton.mp hn ▸ textNote_end _ _ _⟩
  | fail => exact ⟨[], (List.append_nil _).symm, fun n hn => absurd hn List.not_mem_nil⟩
  | send _ _ _ hnotes => exact ⟨_, hnotes, fun n hn => List.mem_singleton.mp hn ▸ trivial⟩

theorem move_text {g : Given} (hg : Given.text g) {m m' : Mid} (h : Move g m m') :
    ∃ ns, m'.d.notes = m.d.notes ++ ns ∧ ∀ n ∈ ns, TextNote n := by
  have hnone {n : Note} (hn : n ∈ ([] : List Note)) : TextNote n := absurd hn List.not_mem_nil
  cases h with
  | call h => exact callMove_text h
  | stamp _ hb => exact ⟨_, hb.notes, fun n hn => hnone hn⟩
  | decline _ _ _ _ hb => exact ⟨_, hb.notes, fun n hn => hnone hn⟩
  | @opened d' i p s hp hop _ _ hs _ hb =>
    refine ⟨_, hb.notes, fun n hn => ?_⟩
    rw [List.mem_singleton.mp hn, hs]
    have hkind : byteAt (p.drop 2) 0 = byteAt p 2 := by
      rw [byteAt, byteAt, List.getD_eq_getElem?_getD, List.getD_eq_getElem?_getD, List.getElem?_drop]
    exact hkind.trans (hg p hp hop)
  | ack _ hb => exact ⟨_, hb.notes, fun n hn => hnone hn⟩
  | hand _ _ _ _ _ hb => exact ⟨_, hb.notes, fun n hn => List.mem_singleton.mp hn ▸ trivial⟩
  | count _ _ hb => exact ⟨_, hb.notes, fun n hn => hnone hn⟩
  | verdict _ _ hb => exact ⟨_, hb.notes, fun n hn => List.mem_singleton.mp hn ▸ textNote_end _ _ _⟩
  | quit _ _ _ hb => exact ⟨_, hb.notes, fun n hn => List.mem_singleton.mp hn ▸ textNote_end _ _ _⟩
  | told _ _ _ _ _ hb => exact ⟨_, hb.notes, fun n hn => List.mem_singleton.mp hn ▸ textNote_end _ _ _⟩
  | steer _ hb => exact ⟨_, hb.notes, fun n hn => hnone hn⟩
  | push _ hb => exact ⟨_, hb.notes, fun n hn => hnone hn⟩
  | drain _ hb => exact ⟨_, hb.notes, fun n hn => hnone hn⟩
  | offer _ hb => exact ⟨_, hb.notes, fun n hn => hnone hn⟩

/-- A turn that takes text calls about text. -/
theorem moves_text {g : Given} (hg : Given.text g) {d d' : Data} (h : Moves g d d') :
    ∃ ns, d'.notes = d.notes ++ ns ∧ ∀ n ∈ ns, TextNote n := by
  refine moves_keep h (P := fun m => ∃ ns, m.d.notes = d.notes ++ ns ∧ ∀ n ∈ ns, TextNote n) (fun m m' hm ih => ?_)
    ⟨[], (List.append_nil _).symm, fun n hn => absurd hn List.not_mem_nil⟩
  obtain ⟨ns, hns, htext⟩ := ih
  obtain ⟨more, hmore, hall⟩ := move_text hg hm
  refine ⟨ns ++ more, by rw [hmore, hns, List.append_assoc], fun n hn => ?_⟩
  exact (List.mem_append.mp hn).elim (htext n) (hall n)

/-! ## One machine -/

namespace Machine

def isCopied (x : Deed) : Bool := x == .copied
def isSent (x : Deed) : Bool := x == .sent

/-- After it, the clipboard is what the watch has seen. -/
def settles (x : Deed) : Bool := x == .sent || x == .received true

/-- What is on the clipboard has been seen, or is the user's and new. -/
structure Watchful (m : Machine) : Prop where
  sorted : m.data.Sorted
  text : m.inbound.rxKind = dataText
  seen : m.clipboard = [] ∨ m.inbound.lastClip = some m.clipboard ∨ Unspent isCopied settles m.log
  earned : Earned isCopied isSent settles m.log

variable {m : Machine}

theorem Watchful.copy (h : m.Watchful) (bytes : List Byte) : (m.copy bytes).Watchful :=
  ⟨h.sorted, h.text, Or.inr (Or.inr (unspent_earn m.log rfl)), each_snoc.mpr ⟨h.earned, fun hs => absurd hs (by decide)⟩⟩

theorem callMoves_sorted {calm : Prop} {held : Option Handle} {now : Time} {d d' : Data}
    (h : CallMoves calm held now d d') (hd : d.Sorted) : d'.Sorted := by
  induction h with
  | refl => exact hd
  | tail _ hm ih => exact hm.sorted ih

/-- A send leaves everything but the transport and the busy flag. -/
theorem sendOwned_same (m : Machine) (kind : UInt8) (name data : List Byte) (now : Time) :
    ∃ d busy, (m.sendOwned kind name data now).2 = { m with data := d, txBusy := busy } ∧ (m.data.Sorted → d.Sorted) := by
  have hmoves : CallMoves False none now m.data (dataSend m.data m.peer kind name data now).2 := send_moves _ _ _ _ _
  have hsorted := callMoves_sorted hmoves
  unfold sendOwned
  split
  · exact ⟨m.data, m.txBusy, rfl, id⟩
  · generalize dataSend m.data m.peer kind name data now = r at hsorted ⊢
    obtain ⟨res, d⟩ := r
    cases res with
    | error e => exact ⟨d, false, rfl, hsorted⟩
    | ok i => exact ⟨d, true, rfl, hsorted⟩

theorem Watchful.sendOwned (h : m.Watchful) (kind : UInt8) (name data : List Byte) (now : Time) :
    (m.sendOwned kind name data now).2.Watchful := by
  obtain ⟨d, busy, heq, hsorted⟩ := m.sendOwned_same kind name data now
  rw [heq]
  exact ⟨hsorted h.sorted, h.text, h.seen, h.earned⟩

theorem Watchful.sendWatched (h : m.Watchful) (hlast : m.inbound.lastClip = some m.clipboard)
    (hnew : Unspent isCopied settles m.log) (cur : List Byte) (now : Time) : (m.sendWatched cur now).Watchful := by
  obtain ⟨d, busy, heq, hsorted⟩ := m.sendOwned_same dataText clipboardName cur now
  unfold Machine.sendWatched
  generalize m.sendOwned dataText clipboardName cur now = r at heq ⊢
  obtain ⟨started, m'⟩ := r
  obtain rfl : m' = _ := heq
  cases started with
  | false => exact ⟨hsorted h.sorted, h.text, h.seen, h.earned⟩
  | true => exact ⟨hsorted h.sorted, h.text, Or.inr (Or.inl hlast), each_snoc.mpr ⟨h.earned, fun _ => hnew⟩⟩

/-- What the watch sends is the user's and new. -/
theorem Watchful.poll (h : m.Watchful) (now : Time) : (m.pollClipboard true now).Watchful := by
  unfold pollClipboard
  split
  · exact h
  split
  · exact h
  cases hget : ({ m with nextClipPoll := now + 500 } : Machine).clipboardGet with
  | none =>
    simp only [hget]
    exact ⟨h.sorted, h.text, h.seen, h.earned⟩
  | some cur =>
    simp only [hget]
    split
    · exact ⟨h.sorted, h.text, h.seen, h.earned⟩
    rename_i hnew
    have hcur : m.clipboard ≠ [] ∧ m.clipboard = cur := by
      unfold clipboardGet at hget
      split at hget
      · cases hget
      · rename_i hne
        exact ⟨hne, Option.some.inj hget⟩
    have hunspent : Unspent isCopied settles m.log := by
      rcases h.seen with hnil | hseen | hunspent
      · exact absurd hnil hcur.1
      · exact absurd (hseen.trans (congrArg some hcur.2)) hnew
      · exact hunspent
    have hlast : some cur = some m.clipboard := congrArg some hcur.2.symm
    have hseen : ({ m with
        nextClipPoll := now + 500, inbound := { m.inbound with lastClip := some cur } } : Machine).Watchful :=
      ⟨h.sorted, h.text, Or.inr (Or.inl hlast), h.earned⟩
    exact hseen.sendWatched hlast hunspent cur now

theorem onOffer_kind (c : Inbound) (stream : UInt8) (total : UInt32) (name : List Byte) (heap : Option (Nat → Byte))
    (hc : c.rxKind = dataText) :
    (onOffer c stream dataText total name heap).2.rxKind = dataText ∧
      (onOffer c stream dataText total name heap).2.lastClip = c.lastClip := by
  unfold onOffer
  dsimp only
  repeat' split
  all_goals exact ⟨by first | exact hc | rfl, rfl⟩

theorem onChunk_kind (c : Inbound) (stream : UInt8) (offset : UInt32) (data : List Byte) :
    (onChunk c stream offset data).rxKind = c.rxKind ∧ (onChunk c stream offset data).lastClip = c.lastClip := by
  unfold onChunk
  dsimp only
  repeat' split
  all_goals exact ⟨rfl, rfl⟩

/-- A text is put on the clipboard and remembered, or neither. -/
theorem Watchful.received (h : m.Watchful) (heap : Option (Nat → Byte)) {world : World} (hw : world.malloc = true)
    (i : Handle) (result : Byte) : (m.hook heap world (.received i result)).Watchful := by
  by_cases hok : result = dataOk
  · have hact : onReceived m.inbound (handleByte i) result world =
        (some (.clipboard m.inbound.held.bytes false), m.inbound.remember world) := by
      rw [onReceived, if_neg (not_not.mpr hok), Content.act, if_pos (show m.inbound.held.kind = dataText from h.text)]
    have hlog : (m.log ++ if result = dataOk ∧ m.inbound.rxKind = dataText then [.received world.clipboardSet] else []) =
        m.log ++ [Deed.received world.clipboardSet] := by
      rw [if_pos ⟨hok, h.text⟩]
    simp only [Machine.hook, hact, hlog]
    cases hset : world.clipboardSet with
    | true =>
      have hremember : m.inbound.remember world = { m.inbound with lastClip := some m.inbound.held.bytes } := by
        rw [Inbound.remember, if_pos ⟨h.text, hset⟩, hw]
        rfl
      rw [hremember]
      refine ⟨h.sorted, h.text, Or.inr (Or.inl ?_), each_snoc.mpr ⟨h.earned, fun hs => absurd hs (by decide)⟩⟩
      simp only [written, hset, if_true]
    | false =>
      have hremember : m.inbound.remember world = m.inbound := by
        rw [Inbound.remember, if_neg]
        rintro ⟨-, hs⟩
        rw [hset] at hs
        cases hs
      rw [hremember]
      refine ⟨h.sorted, h.text, ?_, each_snoc.mpr ⟨h.earned, fun hs => absurd hs (by decide)⟩⟩
      simp only [written, hset, Bool.false_eq_true, if_false]
      exact h.seen.imp_right fun hs => hs.imp_right fun hu => hu.snoc (by decide)
  · have hact : onReceived m.inbound (handleByte i) result world = (none, m.inbound) := by
      rw [onReceived, if_pos hok]
    simp only [Machine.hook, hact, if_neg fun hboth : result = dataOk ∧ m.inbound.rxKind = dataText => hok hboth.1,
      List.append_nil]
    exact ⟨h.sorted, h.text, h.seen, h.earned⟩

theorem Watchful.hook (h : m.Watchful) (heap : Option (Nat → Byte)) {world : World} (hw : world.malloc = true) {n : Note}
    (hn : TextNote n) : (m.hook heap world n).Watchful := by
  cases n with
  | begun i id content => exact h
  | offered i id peer kind total name =>
    obtain rfl : kind = dataText := hn
    obtain ⟨hkind, hlast⟩ := onOffer_kind m.inbound (handleByte i) total name heap h.text
    refine ⟨h.sorted, hkind, ?_, h.earned⟩
    show m.clipboard = [] ∨ (onOffer m.inbound (handleByte i) dataText total name heap).2.lastClip = some m.clipboard ∨ _
    rw [hlast]
    exact h.seen
  | chunk i offset data =>
    obtain ⟨hkind, hlast⟩ := onChunk_kind m.inbound (handleByte i) offset data
    refine ⟨h.sorted, hkind.trans h.text, ?_, h.earned⟩
    show m.clipboard = [] ∨ (onChunk m.inbound (handleByte i) offset data).lastClip = some m.clipboard ∨ _
    rw [hlast]
    exact h.seen
  | received i result => exact h.received heap hw i result
  | sent i result => exact ⟨h.sorted, h.text, h.seen, h.earned⟩

theorem Watchful.hooks (h : m.Watchful) (heap : Option (Nat → Byte)) {world : World} (hw : world.malloc = true)
    {ns : List Note}
    (hns : ∀ n ∈ ns, TextNote n) : (ns.foldl (Machine.hook heap world) m).Watchful := by
  induction ns generalizing m with
  | nil => exact h
  | cons n ns ih => exact ih (h.hook heap hw (hns n List.mem_cons_self)) fun n' hn' => hns n' (List.mem_cons_of_mem n hn')

/-- A turn of the transport, and the hooks it called. -/
theorem Watchful.after (h : m.Watchful) (heap : Option (Nat → Byte)) {world : World} (hw : world.malloc = true) {g : Given}
    (hg : Given.text g) {d : Data} (hd : Moves g m.data d) : (m.after heap world d).Watchful := by
  have hsorted : d.Sorted := moves_keep hd (P := fun mid => mid.d.Sorted) (fun _ _ hm ih => hm.sorted ih) h.sorted
  obtain ⟨ns, hns, htext⟩ := moves_text hg hd
  have hnew : d.notes.drop m.data.notes.length = ns := by
    rw [hns, List.drop_left]
  unfold Machine.after
  rw [hnew]
  have hdata : ({ m with data := d } : Machine).Watchful := ⟨hsorted, h.text, h.seen, h.earned⟩
  exact hdata.hooks heap hw htext

/-- What the client answers is a call. -/
theorem answer_calls (m : Machine) (heap : Option (Nat → Byte)) (g : Given) (hg : ¬ g.calm) (held : Option Handle) :
    Calls g held (m.answer heap g.now) := by
  intro d
  unfold answer
  split
  · exact perform_moves _ (fun hcalm => absurd hcalm hg) (fun _ => .refl) d
  · exact .refl

theorem Watchful.rx (h : m.Watchful) {f : Frame} (hf : byteAt f.payload 0 = opOffer → byteAt f.payload 2 = dataText)
    (heap : Option (Nat → Byte)) {world : World} (hw : world.malloc = true) (now : Time) :
    (m.rx f heap world now).Watchful := by
  have hcalls (held : Option Handle) : Calls ⟨m.data, f.src, some f.payload, False, now⟩ held (m.answer heap now) :=
    m.answer_calls heap ⟨m.data, f.src, some f.payload, False, now⟩ id held
  refine h.after heap hw (g := ⟨m.data, f.src, some f.payload, False, now⟩) ?_
    (dataRx_moves h.sorted rfl rfl (fun _ => hcalls none) fun i _ => hcalls (some i))
  rintro p hp hop
  cases hp
  exact hf hop

theorem Watchful.tick (h : m.Watchful) {world : World} (hw : world.malloc = true) (now : Time) :
    (m.tick world now).Watchful := by
  refine h.after none hw (g := ⟨m.data, 0, none, False, now⟩) (fun p hp => by cases hp) ?_
  exact dataTick_moves fun _ _ => .refl

end Machine

/-! ## All of them -/

namespace Machine

theorem Fresh.watchful {m : Machine} (h : m.Fresh) : m.Watchful := by
  obtain ⟨⟨hs, -⟩, -, hkind, hclip, hlog⟩ := h
  refine ⟨fun i => ?_, hkind, Or.inl hclip, ?_⟩
  · rw [hs]
    exact sided_zero i
  · rw [hlog]
    exact each_nil _

end Machine

section machines

variable {ι : Type} [DecidableEq ι] {addr : ι → Addr} {w : ι → Machine}

theorem watchful_update (h : ∀ i, (w i).Watchful) {i : ι} {m : Machine} (hm : m.Watchful) :
    ∀ j, (Function.update w i m j).Watchful := by
  intro j
  by_cases hj : j = i
  · subst hj
    rw [Function.update_self]
    exact hm
  · rw [Function.update_of_ne hj]
    exact h j

theorem happen_watchful (h : ∀ i, (w i).Watchful) {e : Happening ι} (he : TextOnly w e) :
    ∀ i, (happen addr w e i).Watchful := by
  cases e with
  | copy i bytes => exact watchful_update h ((h i).copy bytes)
  | poll i malloc now =>
    obtain rfl : malloc = true := he
    exact watchful_update h ((h i).poll now)
  | send i kind name data now => exact watchful_update h ((h i).sendOwned kind name data now)
  | aim i peer => exact watchful_update h ⟨(h i).sorted, (h i).text, (h i).seen, (h i).earned⟩
  | deliver i j k heap world now =>
    obtain ⟨hmalloc, htext⟩ := he
    cases hk : (w j).data.out[k]? with
    | none =>
      simp only [happen, hk]
      exact h
    | some x =>
      obtain ⟨peer, payload⟩ := x
      simp only [happen, hk]
      split
      · exact watchful_update h ((h i).rx (htext (peer, payload) hk) heap hmalloc now)
      · exact h
  | tick i world now => exact watchful_update h ((h i).tick he now)

/-- Between machines that send text only, each that the watch sends was copied by the user
    since the watch last sent and since a text was last put on the clipboard; it sends no
    more often than users copy. -/
theorem no_echo (h : Reach (fun w => ∀ i, (w i).Fresh) TextOnly (happen addr) w) (i : ι) :
    Each (fun pre x => x = Deed.sent → ∃ before mid, pre = before ++ Deed.copied :: mid ∧
      Deed.sent ∉ mid ∧ Deed.received true ∉ mid) (w i).log ∧
    (w i).log.count .sent ≤ (w i).log.count .copied := by
  have hw : ∀ i, (w i).Watchful :=
    h.inv (I := fun w => ∀ i, (w i).Watchful) (fun _ h0 i => (h0 i).watchful) fun _ _ hw he => happen_watchful hw he
  refine ⟨(hw i).earned.mono fun pre x hx hsent => ?_, ?_⟩
  · obtain ⟨before, a, mid, rfl, ha, hmid⟩ := hx (beq_iff_eq.mpr hsent)
    obtain rfl : a = .copied := beq_iff_eq.mp ha
    exact ⟨before, mid, rfl, fun hm => absurd (hmid _ hm) (by decide), fun hm => absurd (hmid _ hm) (by decide)⟩
  · refine countP_spend_le (fun a ha => ?_) (fun a ha => ?_) (hw i).earned
    · rw [beq_iff_eq.mp ha]
      rfl
    · rw [beq_iff_eq.mp ha]
      rfl

end machines

/-! ## Two machines -/

def sampleMachine (peer : Addr) : Machine :=
  { data := dataInit, inbound := ⟨false, [], [], 0, 0, 0, [], none⟩, txBusy := false, nextClipPoll := 0, peer := peer
    available := true, clipboard := [], log := [] }

def twoAddr : Bool → Addr
  | false => 1
  | true => 2

def twoMachines : Bool → Machine
  | false => sampleMachine 2
  | true => sampleMachine 1

theorem twoMachines_fresh (i : Bool) : (twoMachines i).Fresh := by
  cases i <;> exact ⟨⟨rfl, rfl, rfl, rfl, rfl⟩, rfl, rfl, rfl, rfl⟩

/-- A text is copied on the first machine and on its way to the second, whose user copies
    another before it is there; `put`: it can be put on the clipboard. -/
def crossing (put : Bool) : List (Happening Bool) :=
  [.copy false [104, 105], .poll false true 1000, .deliver true false 0 (some fun _ => 0) ⟨true, true, fun _ => .opened⟩ 1001,
    .deliver false true 0 none ⟨true, true, fun _ => .opened⟩ 1002, .copy true [121, 111],
    .deliver true false 1 none ⟨put, true, fun _ => .opened⟩ 1003, .poll true true 1600]

theorem crossing_reach (put : Bool) : Reach (fun w => ∀ i, (w i).Fresh) TextOnly (happen twoAddr)
    ((crossing put).foldl (happen twoAddr) twoMachines) := by
  have hadmitted : Reach.Admitted TextOnly (happen twoAddr) twoMachines (crossing put) := by
    cases put <;> decide +kernel
  exact Reach.run (.init twoMachines_fresh) (crossing put) hadmitted

theorem no_echo_when_crossing : ((crossing true).foldl (happen twoAddr) twoMachines true).log.count .sent ≤ 1 := by
  have h := (no_echo (crossing_reach true) true).2
  rwa [show ((crossing true).foldl (happen twoAddr) twoMachines true).log.count .copied = 1 by decide +kernel] at h

/-- The second user's text is sent after the first's has arrived, and could not be put on the clipboard. -/
theorem copy_outlives_a_text : ¬ ∀ w, Reach (fun w => ∀ i, (w i).Fresh) TextOnly (happen twoAddr) w → ∀ i,
    Each (fun pre x => x = Deed.sent → ∃ before mid, pre = before ++ Deed.copied :: mid ∧
      Deed.sent ∉ mid ∧ ∀ put, Deed.received put ∉ mid) (w i).log := by
  intro h
  have hlog : ((crossing false).foldl (happen twoAddr) twoMachines true).log =
      [.copied, .received false] ++ .sent :: [] := by decide +kernel
  obtain ⟨before, mid, hpre, -, hreceived⟩ := h _ (crossing_reach false) true _ _ _ hlog rfl
  cases before with
  | nil =>
    obtain rfl : [Deed.received false] = mid := (List.cons.inj hpre).2
    exact hreceived false List.mem_cons_self
  | cons a before =>
    have hrest := (List.cons.inj hpre).2
    cases before with
    | nil => cases (List.cons.inj hrest).1
    | cons b before => cases (List.append_eq_nil_iff.mp (List.cons.inj hrest).2.symm).2

end DeskHop.Client
