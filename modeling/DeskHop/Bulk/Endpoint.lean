/-
  DeskHop.Bulk.Endpoint — one endpoint of the bulk transport, stopped wherever the
  application may run.

  A hook is called last of all, but for two: after the chunk hook its stream is counted
  (`Place.inChunk`), and after a slot's turn of the tick the other slots have theirs
  (`Place.inTick`). Between two stops the code runs undisturbed (`Endpoint.step`); at a
  stop the application may call the transport any number of times. A call from inside a
  cancel's own hook is one more of these, for nothing of the cancel is left to do.

  Every turn with its reactions written out is a run of such steps (`turn_is_run`), and
  every step is a chain of moves (`step_moves`).
-/

import DeskHop.Bulk.Tiling

namespace DeskHop.Bulk

open DeskHop.Lib DeskHop.Wire Relation

/-- Where the code stands. -/
inductive Place where
  /-- Nowhere: no call is under way. -/
  | idle
  /-- In the chunk hook, with the stream as it was handed over. -/
  | inChunk (i : Handle) (held : Stream) (now : Time)
  /-- In the tick, with these slots to come. -/
  | inTick (rest : List Handle) (now : Time)

structure Endpoint where
  d : Data
  place : Place

/-- What happens next. -/
inductive Doing where
  | call (c : Call) (now : Time)
  | rx (f : Frame) (now : Time)
  | tick (now : Time)
  /-- The hook returns, or the tick takes up its next slot. -/
  | goOn

/-- The stream whose chunk a frame hands over. -/
def Data.handing (d : Data) (f : Frame) : Option Handle :=
  if f.type = msgData then d.handsChunk f.src f.payload else none

/-- The state in which the chunk hook runs; `p` is the chunk behind its opcode and id. -/
def Data.handed (d : Data) (i : Handle) (p : List Byte) (now : Time) : Data :=
  (d.upd i fun s => { s with lastRx := now, retries := 0, running := adler32Update s.running (p.drop 2) }).note
    (.chunk i (offsetOf (get16 p 0)) (p.drop 2))

namespace Endpoint

def step (m : Endpoint) : Doing → Endpoint
  | .call c now => { m with d := c.perform now id m.d }
  | .rx f now =>
    match m.place with
    | .idle =>
      match m.d.handing f with
      | some i =>
        let d := m.d.handed i (f.payload.drop 2) now
        ⟨d, .inChunk i (d.s i) now⟩
      | none => ⟨dataRx m.d f now fun _ => id, .idle⟩
    | _ => m
  | .tick now =>
    match m.place with
    | .idle => ⟨m.d, .inTick (List.finRange 8) now⟩
    | _ => m
  | .goOn =>
    match m.place with
    | .idle => m
    | .inChunk i _ now => ⟨afterChunk m.d i now id, .idle⟩
    | .inTick [] _ => ⟨m.d, .idle⟩
    | .inTick (i :: rest) now => ⟨tickSlot now (fun _ => id) m.d i, .inTick rest now⟩

/-- What a list of steps leads to. -/
def run (m : Endpoint) (es : List Doing) : Endpoint := es.foldl step m

theorem run_append (m : Endpoint) (es es' : List Doing) : m.run (es ++ es') = (m.run es).run es' := List.foldl_append

end Endpoint

/-! ## A hook is the last thing called -/

/-- `f` ends with one of the hooks `app k`, or calls none. -/
def HookLast {κ : Type} (f : (κ → App) → Data) : Prop :=
  ∀ app, f app = f (fun _ => id) ∨ ∃ k, f app = app k (f fun _ => id)

namespace HookLast

variable {κ : Type} {f g : (κ → App) → Data}

theorem none (d : Data) : HookLast fun _ : κ → App => d := fun _ => Or.inl rfl

theorem finish (d : Data) (i : Handle) (r : Byte) (k : κ) : HookLast fun app => d.finish i r (app k) := by
  intro app
  refine Or.inr ⟨k, ?_⟩
  simp only [finish_eq]
  rfl

theorem hook (d : Data) (k : κ) : HookLast fun app => app k d := fun _ => Or.inr ⟨k, rfl⟩

theorem ite {p : Prop} [Decidable p] (hf : p → HookLast f) (hg : ¬ p → HookLast g) :
    HookLast fun app => if p then f app else g app := by
  by_cases h : p
  · simpa only [if_pos h] using hf h
  · simpa only [if_neg h] using hg h

end HookLast

section calls

variable (d : Data) (i : Handle) (now : Time)

theorem tickSlot_hookLast : HookLast fun app => tickSlot now app d i := by
  simp only [tickSlot]
  refine .ite (fun _ => .none _) fun _ => .ite (fun _ => .finish _ _ _ _) fun _ => ?_
  refine .ite (fun _ => .none _) fun _ => .ite (fun _ => .none _) fun _ => ?_
  exact .ite (fun _ => .finish _ _ _ _) fun _ => .none _

theorem afterChunk_hookLast : HookLast fun app : Fin 2 → App => afterChunk d i now (app ⟨1, Nat.one_lt_two⟩) := by
  simp only [afterChunk]
  exact .ite (fun _ => .finish _ _ _ _) fun _ => .ite (fun _ => .none _) fun _ => .none _

theorem rxOffer_hookLast (peer : Addr) (id : UInt8) (p : List Byte) :
    HookLast fun app : Fin 2 → App => rxOffer d peer id p now (app ⟨0, Nat.two_pos⟩) := by
  simp only [rxOffer]
  refine .ite (fun _ => .none _) fun _ => ?_
  cases d.slotFind peer id false with
  | some i => exact .ite (fun _ => .none _) fun _ => .none _
  | none =>
    cases d.slotFree false with
    | none => exact .none _
    | some i => exact .ite (fun _ => .none _) fun _ => .hook _ _

theorem perform_hookLast (c : Call) : HookLast fun app : Unit → App => c.perform now (app ()) d := by
  cases c with
  | accept stream => exact .none _
  | reject stream => exact .none _
  | send peer kind name data => exact .none _
  | cancel stream =>
    simp only [Call.perform, dataCancel]
    cases d.byHandle stream with
    | none => exact .none _
    | some i => exact .finish _ _ _ _

end calls

/-! ## A chunk handed over, or not -/

section rx

variable {d : Data} {f : Frame} {i : Handle}

/-- What a chunk that is handed over satisfies. -/
theorem handing_some (h : d.handing f = some i) : f.type = msgData ∧ d.handsChunk f.src f.payload = some i ∧
    d.addressee f.src (byteAt f.payload 1) opChunk = some i ∧ byteAt f.payload 0 = opChunk ∧
    2 ≤ (f.payload.drop 2).length ∧ (d.s i).state = .receiving ∧ get16 (f.payload.drop 2) 0 = (d.s i).nextSeq ∧
    offsetOf (get16 (f.payload.drop 2) 0) + UInt32.ofNat ((f.payload.drop 2).drop 2).length ≤ (d.s i).total := by
  unfold Data.handing at h
  split at h
  · rename_i ht
    have hsplit := h
    rw [Data.handsChunk] at hsplit
    obtain ⟨haddr, hcond⟩ := Option.filter_eq_some_iff.mp hsplit
    simp only [Bool.and_eq_true, beq_iff_eq, decide_eq_true_eq] at hcond
    obtain ⟨⟨⟨⟨hop, hlen⟩, hs⟩, hseq⟩, hfits⟩ := hcond
    exact ⟨ht, h, haddr, hop, hlen, hs, hseq, hfits⟩
  · cases h

/-- A chunk that could be handed over, and is not. -/
theorem handing_none (h : d.handing f = none) (ht : ¬ f.type ≠ msgData)
    (haddr : d.addressee f.src (byteAt f.payload 1) opChunk = some i) (hop : byteAt f.payload 0 = opChunk)
    (hlen : 2 ≤ (f.payload.drop 2).length) (hs : (d.s i).state = .receiving)
    (hseq : get16 (f.payload.drop 2) 0 = (d.s i).nextSeq) :
    ¬ ¬ offsetOf (get16 (f.payload.drop 2) 0) + UInt32.ofNat ((f.payload.drop 2).drop 2).length > (d.s i).total := by
  intro hstop
  rw [Data.handing, if_pos (not_not.mp ht), Data.handsChunk, haddr, Option.filter_eq_none_iff] at h
  refine h i rfl ?_
  simp only [Bool.and_eq_true, beq_iff_eq, decide_eq_true_eq]
  exact ⟨⟨⟨⟨hop, hlen⟩, hs⟩, hseq⟩, UInt32.not_lt.mp hstop⟩

/-- The hook, and then what is left to do for its stream. -/
theorem dataRx_handed (h : d.handing f = some i) (now : Time) (app : Fin 2 → App) :
    dataRx d f now app = afterChunk (app ⟨0, Nat.two_pos⟩ (d.handed i (f.payload.drop 2) now)) i now
      (app ⟨1, Nat.one_lt_two⟩) := by
  obtain ⟨ht, -, haddr, hop, hlen, hs, hseq, hfits⟩ := handing_some h
  have hlen' : ¬ f.payload.length < 2 := by
    rw [List.length_drop] at hlen
    omega
  have hstop : ¬ offsetOf (get16 (f.payload.drop 2) 0) + UInt32.ofNat ((f.payload.drop 2).drop 2).length > (d.s i).total :=
    UInt32.not_lt.mpr hfits
  rw [dataRx, if_neg (by simp [ht, hlen'])]
  simp only [hop, haddr]
  rw [if_neg (by decide), rxStream, if_neg (by decide), if_neg (by decide), if_pos rfl, rxChunk]
  have hguard : ¬ ((decide ((f.payload.drop 2).length < 2) || (StreamState.receiving != StreamState.receiving)) = true) := by
    rw [bne_self_eq_false, Bool.or_false, decide_eq_true_eq]
    exact Nat.not_lt.mpr hlen
  simp only [Data.upd_self, hs, hseq]
  rw [if_neg hguard, if_neg (by simp), if_neg (by rw [← hseq]; exact hstop)]
  rw [Data.handed, hseq]
  simp only [Data.upd_upd]
  rfl

theorem rxChunk_hookLast (p : List Byte) (now : Time) (hno : 2 ≤ p.length → (d.s i).state = .receiving →
    get16 p 0 = (d.s i).nextSeq → ¬ offsetOf (get16 p 0) + UInt32.ofNat (p.drop 2).length > (d.s i).total → False) :
    HookLast fun app : Fin 2 → App => rxChunk d i p now app := by
  simp only [rxChunk]
  refine .ite (fun _ => .none _) fun hrecv => ?_
  simp only [Bool.or_eq_true, decide_eq_true_eq, bne_iff_ne, ne_eq, not_or, Nat.not_lt, not_not] at hrecv
  refine .ite (fun _ => .ite (fun _ => .none _) fun _ => .none _) fun hseq => ?_
  refine .ite (fun _ => .finish _ _ _ _) fun hstop => ?_
  simp only [Data.upd_self, ne_eq, not_not] at hseq hstop
  exact (hno hrecv.1 hrecv.2 hseq hstop).elim

theorem rxStream_hookLast (op : Byte) (p : List Byte) (now : Time) (hno : op = opChunk → 2 ≤ p.length →
    (d.s i).state = .receiving → get16 p 0 = (d.s i).nextSeq →
    ¬ offsetOf (get16 p 0) + UInt32.ofNat (p.drop 2).length > (d.s i).total → False) :
    HookLast fun app : Fin 2 → App => rxStream d i op p now app := by
  simp only [rxStream]
  refine .ite (fun _ => .none _) fun _ => .ite (fun _ => .finish _ _ _ _) fun _ => ?_
  refine .ite (fun hop => ?_) fun _ => .ite (fun _ => .none _) fun _ => ?_
  · refine rxChunk_hookLast p now ?_
    simp only [Data.upd_self]
    exact hno hop
  · refine .ite (fun _ => .finish _ _ _ _) fun _ => .ite (fun _ => .finish _ _ _ _) fun _ => .none _

theorem dataRx_hookLast (h : d.handing f = none) (now : Time) : HookLast fun app => dataRx d f now app := by
  simp only [dataRx]
  refine .ite (fun _ => .none _) fun hf => .ite (fun _ => rxOffer_hookLast _ _ _ _ _) fun _ => ?_
  cases haddr : d.addressee f.src (byteAt f.payload 1) (byteAt f.payload 0) with
  | none => exact .none _
  | some i =>
    refine rxStream_hookLast _ _ now fun hop hlen hs hseq hstop => ?_
    exact handing_none h (not_or.mp hf).1 (hop ▸ haddr) hop hlen hs hseq hstop

end rx

/-! ## A turn is a run -/

/-- Nothing but calls of the application. -/
def Calling (e : Doing) : Prop := ∃ c now, e = .call c now

/-- Calls of the application lead from `d` to `d'`, wherever the code stands. -/
def CallsTo (d d' : Data) : Prop :=
  ∃ es : List Doing, (∀ e ∈ es, Calling e) ∧ ∀ place, Endpoint.run ⟨d, place⟩ es = ⟨d', place⟩

namespace CallsTo

variable {d d' d'' : Data}

theorem refl (d : Data) : CallsTo d d := ⟨[], by simp, fun _ => rfl⟩

theorem trans (h : CallsTo d d') (h' : CallsTo d' d'') : CallsTo d d'' := by
  obtain ⟨es, hes, hrun⟩ := h
  obtain ⟨es', hes', hrun'⟩ := h'
  refine ⟨es ++ es', fun e he => ?_, fun place => ?_⟩
  · rcases List.mem_append.mp he with he | he
    · exact hes e he
    · exact hes' e he
  · rw [Endpoint.run_append, hrun, hrun']

theorem call (c : Call) (now : Time) (d : Data) : CallsTo d (c.perform now id d) := by
  refine ⟨[.call c now], fun e he => ?_, fun _ => rfl⟩
  rw [List.mem_singleton.mp he]
  exact ⟨c, now, rfl⟩

/-- Where the last thing is a hook, its calls come last. -/
theorem ofHookLast {κ : Type} {f : (κ → App) → Data} (hf : HookLast f) (app : κ → App)
    (happ : ∀ k d, CallsTo d (app k d)) : CallsTo (f fun _ => id) (f app) := by
  rcases hf app with h | ⟨k, h⟩
  · rw [h]
    exact .refl _
  · rw [h]
    exact happ k _

theorem script (s : Script) (now : Time) (d : Data) : CallsTo d (s.run now d) := by
  induction s generalizing d with
  | done => exact .refl d
  | call c inner rest ihInner ihRest =>
    have hcall := (CallsTo.call c now d).trans
      (ofHookLast (perform_hookLast d now c) (fun _ => inner.run now) fun _ => ihInner)
    exact hcall.trans (ihRest _)

end CallsTo

namespace Endpoint

/-- Steps lead from one stop to another. -/
def Reaches (m m' : Endpoint) : Prop := ∃ es, m.run es = m'

theorem Reaches.trans {m m' m'' : Endpoint} (h : Reaches m m') (h' : Reaches m' m'') : Reaches m m'' := by
  obtain ⟨es, rfl⟩ := h
  obtain ⟨es', rfl⟩ := h'
  exact ⟨es ++ es', run_append m es es'⟩

theorem Reaches.one (m : Endpoint) (e : Doing) : Reaches m (m.step e) := ⟨[e], rfl⟩

theorem reaches_of_calls {d d' : Data} (h : CallsTo d d') (place : Place) : Reaches ⟨d, place⟩ ⟨d', place⟩ := by
  obtain ⟨es, -, hrun⟩ := h
  exact ⟨es, hrun place⟩

/-- The slots one after another, each with its hook. -/
theorem tick_is_run (react : Handle → Script) (now : Time) (slots : List Handle) (d : Data) :
    Reaches ⟨d, .inTick slots now⟩ ⟨slots.foldl (tickSlot now fun h => (react h).run now) d, .idle⟩ := by
  induction slots generalizing d with
  | nil => exact .one _ .goOn
  | cons i rest ih =>
    have hslot : Reaches ⟨d, .inTick (i :: rest) now⟩ ⟨tickSlot now (fun _ => id) d i, .inTick rest now⟩ := .one _ .goOn
    have hhook := CallsTo.ofHookLast (tickSlot_hookLast d i now) (fun h => (react h).run now)
      fun h => CallsTo.script (react h) now
    exact (hslot.trans (reaches_of_calls hhook _)).trans (ih _)

/-- A turn, with what the application makes of the hooks, is a run of steps. -/
theorem turn_is_run (d : Data) (e : Input) : Reaches ⟨d, .idle⟩ ⟨d.step e, .idle⟩ := by
  cases e with
  | app script now => exact reaches_of_calls (CallsTo.script script now d) _
  | tick react now => exact (Reaches.one _ (.tick now)).trans (tick_is_run react now _ d)
  | rx f react now =>
    have hreact (k : Fin 2) (d : Data) : CallsTo d ((react k).run now d) := CallsTo.script (react k) now d
    cases hhand : d.handing f with
    | none =>
      have hrx : step ⟨d, .idle⟩ (.rx f now) = ⟨dataRx d f now fun _ => id, .idle⟩ := by
        simp only [step, hhand]
      refine .trans (hrx ▸ Reaches.one _ (.rx f now)) (reaches_of_calls ?_ _)
      exact CallsTo.ofHookLast (dataRx_hookLast hhand now) (fun k => (react k).run now) hreact
    | some i =>
      have hrx : step ⟨d, .idle⟩ (.rx f now) =
          ⟨d.handed i (f.payload.drop 2) now, .inChunk i ((d.handed i (f.payload.drop 2) now).s i) now⟩ := by
        simp only [step, hhand]
      refine .trans (hrx ▸ Reaches.one _ (.rx f now)) ?_
      refine .trans (reaches_of_calls (hreact ⟨0, Nat.two_pos⟩ _) _) ?_
      refine .trans (.one _ .goOn) (reaches_of_calls ?_ _)
      have hrest := CallsTo.ofHookLast (afterChunk_hookLast ((react ⟨0, Nat.two_pos⟩).run now
        (d.handed i (f.payload.drop 2) now)) i now) (fun k => (react k).run now) hreact
      rw [Data.step, dataRx_handed hhand]
      exact hrest

/-! ## A step is a chain of moves -/

/-- The endpoint, and the stream whose chunk hook runs. -/
def mid (m : Endpoint) : Mid :=
  ⟨m.d, match m.place with
    | .inChunk i held _ => some (i, held)
    | _ => none⟩

/-- What a stop can count on: a stream handed over is still there, or cancelled. -/
structure Sound (m : Endpoint) : Prop where
  sorted : m.d.Sorted
  held : ∀ i s now, m.place = .inChunk i s now →
    i ∈ Data.half false ∧ s.state = .receiving ∧ (m.d.s i = s ∨ m.d.s i = .zero)

/-- The application does not cancel a stream from inside its own chunk hook. -/
def Calm (m : Endpoint) : Doing → Prop
  | .call c _ => ∀ i s now, m.place = .inChunk i s now → c.isCancel i = false
  | _ => True

theorem calls_id (g : Given) (k : Option Handle) : Calls g k id := fun _ => .refl

/-- The moves of a call, wherever it is made. -/
theorem call_moves (m : Endpoint) {c : Call} {now : Time} (calm : Prop) (hcalm : calm → m.Calm (.call c now)) :
    CallMoves calm (m.mid.held.map Prod.fst) now m.d (c.perform now id m.d) := by
  refine perform_moves c (fun hc i hi => ?_) (fun _ => .refl) m.d
  obtain ⟨d, place⟩ := m
  cases place with
  | idle => cases hi
  | inTick rest now => cases hi
  | inChunk j held t => exact Option.some.inj hi ▸ hcalm hc j held t rfl

theorem handed_move {d : Data} (hsorted : d.Sorted) {f : Frame} {i : Handle} (h : d.handing f = some i) (now : Time)
    (calm : Prop) : i ∈ Data.half false ∧ ((d.handed i (f.payload.drop 2) now).s i).state = .receiving ∧
      ReflTransGen (Move ⟨d, f.src, some f.payload, calm, now⟩) ⟨d, none⟩
        ⟨d.handed i (f.payload.drop 2) now, some (i, (d.handed i (f.payload.drop 2) now).s i)⟩ := by
  obtain ⟨-, hhand, -, -, -, hs, hseq, -⟩ := handing_some h
  have hused : (d.s i).state ≠ .free := by
    rw [hs]
    decide
  have hstamp := upd_becomes d i fun s => { s with lastRx := now, retries := 0 }
  have hfold := upd_becomes (d.upd i fun s => { s with lastRx := now, retries := 0 }) i fun s =>
    { s with running := adler32Update s.running ((f.payload.drop 2).drop 2) }
  refine ⟨((hsorted i).inbound (Or.inr hs)).2, ?_, ?_⟩
  · rw [Data.handed, Data.note_s, Data.upd_self]
    exact hs
  refine .head (.stamp hused hstamp) (.single (.hand rfl hhand ⟨now, (d.s i).lastTx, 0, hstamp.self⟩ ?_ ?_ ?_))
  · rw [hstamp.self]
    exact hs
  · rw [hstamp.self]
    exact hseq
  · rw [Data.handed, hseq]
    rw [Data.upd_upd] at hfold
    refine ⟨hfold.s, ?_, ?_, hfold.nextId, hfold.sends⟩
    · rw [Data.note_out, Data.upd_out]
      exact (List.append_nil _).symm
    · rw [hstamp.self]
      rfl

theorem step_moves {m : Endpoint} (h : m.Sound) (e : Doing) (calm : Prop) (hcalm : calm → m.Calm e) :
    ∃ g : Given, g.calm = calm ∧ g.start = m.d ∧ ReflTransGen (Move g) m.mid (m.step e).mid := by
  obtain ⟨d, place⟩ := m
  cases e with
  | call c now => exact ⟨⟨d, 0, none, calm, now⟩, rfl, rfl, calls_moves (call_moves ⟨d, place⟩ calm hcalm)⟩
  | tick now => cases place <;> exact ⟨⟨d, 0, none, calm, now⟩, rfl, rfl, .refl⟩
  | rx f now =>
    refine ⟨⟨d, f.src, some f.payload, calm, now⟩, rfl, rfl, ?_⟩
    cases place with
    | inChunk => exact .refl
    | inTick => exact .refl
    | idle =>
      cases hhand : d.handing f with
      | some i =>
        simp only [step, hhand]
        exact (handed_move h.sorted hhand now calm).2.2
      | none =>
        simp only [step, hhand]
        exact dataRx_moves (g := ⟨d, f.src, some f.payload, calm, now⟩) h.sorted rfl rfl (fun _ => calls_id _ _)
          fun _ _ => calls_id _ _
  | goOn =>
    cases place with
    | idle => exact ⟨⟨d, 0, none, calm, 0⟩, rfl, rfl, .refl⟩
    | inChunk i held now =>
      obtain ⟨-, hs, hheld⟩ := h.held i held now rfl
      exact ⟨⟨d, 0, none, calm, now⟩, rfl, rfl, afterChunk_moves (g := ⟨d, 0, none, calm, now⟩) hheld hs (calls_id _ _)⟩
    | inTick slots now =>
      refine ⟨⟨d, 0, none, calm, now⟩, rfl, rfl, ?_⟩
      cases slots with
      | nil => exact .refl
      | cons i rest => exact tickSlot_moves (g := ⟨d, 0, none, calm, now⟩) fun _ => calls_id _ _

theorem step_sound {m : Endpoint} (h : m.Sound) (e : Doing) : (m.step e).Sound := by
  obtain ⟨g, -, -, hmoves⟩ := step_moves h e False False.elim
  refine ⟨moves_keep (P := fun m => m.d.Sorted) hmoves (fun _ _ hm => hm.sorted) h.sorted, fun i s now hp => ?_⟩
  obtain ⟨d, place⟩ := m
  cases e with
  | call c t =>
    obtain ⟨hi, hs, hheld⟩ := h.held i s now hp
    exact ⟨hi, hs, held_stays (call_moves ⟨d, place⟩ False False.elim) hi hs hheld⟩
  | tick t =>
    cases place with
    | idle => cases hp
    | inChunk => exact h.held i s now hp
    | inTick => exact h.held i s now hp
  | rx f t =>
    cases place with
    | inChunk => exact h.held i s now hp
    | inTick => exact h.held i s now hp
    | idle =>
      cases hhand : d.handing f with
      | none =>
        simp only [step, hhand] at hp
        cases hp
      | some j =>
        simp only [step, hhand] at hp ⊢
        cases hp
        obtain ⟨hi, hs, -⟩ := handed_move h.sorted hhand now False
        exact ⟨hi, hs, Or.inl rfl⟩
  | goOn =>
    cases place with
    | idle => cases hp
    | inChunk => cases hp
    | inTick slots t => cases slots <;> cases hp

/-- A fresh endpoint, however it is configured. -/
def Fresh (m : Endpoint) : Prop := Transfer.Idle m.d ∧ m.place = .idle

theorem Fresh.sound {m : Endpoint} (h : m.Fresh) : m.Sound := by
  obtain ⟨⟨hs, -⟩, hp⟩ := h
  refine ⟨fun i => ?_, fun i s now hi => ?_⟩
  · rw [hs]
    exact sided_zero i
  · rw [hp] at hi
    cases hi

end Endpoint

end DeskHop.Bulk
