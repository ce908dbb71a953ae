/-
  DeskHop.Chain.Network — a chain of boards: a router each, and the wires between them.

  A step of the chain is the tick of a board, a report of a keyboard captured at one, or
  the arrival of the frame at the front of a wire, which is taken off the wire, passed on
  and then handed to the router if it is for the board. What a router asks of its link is
  sent at once and in order (`sendAll`).

  Proved, of what a reader picks from the frames on their way to a board: what a board
  sends is put behind all that it has sent before (`coming_sendAll_self`), what the others
  send changes nothing of that (`coming_sendAll_ne`), and a frame that the replay window
  lets through is the next its board comes to and is on its way to the boards beyond as it
  was (`coming_arrive_fresh`). So what is on its way from one board to another is a queue
  (`stream_sendAll_self`, `stream_arrive_here`).
-/

import DeskHop.Routing.Effect
import DeskHop.Wire.Row

namespace DeskHop.Chain

open DeskHop.Lib DeskHop.Wire DeskHop.Routing
open DeskHop.Election (capHidOut capHidIn capDisplay capConfig capCoord timingDefault)

variable {n : Nat}

/-- A board sends what its router asks for, in order. -/
def sendAll (r : Row n) (i : Fin n) (cs : List Content) : Row n :=
  cs.foldl (fun r c => r.send i c.type c.dst c.payload) r

structure Network (n : Nat) where
  router : Fin n → Router
  row : Row n

namespace Network

inductive Event (n : Nat) where
  | tick (i : Fin n) (now : Time)
  /-- A report of the keyboard at `i`. -/
  | capture (i : Fin n) (rep : KbdReport)
  /-- What left by the port `p` reaches `i`. -/
  | arrive (p : Port) (i : Fin n) (now : Time)

/-- Which router is called, and how. -/
def call? (s : Network n) : Event n → Option (Fin n × Routing.Op)
  | .tick i now => some (i, .tick now)
  | .capture i rep => some (i, .localKbd rep)
  | .arrive p i now =>
    (s.row.front p i).bind fun f =>
      if (hear (s.row.station i) f).mine then some (i, .rx f p.other now) else none

/-- The wires, once the link has taken in what arrives. -/
def taken (s : Network n) : Event n → Row n
  | .arrive p i _ => (s.row.front p i).elim s.row fun f => s.row.arrive p i f
  | _ => s.row

/-- Board `i` is called, and sends what its router asks for. -/
def act (s : Network n) (i : Fin n) (op : Routing.Op) : Network n :=
  { router := Function.update s.router i (Routing.step (s.router i) op)
    row := sendAll s.row i (sends (Routing.step (s.router i) op).out) }

def step (s : Network n) (e : Event n) : Network n :=
  (s.call? e).elim { s with row := s.taken e } fun c => { s with row := s.taken e : Network n }.act c.1 c.2

/-- The replay window lets through what arrives. -/
def Heard (s : Network n) : Event n → Prop
  | .arrive p i _ => (s.row.front p i).all (fresh (s.row.station i)) = true
  | _ => True

instance (s : Network n) : ∀ e, Decidable (s.Heard e)
  | .tick .. => isTrue trivial
  | .capture .. => isTrue trivial
  | .arrive .. => inferInstanceAs (Decidable (_ = true))

/-- Nothing is on its way. -/
def Drained (s : Network n) : Prop := ∀ p i, s.row.front p i = none

theorem act_router_self (s : Network n) (i : Fin n) (op : Routing.Op) :
    (s.act i op).router i = Routing.step (s.router i) op := Function.update_self ..

theorem act_router_ne (s : Network n) {i k : Fin n} (h : k ≠ i) (op : Routing.Op) : (s.act i op).router k = s.router k :=
  Function.update_of_ne h ..

end Network

/-! ## What the frames say -/

/-- What the frame says, whoever sent it. -/
def contentOf (f : Frame) : Content := ⟨f.type, f.dst, f.payload⟩

/-- From the frames of `a`, by what they say. -/
def picked {β : Type} (a : Addr) (pick : Content → Option β) (f : Frame) : Option β :=
  if f.src = a then pick (contentOf f) else none

theorem picked_from {β : Type} (a : Addr) (pick : Content → Option β) : Row.From a (picked a pick) := fun _ h => if_neg h

/-- The reader does not look at the hops a frame has left. -/
def Hopless {β : Type} (sel : Frame → Option β) : Prop := ∀ f t, sel { f with ttl := t } = sel f

theorem picked_hopless {β : Type} (a : Addr) (pick : Content → Option β) : Hopless (picked a pick) := fun _ _ => rfl

/-- Whatever is on its way satisfies `P`, by its source and what it says. -/
def Carries (P : Addr → Content → Prop) (r : Row n) : Prop := ∀ p q, ∀ f ∈ r.lane p q, P f.src (contentOf f)

/-! ## What is sent -/

theorem send_lane (r : Row n) (i : Fin n) (c : Content) (p : Port) : (r.send i c.type c.dst c.payload).lane p =
    put (r.lane p) (place p i) (if fits c.type c.payload then [(r.station i).own c.type c.dst c.payload] else []) := by
  simp only [Row.send]
  split
  · rfl
  · rw [put_nil]

variable {addr : Fin n → Addr} {r : Row n}

theorem physical_sendAll (h : r.Physical addr) (i : Fin n) (cs : List Content) : (sendAll r i cs).Physical addr := by
  induction cs generalizing r with
  | nil => exact h
  | cons c cs ih => exact ih (h.send i c.type c.dst c.payload)

theorem mem_sendAll (h : r.Physical addr) {i : Fin n} {cs : List Content} {p : Port} {q : Nat} {f : Frame}
    (hf : f ∈ (sendAll r i cs).lane p q) : f ∈ r.lane p q ∨ (f.src = addr i ∧ contentOf f ∈ cs) := by
  induction cs generalizing r with
  | nil => exact Or.inl hf
  | cons c cs ih =>
    rcases ih (h.send i c.type c.dst c.payload) hf with hf | ⟨hs, hc⟩
    · rw [send_lane] at hf
      rcases mem_put hf with hf | ⟨-, hf⟩
      · exact Or.inl hf
      · split at hf
        · obtain rfl := List.mem_singleton.mp hf
          exact Or.inr ⟨h.self i, List.mem_cons_self⟩
        · cases hf
    · exact Or.inr ⟨hs, List.mem_cons_of_mem _ hc⟩

theorem Carries.sendAll {P : Addr → Content → Prop} (hc : Carries P r) (h : r.Physical addr) {i : Fin n} {cs : List Content}
    (hcs : ∀ c ∈ cs, P (addr i) c) : Carries P (sendAll r i cs) := by
  intro p q f hf
  rcases mem_sendAll h hf with hf | ⟨hs, hm⟩
  · exact hc p q f hf
  · rw [hs]
    exact hcs _ hm

/-- What is put on a wire comes between what has left the board and what has yet to reach it. -/
theorem coming_send {β : Type} (r : Row n) (i x : Fin n) (c : Content) (p : Port) (sel : Frame → Option β) :
    ∃ u v w, r.coming p x sel = u ++ v ∧ (r.send i c.type c.dst c.payload).coming p x sel = u ++ w ++ v ∧
      (∀ b ∈ w, ∃ f, contentOf f = c ∧ sel f = some b) ∧
      (place p i < place p x → fits c.type c.payload = true →
        ∃ f, contentOf f = c ∧ f.src = (r.station i).self ∧ (sel f).toList = w) := by
  unfold Row.coming
  rw [send_lane]
  let own := (r.station i).own c.type c.dst c.payload
  rcases Nat.lt_or_ge (place p i) (place p x) with hlt | hge
  · obtain ⟨u, h1, h2⟩ := heading_put (r.lane p) (if fits c.type c.payload then [own] else []) hlt
    refine ⟨u.filterMap sel, (heading (r.lane p) (place p i)).filterMap sel,
      (if fits c.type c.payload then [own] else []).filterMap sel, ?_, ?_, ?_, ?_⟩
    · rw [h1, List.filterMap_append]
    · rw [h2, List.filterMap_append, List.filterMap_append, List.append_assoc]
    · intro b hb
      obtain ⟨f, hf, hs⟩ := List.mem_filterMap.mp hb
      split at hf
      · obtain rfl := List.mem_singleton.mp hf
        exact ⟨own, rfl, hs⟩
      · cases hf
    · intro _ hfit
      refine ⟨own, rfl, rfl, ?_⟩
      rw [if_pos hfit, List.filterMap_cons]
      cases sel own <;> rfl
  · refine ⟨(heading (r.lane p) (place p x)).filterMap sel, [], [], (List.append_nil _).symm, ?_, ?_, ?_⟩
    · rw [heading_put_le _ _ hge, List.append_nil, List.append_nil]
    · intro b hb
      cases hb
    · intro hlt
      omega

theorem coming_sendAll_self (h : r.Physical addr) (hinj : Function.Injective addr) {β : Type} {s x : Fin n}
    {pick : Content → Option β} {p : Port} (hx : place p s < place p x) (cs : List Content)
    (hfit : ∀ c ∈ cs, (pick c).isSome = true → fits c.type c.payload = true) :
    (sendAll r s cs).coming p x (picked (addr s) pick) = r.coming p x (picked (addr s) pick) ++ cs.filterMap pick := by
  induction cs generalizing r with
  | nil => exact (List.append_nil _).symm
  | cons c cs ih =>
    have hown : picked (addr s) pick ((r.station s).own c.type c.dst c.payload) = pick c := if_pos (h.self s)
    rw [show sendAll r s (c :: cs) = sendAll (r.send s c.type c.dst c.payload) s cs from rfl,
      ih (h.send s c.type c.dst c.payload) fun c hc => hfit c (List.mem_cons_of_mem _ hc),
      Row.coming_send_self h hinj (picked_from _ pick) hx, List.append_assoc]
    refine congrArg _ ?_
    cases hp : pick c with
    | none =>
      rw [List.filterMap_cons_none hp]
      split
      · rw [List.filterMap_cons_none (hown.trans hp), List.filterMap_nil, List.nil_append]
      · rfl
    | some b =>
      rw [if_pos (hfit c List.mem_cons_self (by rw [hp]; rfl)), List.filterMap_cons_some hp,
        List.filterMap_cons_some (hown.trans hp), List.filterMap_nil, List.singleton_append]

theorem coming_sendAll_ne (h : r.Physical addr) (hinj : Function.Injective addr) {β : Type} {s i : Fin n} (hi : i ≠ s)
    {sel : Frame → Option β} (hsel : Row.From (addr s) sel) (p : Port) (x : Fin n) (cs : List Content) :
    (sendAll r i cs).coming p x sel = r.coming p x sel := by
  induction cs generalizing r with
  | nil => rfl
  | cons c cs ih =>
    exact (ih (h.send i c.type c.dst c.payload)).trans (Row.coming_send_ne h hinj hi hsel p x c.type c.dst c.payload)

/-! ## What arrives -/

section

variable (h : r.Physical addr) (hinj : Function.Injective addr) (hn : n ≤ 20) {p : Port} {i : Fin n} {f : Frame}
  (hf : r.front p i = some f)

include h hinj hn hf

/-- What the link hands over is for the board or for all. -/
theorem mine_iff (hfresh : fresh (r.station i) f = true) :
    (hear (r.station i) f).mine = true ↔ f.letter.isFor (addr i) = true := by
  rw [(hear_fresh (h.front hinj hn hf).1 hfresh).1, h.self]
  simp [Letter.isFor, Frame.letter]

theorem coming_arrive_fresh (hfresh : fresh (r.station i) f = true) {β : Type} {sel : Frame → Option β}
    (hsel : Hopless sel) {x : Fin n} (hx : x ≠ i) (hfor : f.dst = addr i → sel f = none) (p' : Port) :
    (r.arrive p i f).coming p' x sel = r.coming p' x sel := by
  by_cases hp : p' = p
  · subst hp
    refine Row.coming_arrive_ne hf hx ?_
    obtain ⟨hsrc, hhop⟩ := h.front hinj hn hf
    rw [(hear_fresh hsrc hfresh).2, (oneHopLess_some hhop).1, h.self]
    by_cases hd : f.dst = addr i
    · rw [if_neg (not_not.mpr hd), List.filterMap_cons_none (hfor hd)]
      rfl
    · rw [if_pos hd, Option.toList_some, List.filterMap_cons, List.filterMap_cons, hsel]
  · exact Row.coming_arrive_other sel hp i x f

/-- A frame the reader does not look at. -/
theorem coming_arrive_skip (hfresh : fresh (r.station i) f = true) {β : Type} {sel : Frame → Option β}
    (hsel : Hopless sel) (hnone : sel f = none) (p' : Port) (x : Fin n) :
    (r.arrive p i f).coming p' x sel = r.coming p' x sel := by
  by_cases hx : x = i
  · subst hx
    by_cases hp : p' = p
    · subst hp
      rw [Row.coming_arrive_here sel hf, hnone]
      rfl
    · exact Row.coming_arrive_other sel hp x x f
  · exact coming_arrive_fresh h hinj hn hf hfresh hsel hx (fun _ => hnone) p'

end

theorem Carries.arrive {P : Addr → Content → Prop} (hc : Carries P r) {p : Port} {i : Fin n} {f : Frame}
    (hf : r.front p i = some f) : Carries P (r.arrive p i f) := by
  obtain ⟨q, rest, hq, hlane, hnew⟩ := Row.front_some hf
  intro p' q' g hg
  rw [hnew] at hg
  by_cases hp : p' = p
  · subst hp
    rw [Function.update_self] at hg
    rcases mem_pass hlane hg with hg | ⟨-, ho⟩
    · exact hc p' q' g hg
    · obtain ⟨-, -, rfl⟩ := Row.hear_onward ho
      exact hc p' q f (by rw [hlane]; exact List.mem_cons_self)
  · rw [Function.update_of_ne hp] at hg
    exact hc p' q' g hg

theorem front_carried {P : Addr → Content → Prop} (hc : Carries P r) {p : Port} {i : Fin n} {f : Frame}
    (hf : r.front p i = some f) : P f.src (contentOf f) := by
  obtain ⟨q, rest, -, hlane, -⟩ := Row.front_some hf
  exact hc p q f (by rw [hlane]; exact List.mem_cons_self)

/-- On drained wires nothing is on its way. -/
theorem coming_drained {s : Network n} (hd : s.Drained) {β : Type} (p : Port) (x : Fin n) (sel : Frame → Option β) :
    s.row.coming p x sel = [] := by
  refine List.filterMap_eq_nil_iff.mpr fun f hf => ?_
  obtain ⟨q, hq, hf⟩ := mem_heading.mp hf
  obtain ⟨k, hk⟩ := exists_place hq
  have hfront := hd p k
  unfold Row.front at hfront
  rw [hk] at hfront
  rw [List.head?_eq_none_iff.mp hfront] at hf
  cases hf

/-! ## From one board to another -/

/-- What `s` has sent and is on its way to `x`, by whichever lane. -/
def stream {β : Type} (addr : Fin n → Addr) (r : Row n) (s x : Fin n) (pick : Content → Option β) : List β :=
  r.coming .up x (picked (addr s) pick) ++ r.coming .down x (picked (addr s) pick)

section

variable {β : Type} {pick : Content → Option β}

/-- On the lane that leads from `x` to `s` nothing of `s` comes to `x`. -/
theorem coming_behind (h : r.Physical addr) (hinj : Function.Injective addr) {p : Port} {s x : Fin n}
    (hx : ¬ place p s < place p x) : r.coming p x (picked (addr s) pick) = [] := by
  refine List.filterMap_eq_nil_iff.mpr fun f hf => picked_from _ pick f fun hs => ?_
  obtain ⟨q, hq, hf⟩ := mem_heading.mp hf
  obtain ⟨s', hs'⟩ := h.travelled p q f hf
  obtain rfl : s' = s := hinj (hs'.src.symm.trans hs)
  have haway := hs'.away
  omega

theorem stream_self (h : r.Physical addr) (hinj : Function.Injective addr) (x : Fin n) : stream addr r x x pick = [] := by
  rw [stream, coming_behind h hinj (Nat.lt_irrefl _), coming_behind h hinj (Nat.lt_irrefl _)]
  rfl

theorem stream_eq (h : r.Physical addr) (hinj : Function.Injective addr) {p : Port} {s x : Fin n}
    (hx : place p s < place p x) : stream addr r s x pick = r.coming p x (picked (addr s) pick) := by
  have hother : ¬ place p.other s < place p.other x := by
    rw [place_other]
    omega
  have hnil : r.coming p.other x (picked (addr s) pick) = [] := coming_behind h hinj hother
  cases p with
  | up =>
    rw [stream, show r.coming .down x (picked (addr s) pick) = [] from hnil, List.append_nil]
  | down =>
    rw [stream, show r.coming .up x (picked (addr s) pick) = [] from hnil, List.nil_append]

theorem stream_sendAll_self (h : r.Physical addr) (hinj : Function.Injective addr) {s x : Fin n} (hx : s ≠ x)
    (cs : List Content) (hfit : ∀ c ∈ cs, (pick c).isSome = true → fits c.type c.payload = true) :
    stream addr (sendAll r s cs) s x pick = stream addr r s x pick ++ cs.filterMap pick := by
  obtain ⟨p, hp⟩ := place_total hx
  rw [stream_eq h hinj hp, stream_eq (physical_sendAll h s cs) hinj hp]
  exact coming_sendAll_self h hinj hp cs hfit

theorem stream_sendAll_ne (h : r.Physical addr) (hinj : Function.Injective addr) {s i : Fin n} (hi : i ≠ s) (x : Fin n)
    (cs : List Content) : stream addr (sendAll r i cs) s x pick = stream addr r s x pick := by
  unfold stream
  rw [coming_sendAll_ne h hinj hi (picked_from _ pick), coming_sendAll_ne h hinj hi (picked_from _ pick)]

/-- What is sent and not read changes nothing for the reader. -/
theorem stream_sendAll_skip (h : r.Physical addr) (hinj : Function.Injective addr) (s x i : Fin n) {cs : List Content}
    (hcs : ∀ c ∈ cs, pick c = none) : stream addr (sendAll r i cs) s x pick = stream addr r s x pick := by
  by_cases hi : i = s
  · subst hi
    by_cases hx : i = x
    · subst hx
      rw [stream_self h hinj, stream_self (physical_sendAll h i cs) hinj]
    · have hfit : ∀ c ∈ cs, (pick c).isSome = true → fits c.type c.payload = true := by
        intro c hc hs
        rw [hcs c hc] at hs
        cases hs
      rw [stream_sendAll_self h hinj hx cs hfit, List.filterMap_eq_nil_iff.mpr hcs, List.append_nil]
  · exact stream_sendAll_ne h hinj hi x cs

variable (h : r.Physical addr) (hinj : Function.Injective addr) (hn : n ≤ 20) {p : Port} {i : Fin n} {f : Frame}
  (hf : r.front p i = some f)

include h hinj hf in
/-- What arrives at `x` from `s` was the first. -/
theorem stream_arrive_here {s : Fin n} (hs : f.src = addr s) :
    stream addr r s i pick = (pick (contentOf f)).toList ++ stream addr (r.arrive p i f) s i pick := by
  have hp := h.ahead hinj hf hs
  have hpick : picked (addr s) pick f = pick (contentOf f) := if_pos hs
  rw [stream_eq h hinj hp, stream_eq (h.arrive hf) hinj hp, Row.coming_arrive_here _ hf, hpick]

include h hinj hn hf in
theorem stream_arrive_ne (hfresh : fresh (r.station i) f = true) (s : Fin n) {x : Fin n} (hx : x ≠ i)
    (hfor : f.dst = addr i → pick (contentOf f) = none) :
    stream addr (r.arrive p i f) s x pick = stream addr r s x pick := by
  have hsel : f.dst = addr i → picked (addr s) pick f = none := fun hd => by
    rw [picked, hfor hd]
    exact ite_self _
  unfold stream
  rw [coming_arrive_fresh h hinj hn hf hfresh (picked_hopless _ _) hx hsel,
    coming_arrive_fresh h hinj hn hf hfresh (picked_hopless _ _) hx hsel]

include h hinj hn hf in
theorem stream_arrive_skip (hfresh : fresh (r.station i) f = true) {s : Fin n} (x : Fin n)
    (hnone : picked (addr s) pick f = none) : stream addr (r.arrive p i f) s x pick = stream addr r s x pick := by
  unfold stream
  rw [coming_arrive_skip h hinj hn hf hfresh (picked_hopless _ _) hnone,
    coming_arrive_skip h hinj hn hf hfresh (picked_hopless _ _) hnone]

/-- What is for `x` only, an arrival elsewhere leaves alone. -/
def For (x : Addr) (pick : Content → Option β) : Prop := ∀ c, c.dst ≠ x → pick c = none

include h hinj hn hf in
theorem stream_arrive (hfresh : fresh (r.station i) f = true) {s x : Fin n} (hpick : For (addr x) pick)
    (hskip : x = i → picked (addr s) pick f = none) : stream addr (r.arrive p i f) s x pick = stream addr r s x pick := by
  by_cases hx : x = i
  · exact stream_arrive_skip h hinj hn hf hfresh x (hskip hx)
  · refine stream_arrive_ne h hinj hn hf hfresh s hx fun hd => hpick _ fun he => hx (hinj ?_)
    exact he.symm.trans hd

include h hinj hn hf in
/-- An arrival puts nothing on its way. -/
theorem stream_arrive_nil (hfresh : fresh (r.station i) f = true) {s x : Fin n} (hpick : For (addr x) pick)
    (hnil : stream addr r s x pick = []) : stream addr (r.arrive p i f) s x pick = [] := by
  by_cases hskip : x = i → picked (addr s) pick f = none
  · rw [stream_arrive h hinj hn hf hfresh hpick hskip]
    exact hnil
  · rw [Classical.not_imp] at hskip
    obtain ⟨rfl, hsome⟩ := hskip
    have hs : f.src = addr s := by
      by_contra hne
      exact hsome (if_neg hne)
    rw [stream_arrive_here h hinj hf hs, List.append_eq_nil_iff] at hnil
    exact hnil.2

end

/-! ## Boards -/

def boardAddr (i : Fin n) : Addr := UInt16.ofNat (i.val + 1)

def boardCfg (self : Addr) (caps : UInt16) (preempt : Bool) : RouterCfg :=
  ⟨self, 0x1000 + self.toUInt64, caps, preempt, timingDefault, pointerCfgDefault⟩

/-- Board 1 has a keyboard, has come up alone and has taken the role. -/
def incumbent : Router :=
  Routing.step (routerStart (routerInit (boardCfg 1 (capHidOut ||| capHidIn) false)) 0) (.tick 150)

/-- Board 2 has no keyboard, and has just come up. -/
def bystander : Router := routerStart (routerInit (boardCfg 2 capHidOut false)) 170

/-- A coordinator that has just booted. -/
def coordinator (self : Addr) : Router :=
  routerStart (routerInit (boardCfg self (capCoord ||| capDisplay ||| capConfig) true)) 200

/-- Two frames of each board have gone before, and nothing is on its way. -/
def idleRow : Row n := ⟨fun i => ⟨boardAddr i, 2, Slots.replicate maxBoards ⟨false, false, 0, 0⟩⟩, fun _ _ => []⟩

theorem physical_idle : (idleRow : Row n).Physical boardAddr := by
  refine ⟨fun _ => rfl, fun p q f hf => ?_⟩
  cases hf

theorem carries_idle (P : Addr → Content → Prop) : Carries P (idleRow : Row n) := by
  intro p q f hf
  cases hf

theorem coming_idle {β : Type} (p : Port) (x : Fin n) (sel : Frame → Option β) : (idleRow : Row n).coming p x sel = [] := by
  refine List.filterMap_eq_nil_iff.mpr fun f hf => ?_
  obtain ⟨q, -, hf⟩ := mem_heading.mp hf
  cases hf

end DeskHop.Chain
