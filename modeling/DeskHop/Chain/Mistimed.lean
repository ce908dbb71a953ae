/-
  DeskHop.Chain.Mistimed — the coordinator's configured election timing beside the default
  one of a board (`coordinator/src/config.c`, `coordinator/src/main.c`, `core/src/uhrp.c`).

  Two parties, each ticked in every millisecond, each hearing what the other says in the
  millisecond it is said (`Fair`); boards elsewhere on the chain say what they like, and
  the configuration may be set while they run. `hello_ms` and `hold_ms` are set apart, each
  within its own range, and neither range knows the board's 50 and 150 ms.

  Proved: in every run in which the coordinator's HELLO interval stays below the board's hold
  time and its hold time above the board's HELLO interval (`Suits`), neither party drops the
  other once it has heard it (`suited_never_dropped`). A hold time of 30 ms is accepted and
  drops a board that is there (`short_hold_drops`).
-/

import DeskHop.Chain.Config
import DeskHop.Election.Pace
import DeskHop.Election.Promotion

namespace DeskHop.Chain

open DeskHop.Election DeskHop.Lib

/-! ## Timing that suits -/

/-- Each party's HELLO interval is below the other's hold time. -/
def Suits (c : CoordConfig) : Prop :=
  c.timing.helloMs < timingDefault.holdMs ∧ timingDefault.helloMs < c.timing.holdMs

instance (c : CoordConfig) : Decidable (Suits c) := inferInstanceAs (Decidable (_ ∧ _))

/-- The HELLO interval of what comes of a setting is the old one, or 10 ms and more. -/
def Spares (c : CoordConfig) (x : Except String CoordConfig) : Prop :=
  ∀ c', x = .ok c' → c'.timing.helloMs = c.timing.helloMs ∨ 10 ≤ c'.timing.helloMs.toNat

theorem coordConfigSet_spares (c : CoordConfig) (key value : String) : Spares c (coordConfigSet c key value) := by
  show Yields (fun c' => c'.timing.helloMs = c.timing.helloMs ∨ 10 ≤ c'.timing.helloMs.toNat) (coordConfigSet c key value)
  have hello : ∀ v, u32Key key 10 1000 value = .ok v → 10 ≤ (UInt16.ofInt v).toNat := by
    intro v hv
    obtain ⟨hlo, hhi⟩ := u32Key_range hv
    have hn : (UInt16.ofInt v).toNat = v.toNat := by
      simp only [UInt16.ofInt, UInt16.toNat_ofNat']
      omega
    omega
  unfold coordConfigSet
  repeat' apply yields_ite
  all_goals first
    | exact yields_ok (Or.inl rfl)
    | exact yields_map fun _ _ => Or.inl rfl
    | exact yields_map fun v hv => Or.inr (hello v hv)
    | exact yields_error

theorem Configurable.helloMs {c : CoordConfig} (h : Configurable c) : 10 ≤ c.timing.helloMs.toNat := by
  induction h with
  | defaults => decide
  | set _ hs ih =>
    rcases coordConfigSet_spares _ _ _ _ hs with he | hge
    · rw [he]
      exact ih
    · exact hge

/-! ## The two parties -/

inductive Side where
  | coordinator
  | board
  deriving DecidableEq

def Side.other : Side → Side
  | .coordinator => .board
  | .board => .coordinator

@[simp] theorem Side.other_other (i : Side) : i.other.other = i := by cases i <;> rfl

theorem Side.other_ne (i : Side) : i.other ≠ i := by cases i <;> decide

theorem Side.eq_or (i k : Side) : k = i ∨ k = i.other := by cases i <;> cases k <;> decide

/-- What a party says to the chain. -/
inductive Notice where
  | hello (h : Hello)
  | resign
  deriving DecidableEq

def Notice.call (m : Notice) (src : Addr) (now : Nat) : Call :=
  match m with
  | .hello h => .hello src h now
  | .resign => .resign src now

/-- Nothing of it is a HELLO. -/
def NoHello (mail : List Notice) : Prop := ∀ h, Notice.hello h ∉ mail

structure Duo where
  cfg : CoordConfig
  now : Nat
  uhrp : Side → Uhrp
  /-- Said by the other and not yet heard. -/
  mail : Side → List Notice
  /-- Ticked in this millisecond. -/
  ticked : Side → Bool

inductive Beat where
  | start (i : Side)
  | tick (i : Side)
  | keys (i : Side) (held : Bool)
  | deliver (i : Side)
  /-- A board elsewhere on the chain is heard. -/
  | elsewhere (i : Side) (src : Addr) (m : Notice)
  | set (key value : String)
  /-- The next millisecond. -/
  | pass

/-- What a call made the party say. -/
def said (u : Uhrp) : List Notice :=
  (if u.ev.sendResign then [.resign] else []) ++ if u.ev.sendHello then [.hello (buildHello u)] else []

namespace Duo

def addr (s : Duo) (i : Side) : Addr := (s.uhrp i).cfg.addr

/-- A call on a party, with `rest` still to be heard by it. -/
def act (s : Duo) (i : Side) (rest : List Notice) (c : Call) : Duo :=
  let u := Election.step (s.uhrp i) c
  { s with
    uhrp := Function.update s.uhrp i u
    mail := Function.update (Function.update s.mail i rest) i.other (s.mail i.other ++ said u) }

/-- Timing changes take effect immediately. -/
def reconfigure (s : Duo) (cfg : CoordConfig) : Duo :=
  let u := s.uhrp .coordinator
  { s with cfg := cfg, uhrp := Function.update s.uhrp .coordinator { u with cfg := { u.cfg with timing := cfg.timing } } }

def step (s : Duo) : Beat → Duo
  | .start i => { s with uhrp := Function.update s.uhrp i (uhrpStart (s.uhrp i) (UInt32.ofNat s.now)) }
  | .tick i => { s.act i (s.mail i) (.tick s.now) with ticked := Function.update s.ticked i true }
  | .keys i held => s.act i (s.mail i) (.setKeysHeld held)
  | .deliver i =>
    match s.mail i with
    | [] => s
    | m :: rest => s.act i rest (m.call (s.addr i.other) s.now)
  | .elsewhere i src m => s.act i (s.mail i) (m.call src s.now)
  | .set key value =>
    match coordConfigSet s.cfg key value with
    | .ok cfg => s.reconfigure cfg
    | .error _ => s
  | .pass => { s with now := s.now + 1, ticked := fun _ => false }

/-- Each party is ticked in every millisecond from its start on, and hears everything the
    other says before the millisecond is over. -/
def Fair (s : Duo) : Beat → Prop
  | .start i => (s.uhrp i).started = false
  | .tick i => (s.uhrp i).started = true
  | .elsewhere i src _ => src ≠ s.addr i.other
  | .pass => ∀ i, s.mail i = [] ∧ ((s.uhrp i).started = true → s.ticked i = true)
  | _ => True

instance (s : Duo) : ∀ e, Decidable (s.Fair e)
  | .start _ => inferInstanceAs (Decidable (_ = _))
  | .tick _ => inferInstanceAs (Decidable (_ = _))
  | .elsewhere .. => inferInstanceAs (Decidable (_ ≠ _))
  | .pass =>
    let ok (i : Side) : Prop := s.mail i = [] ∧ ((s.uhrp i).started = true → s.ticked i = true)
    decidable_of_iff (ok .coordinator ∧ ok .board)
      ⟨fun h i => by cases i with | coordinator => exact h.1 | board => exact h.2, fun h => ⟨h _, h _⟩⟩
  | .keys .. | .deliver _ | .set .. => isTrue trivial

/-- Nobody else is on the chain, and nothing is set. -/
def Undisturbed (s : Duo) (e : Beat) : Prop :=
  s.Fair e ∧ match e with
    | .elsewhere .. | .set .. => False
    | _ => True

instance (s : Duo) : ∀ e, Decidable (s.Undisturbed e)
  | .elsewhere .. => isFalse fun h => h.2
  | .set .. => isFalse fun h => h.2
  | .start _ => inferInstanceAs (Decidable (_ ∧ True))
  | .tick _ => inferInstanceAs (Decidable (_ ∧ True))
  | .keys .. => inferInstanceAs (Decidable (_ ∧ True))
  | .deliver _ => inferInstanceAs (Decidable (_ ∧ True))
  | .pass => inferInstanceAs (Decidable (_ ∧ True))

/-- The coordinator with its configuration, and a board with the default timing. -/
def boot (cfg : CoordConfig) (coordinator board : Config) (now : Nat) : Duo :=
  { cfg := cfg, now := now
    uhrp := fun
      | .coordinator => uhrpInit { coordinator with timing := cfg.timing }
      | .board => uhrpInit { board with timing := timingDefault }
    mail := fun _ => [], ticked := fun _ => false }

def Booted (cfg : CoordConfig) (s : Duo) : Prop := ∃ coordinator board now, s = boot cfg coordinator board now

/-- The party has the other in its table. -/
def Hears (s : Duo) (i : Side) : Prop := (peerFind (s.uhrp i) (s.addr i.other)).isSome = true

instance (s : Duo) (i : Side) : Decidable (s.Hears i) := inferInstanceAs (Decidable (_ = true))

end Duo

/-! ## The invariant -/

/-- A party lets at most so much time go by between two HELLOs, and the other holds longer. -/
def gap : Side → Nat
  | .coordinator => timingDefault.holdMs.toNat - 1
  | .board => timingDefault.helloMs.toNat

namespace Duo

/-- What the party has of the other is recent: the other's next HELLO, due at `due`, is on
    its way or comes before the hold time is over. -/
def Current (s : Duo) (i : Side) (due : Nat) (p : Peer) : Prop :=
  ∃ n, p.lastSeen = UInt32.ofNat n ∧ n ≤ s.now ∧ s.now ≤ n + gap i.other ∧
    (NoHello (s.mail i) → due ≤ n + gap i.other)

/-- The timers of the two, whose next HELLOs are due at `due`. -/
structure Timely (s : Duo) (due : Side → Nat) : Prop where
  unique : ∀ i, (s.uhrp i).peers.Unique
  hello : ∀ i, 0 < (s.uhrp i).cfg.timing.helloMs.toNat ∧ (s.uhrp i).cfg.timing.helloMs.toNat ≤ gap i
  hold : ∀ i, gap i.other < (s.uhrp i).cfg.timing.holdMs.toNat
  next : ∀ i, (s.uhrp i).started = true → (s.uhrp i).tNextHello = UInt32.ofNat (due i) ∧ s.now ≤ due i ∧
    due i ≤ s.now + gap i
  ahead : ∀ i, s.ticked i = true → (s.uhrp i).started = true ∧ s.now < due i
  sent : ∀ i, s.mail i ≠ [] → (s.uhrp i.other).started = true
  heard : ∀ i p, (s.uhrp i).peers.find? (s.addr i.other) = some p →
    (s.uhrp i).started = true ∧ s.addr i.other ≠ s.addr i ∧ (s.uhrp i.other).started = true ∧
      s.Current i (due i.other) p

theorem gap_lt (i : Side) : gap i < 2 ^ 16 := by cases i <;> decide

/-- What a party has of the other is not expired. -/
theorem Timely.live {s : Duo} {due : Side → Nat} (h : s.Timely due) {i : Side} {n : Nat} {p : Peer}
    (hp : p.lastSeen = UInt32.ofNat n) (hn : n ≤ s.now) (hg : s.now ≤ n + gap i.other) :
    expired (s.uhrp i) (UInt32.ofNat s.now) p = false := by
  have := h.hold i
  exact not_expired hp hn (by omega)

end Duo

namespace Duo

variable {s : Duo} {due : Side → Nat} {i : Side} {r : List Notice} {c : Call}

@[simp] theorem act_now : (s.act i r c).now = s.now := rfl

theorem act_uhrp_self : (s.act i r c).uhrp i = Election.step (s.uhrp i) c := Function.update_self ..

theorem act_uhrp_other : (s.act i r c).uhrp i.other = s.uhrp i.other := Function.update_of_ne i.other_ne ..

theorem act_mail_self : (s.act i r c).mail i = r :=
  (Function.update_of_ne i.other_ne.symm ..).trans (Function.update_self ..)

theorem act_mail_other : (s.act i r c).mail i.other = s.mail i.other ++ said (Election.step (s.uhrp i) c) :=
  Function.update_self ..

@[simp] theorem act_addr (k : Side) : (s.act i r c).addr k = s.addr k := by
  rcases i.eq_or k with rfl | rfl
  · rw [addr, act_uhrp_self, step_cfg]
    rfl
  · rw [addr, act_uhrp_other]
    rfl

/-- A board that has not started says nothing. -/
theorem said_started {u : Uhrp} {c : Call} (h : said (Election.step u c) ≠ []) : u.started = true := by
  cases he : evaluated u c with
  | none =>
    obtain ⟨b, hb⟩ := step_of_not_evaluated he
    rw [hb] at h
    exact absurd rfl h
  | some r => exact (prepared_same (v := r.1) he).2

theorem said_of_sendHello {u : Uhrp} (h : u.ev.sendHello = true) (l : List Notice) : ¬ NoHello (l ++ said u) := by
  intro hq
  refine hq (buildHello u) (List.mem_append_right _ ?_)
  rw [said, h]
  exact List.mem_append_right _ List.mem_cons_self

/-- The other's entry after a call: written by the other's message, or as it was. -/
theorem Timely.entry (h : s.Timely due) (ht : ∀ v now, evaluated (s.uhrp i) c = some (v, now) → now = s.now)
    {p : Peer} (hp : (Election.step (s.uhrp i) c).peers.find? (s.addr i.other) = some p) :
    (Election.step (s.uhrp i) c).started = true ∧ s.addr i.other ≠ s.addr i ∧
      ((c.sender? = some (s.addr i.other) ∧ p.lastSeen = UInt32.ofNat s.now) ∨
        (c.sender? ≠ some (s.addr i.other) ∧ (s.uhrp i).peers.find? (s.addr i.other) = some p)) := by
  cases he : evaluated (s.uhrp i) c with
  | none =>
    obtain ⟨b, hb⟩ := step_of_not_evaluated he
    rw [hb] at hp ⊢
    have hold : (s.uhrp i).peers.find? (s.addr i.other) = some p := hp
    obtain ⟨hst, hne, -⟩ := h.heard i p hold
    exact ⟨hst, hne, Or.inr ⟨fun hs => evaluated_of_known hst hne hold hs he, hold⟩⟩
  | some r =>
    obtain ⟨v, now⟩ := r
    obtain rfl := ht v now he
    obtain ⟨hpeers, -, hst⟩ := step_peers he
    rw [hpeers] at hp
    have huv : v.peers.Unique := prepared_unique he (h.unique i)
    obtain ⟨hm, hu, hk⟩ := Slots.find?_some hp
    have hpv : v.peers.find? (s.addr i.other) = some p := by
      rw [← hk]
      exact huv.find?_of_mem (aged_mem hm hu).1 hu
    refine ⟨hst, ?_, ?_⟩
    · rcases written he hpv with ⟨-, -, hnew⟩ | ⟨-, hold⟩
      · cases hf : (s.uhrp i).peers.find? (s.addr i.other) with
        | none => exact hnew hf
        | some q => exact (h.heard i q hf).2.1
      · exact (h.heard i p hold).2.1
    · rcases written he hpv with ⟨hs, hl, -⟩ | hold
      · exact Or.inl ⟨hs, hl⟩
      · exact Or.inr hold

/-- No call takes the other out of the table. -/
theorem Timely.stays (h : s.Timely due) (ht : ∀ v now, evaluated (s.uhrp i) c = some (v, now) → now = s.now)
    (hp : ((s.uhrp i).peers.find? (s.addr i.other)).isSome = true) :
    ((Election.step (s.uhrp i) c).peers.find? (s.addr i.other)).isSome = true := by
  cases he : evaluated (s.uhrp i) c with
  | none =>
    obtain ⟨b, hb⟩ := step_of_not_evaluated he
    rw [hb]
    exact hp
  | some r =>
    obtain ⟨v, now⟩ := r
    obtain rfl := ht v now he
    obtain ⟨q, hq⟩ := Option.isSome_iff_exists.mp (prepared_find_isSome he (a := s.addr i.other) hp)
    have hx : expired v (UInt32.ofNat s.now) q = false := by
      have hcfg : v.cfg = (s.uhrp i).cfg := (evaluated_same he).1.cfg
      have hlive : expired (s.uhrp i) (UInt32.ofNat s.now) q = false := by
        rcases written he hq with ⟨-, hl, -⟩ | ⟨-, hold⟩
        · exact h.live hl (Nat.le_refl _) (Nat.le_add_right _ _)
        · obtain ⟨-, -, -, n, hl, hn, hg, -⟩ := h.heard i q hold
          exact h.live hl hn hg
      rw [expired, hcfg]
      exact hlive
    rw [(step_peers he).1, aged_find hq hx]
    rfl

/-- After a call the next HELLO is due when it was, or one is being sent and another is due
    an interval later. -/
theorem Timely.pace (h : s.Timely due) (ht : ∀ v now, evaluated (s.uhrp i) c = some (v, now) → now = s.now)
    (hst : (s.uhrp i).started = true) :
    ∃ d, (Election.step (s.uhrp i) c).tNextHello = UInt32.ofNat d ∧ s.now ≤ d ∧ d ≤ s.now + gap i ∧
      (d = due i ∨ (s.now < d ∧ (Election.step (s.uhrp i) c).ev.sendHello = true)) := by
  obtain ⟨hnext, hle, hgap⟩ := h.next i hst
  obtain ⟨hpos, hint⟩ := h.hello i
  cases he : evaluated (s.uhrp i) c with
  | none =>
    obtain ⟨b, hb⟩ := step_of_not_evaluated he
    exact ⟨due i, by rw [hb]; exact hnext, hle, hgap, Or.inl rfl⟩
  | some r =>
    obtain ⟨v, now⟩ := r
    obtain rfl := ht v now he
    rcases step_paced he with hsame | ⟨hsend, hnew⟩
    · exact ⟨due i, hsame.trans hnext, hle, hgap, Or.inl rfl⟩
    · rw [ofNat_add_toUInt32] at hnew
      exact ⟨_, hnew, by omega, by omega, Or.inr ⟨by omega, hsend⟩⟩

theorem Timely.act (h : s.Timely due) (ht : ∀ v now, evaluated (s.uhrp i) c = some (v, now) → now = s.now)
    (hrest : r ≠ [] → s.mail i ≠ []) (hfrom : c.sender? = some (s.addr i.other) → (s.uhrp i.other).started = true)
    (hkeep : c.sender? ≠ some (s.addr i.other) → r = s.mail i) :
    ∃ d, (s.act i r c).Timely (Function.update due i d) := by
  have hcfg : (Election.step (s.uhrp i) c).cfg = (s.uhrp i).cfg := step_cfg _ _
  have hstarted : (Election.step (s.uhrp i) c).started = (s.uhrp i).started := step_started _ _
  obtain ⟨d, hd⟩ : ∃ d, (s.uhrp i).started = true → (Election.step (s.uhrp i) c).tNextHello = UInt32.ofNat d ∧
      s.now ≤ d ∧ d ≤ s.now + gap i ∧
      (d = due i ∨ (s.now < d ∧ (Election.step (s.uhrp i) c).ev.sendHello = true)) := by
    by_cases hst : (s.uhrp i).started = true
    · obtain ⟨d, hd⟩ := h.pace ht hst
      exact ⟨d, fun _ => hd⟩
    · exact ⟨0, fun hc => absurd hc hst⟩
  have hdi : Function.update due i d i = d := Function.update_self ..
  have hdo : Function.update due i d i.other = due i.other := Function.update_of_ne i.other_ne ..
  refine ⟨d, ?_, ?_, ?_, ?_, ?_, ?_, ?_⟩
  · intro k
    rcases i.eq_or k with rfl | rfl
    · rw [act_uhrp_self]
      exact step_unique (h.unique _)
    · rw [act_uhrp_other]
      exact h.unique _
  · intro k
    rcases i.eq_or k with rfl | rfl
    · rw [act_uhrp_self, hcfg]
      exact h.hello _
    · rw [act_uhrp_other]
      exact h.hello _
  · intro k
    rcases i.eq_or k with rfl | rfl
    · rw [act_uhrp_self, hcfg]
      exact h.hold _
    · rw [act_uhrp_other]
      exact h.hold _
  · intro k hk
    rcases i.eq_or k with rfl | rfl
    · rw [act_uhrp_self] at hk ⊢
      rw [hdi]
      obtain ⟨h1, h2, h3, -⟩ := hd (hstarted ▸ hk)
      exact ⟨h1, h2, h3⟩
    · rw [act_uhrp_other] at hk ⊢
      rw [hdo]
      exact h.next _ hk
  · intro k hk
    rcases i.eq_or k with rfl | rfl
    · obtain ⟨h1, h2⟩ := h.ahead _ hk
      rw [act_uhrp_self, hdi]
      refine ⟨hstarted.trans h1, ?_⟩
      obtain ⟨-, -, -, rfl | ⟨hlt, -⟩⟩ := hd h1
      · exact h2
      · exact hlt
    · rw [act_uhrp_other, hdo]
      exact h.ahead _ hk
  · intro k hk
    rcases i.eq_or k with rfl | rfl
    · rw [act_mail_self] at hk
      rw [act_uhrp_other]
      exact h.sent _ (hrest hk)
    · rw [Side.other_other, act_uhrp_self, hstarted]
      by_cases hm : s.mail i.other = []
      · rw [act_mail_other, hm, List.nil_append] at hk
        exact said_started hk
      · have := h.sent _ hm
        rwa [Side.other_other] at this
  · intro k p hk
    rcases i.eq_or k with rfl | rfl
    · -- the party called: the entry is its sender's, or it was there before
      rw [act_uhrp_self, act_addr] at hk
      obtain ⟨h1, h2, h3⟩ := h.entry ht hk
      rw [act_uhrp_self, act_uhrp_other, act_addr, act_addr, hdo]
      rcases h3 with ⟨hs, hl⟩ | ⟨hs, hold⟩
      · have ho := hfrom hs
        obtain ⟨-, -, hgap⟩ := h.next _ ho
        exact ⟨h1, h2, ho, s.now, hl, Nat.le_refl _, Nat.le_add_right _ _, fun _ => hgap⟩
      · obtain ⟨-, -, ho, n, hl, hn, hg, hq⟩ := h.heard k p hold
        refine ⟨h1, h2, ho, n, hl, hn, hg, fun hm => hq ?_⟩
        rwa [act_mail_self, hkeep hs] at hm
    · -- the other party: a HELLO is on its way to it, or is due when it was
      rw [act_uhrp_other, act_addr] at hk
      obtain ⟨h1, h2, h3, n, hl, hn, hg, hq⟩ := h.heard _ p hk
      rw [Side.other_other] at h3 hg hq
      rw [act_uhrp_other, Side.other_other, act_uhrp_self, act_addr, act_addr, hdi, hstarted]
      refine ⟨h1, by simpa using h2, h3, n, hl, hn, by rw [Side.other_other]; exact hg, fun hm => ?_⟩
      rw [Side.other_other]
      rw [act_mail_other] at hm
      obtain ⟨-, -, -, rfl | ⟨-, hsend⟩⟩ := hd h3
      · exact hq fun h' hh => hm h' (List.mem_append_left _ hh)
      · exact absurd hm (said_of_sendHello hsend _)

/-! ## The run -/

theorem boot_timely {cfg : CoordConfig} (hc : Configurable cfg) (hs : Suits cfg) (coordinator board : Config) (now : Nat) :
    (boot cfg coordinator board now).Timely fun _ => 0 := by
  have hlo := hc.helloMs
  have hhi : cfg.timing.helloMs.toNat < timingDefault.holdMs.toNat := hs.1
  have hhold : timingDefault.helloMs.toNat < cfg.timing.holdMs.toNat := hs.2
  have htc : ((boot cfg coordinator board now).uhrp .coordinator).cfg.timing = cfg.timing :=
    uhrpInit_timing _ fun h0 : cfg.timing.helloMs = 0 => by rw [h0] at hlo; exact absurd hlo (by decide)
  have htb : ((boot cfg coordinator board now).uhrp .board).cfg.timing = timingDefault :=
    uhrpInit_timing _ fun h0 : timingDefault.helloMs = 0 => absurd h0 (by decide)
  have hoff : ∀ i, ((boot cfg coordinator board now).uhrp i).started = false := by
    intro i
    cases i <;> rfl
  have hempty : ∀ i, ((boot cfg coordinator board now).uhrp i).peers =
      Slots.replicate maxBoards { freshPeer 0 with used := false } := by
    intro i
    cases i <;> rfl
  refine ⟨fun i => ?_, fun i => ?_, fun i => ?_, fun i hi => ?_, fun i hi => ?_, fun i hi => ?_, fun i p hp => ?_⟩
  · rw [hempty]
    exact (Watch.start_inv default 0).unique
  · cases i with
    | coordinator =>
      rw [htc]
      have : gap .coordinator = 149 := rfl
      exact ⟨by omega, by show _ ≤ timingDefault.holdMs.toNat - 1; omega⟩
    | board =>
      rw [htb]
      decide
  · cases i with
    | coordinator =>
      rw [htc]
      exact hhold
    | board =>
      rw [htb]
      decide
  · rw [hoff] at hi
    cases hi
  · cases hi
  · exact absurd rfl hi
  · rw [hempty] at hp
    have hu := (Slots.find?_some hp).2.1
    rw [(List.mem_replicate.mp (Slots.find?_some hp).1).2] at hu
    cases hu

/-- The guard of a run: the two are served in time, and the configuration stays suited. -/
def Suited (s : Duo) (e : Beat) : Prop := s.Fair e ∧ Suits (s.step e).cfg

instance (s : Duo) (e : Beat) : Decidable (s.Suited e) := inferInstanceAs (Decidable (_ ∧ _))

theorem timed_call (m : Notice) (src : Addr) (s : Duo) (u v : Uhrp) (now : Nat)
    (he : evaluated u (m.call src s.now) = some (v, now)) : now = s.now := by
  cases m <;> exact (Option.some.inj (evaluated_time he)).symm

/-- A start changes neither the tables nor the addresses. -/
theorem start_same (s : Duo) (i k : Side) : ((s.step (.start i)).uhrp k).cfg = (s.uhrp k).cfg ∧
    ((s.step (.start i)).uhrp k).peers = (s.uhrp k).peers := by
  show (Function.update s.uhrp i _ k).cfg = _ ∧ (Function.update s.uhrp i _ k).peers = _
  rcases i.eq_or k with rfl | rfl
  · rw [Function.update_self]
    exact ⟨(uhrpStart_same _ _).1, (uhrpStart_same _ _).2.1⟩
  · rw [Function.update_of_ne i.other_ne]
    exact ⟨rfl, rfl⟩

/-- What a setting leaves as it was. -/
theorem reconfigure_same (s : Duo) (cfg : CoordConfig) (k : Side) :
    ((s.reconfigure cfg).uhrp k).peers = (s.uhrp k).peers ∧
      ((s.reconfigure cfg).uhrp k).started = (s.uhrp k).started ∧
      ((s.reconfigure cfg).uhrp k).tNextHello = (s.uhrp k).tNextHello ∧ (s.reconfigure cfg).addr k = s.addr k := by
  cases k <;> exact ⟨rfl, rfl, rfl, rfl⟩

theorem Timely.start (h : s.Timely due) (hoff : (s.uhrp i).started = false) :
    (s.step (.start i)).Timely (Function.update due i s.now) := by
  have hcfg := start_same s i
  have haddr : ∀ k, (s.step (.start i)).addr k = s.addr k := fun k => congrArg Config.addr (hcfg k).1
  have hself : (s.step (.start i)).uhrp i = uhrpStart (s.uhrp i) (UInt32.ofNat s.now) := Function.update_self ..
  have hother : (s.step (.start i)).uhrp i.other = s.uhrp i.other := Function.update_of_ne i.other_ne ..
  have hstarted : ∀ k, (s.uhrp k).started = true → ((s.step (.start i)).uhrp k).started = true := by
    intro k hk
    rcases i.eq_or k with rfl | rfl
    · rw [hself]
      exact (uhrpStart_same _ _).2.2
    · rw [hother]
      exact hk
  refine ⟨fun k => ?_, fun k => ?_, fun k => ?_, fun k hk => ?_, fun k hk => ?_, fun k hk => ?_, fun k p hp => ?_⟩
  · rw [(hcfg k).2]
    exact h.unique k
  · rw [(hcfg k).1]
    exact h.hello k
  · rw [(hcfg k).1]
    exact h.hold k
  · rcases i.eq_or k with rfl | rfl
    · rw [hself, Function.update_self]
      exact ⟨rfl, Nat.le_refl _, Nat.le_add_right _ _⟩
    · rw [hother] at hk ⊢
      rw [Function.update_of_ne i.other_ne]
      exact h.next _ hk
  · obtain ⟨hk1, hk2⟩ := h.ahead k hk
    refine ⟨hstarted k hk1, ?_⟩
    rcases i.eq_or k with rfl | rfl
    · rw [hoff] at hk1
      cases hk1
    · rw [Function.update_of_ne i.other_ne]
      exact hk2
  · exact hstarted _ (h.sent k hk)
  · -- a party that has only just started has heard nobody, and nobody has heard it
    rw [(hcfg k).2, haddr] at hp
    obtain ⟨h1, h2, h3, -⟩ := h.heard k p hp
    rcases i.eq_or k with rfl | rfl
    · rw [hoff] at h1
      cases h1
    · rw [Side.other_other, hoff] at h3
      cases h3

theorem Timely.served (h : s.Timely due) (hi : (s.uhrp i).started = true ∧ s.now < due i) :
    Timely { s with ticked := Function.update s.ticked i true } due := by
  refine ⟨h.unique, h.hello, h.hold, h.next, fun k hk => ?_, h.sent, h.heard⟩
  rcases i.eq_or k with rfl | rfl
  · exact hi
  · have hk' : Function.update s.ticked i true i.other = true := hk
    rw [Function.update_of_ne i.other_ne] at hk'
    exact h.ahead _ hk'

theorem Timely.pass (h : s.Timely due) (hf : s.Fair .pass) : (s.step .pass).Timely due := by
  have hdue : ∀ i, (s.uhrp i).started = true → s.now < due i := fun i hi => (h.ahead i ((hf i).2 hi)).2
  refine ⟨h.unique, h.hello, h.hold, fun i hi => ?_, fun i hi => ?_, h.sent, fun i p hp => ?_⟩
  · obtain ⟨h1, -, h3⟩ := h.next i hi
    have := hdue i hi
    exact ⟨h1, this, Nat.le_trans h3 (by show _ ≤ s.now + 1 + _; omega)⟩
  · cases hi
  · obtain ⟨h1, h2, h3, n, hl, hn, hg, hq⟩ := h.heard i p hp
    have hquiet : NoHello (s.mail i) := by
      rw [(hf i).1]
      exact fun _ hm => by cases hm
    have := hdue _ h3
    have := hq hquiet
    exact ⟨h1, h2, h3, n, hl, Nat.le_succ_of_le hn, by show s.now + 1 ≤ _; omega, hq⟩

theorem Timely.reconfigure (h : s.Timely due) {cfg : CoordConfig} (hc : Configurable cfg) (hs : Suits cfg) :
    (s.reconfigure cfg).Timely due := by
  have hlo := hc.helloMs
  have hhi : cfg.timing.helloMs.toNat < 150 := hs.1
  have hhold : 50 < cfg.timing.holdMs.toNat := hs.2
  let w : Uhrp := { s.uhrp .coordinator with cfg := { (s.uhrp .coordinator).cfg with timing := cfg.timing } }
  have hself : (s.reconfigure cfg).uhrp .coordinator = w := by
    show Function.update s.uhrp .coordinator w .coordinator = w
    exact Function.update_self ..
  have hother : (s.reconfigure cfg).uhrp .board = s.uhrp .board :=
    Function.update_of_ne (show Side.board ≠ .coordinator by decide) w s.uhrp
  have hsame := reconfigure_same s cfg
  refine ⟨fun k => ?_, fun k => ?_, fun k => ?_, fun k hk => ?_, fun k hk => ?_, fun k hk => ?_, fun k p hp => ?_⟩
  · rw [(hsame k).1]
    exact h.unique k
  · cases k with
    | coordinator =>
      rw [hself]
      exact ⟨Nat.lt_of_lt_of_le (by decide) hlo, Nat.le_sub_one_of_lt hhi⟩
    | board =>
      rw [hother]
      exact h.hello _
  · cases k with
    | coordinator =>
      rw [hself]
      exact hhold
    | board =>
      rw [hother]
      exact h.hold _
  · rw [(hsame k).2.1] at hk
    rw [(hsame k).2.2.1]
    exact h.next k hk
  · rw [(hsame k).2.1]
    exact h.ahead k hk
  · rw [(hsame _).2.1]
    exact h.sent k hk
  · rw [(hsame k).1, (hsame _).2.2.2] at hp
    rw [(hsame k).2.1, (hsame _).2.1, (hsame _).2.2.2, (hsame _).2.2.2]
    exact h.heard k p hp

theorem Timely.step (h : s.Timely due) (hc : Configurable s.cfg) {e : Beat} (hok : s.Suited e) :
    ∃ due', (s.step e).Timely due' := by
  cases e with
  | start i => exact ⟨_, h.start hok.1⟩
  | tick i =>
    have hst : (s.uhrp i).started = true := hok.1
    obtain ⟨d, hd⟩ := h.act (i := i) (r := s.mail i) (c := .tick s.now)
      (fun v now he => (Option.some.inj (evaluated_time he)).symm) id (fun he => by cases he) (fun _ => rfl)
    refine ⟨_, hd.served ?_⟩
    have hon : (Election.step (s.uhrp i) (.tick s.now)).started = true := (step_started _ _).trans hst
    obtain ⟨h1, h2, h3⟩ := hd.next i (by rw [act_uhrp_self]; exact hon)
    rw [act_uhrp_self] at h1
    have hg := gap_lt i
    rw [act_now] at h2 h3
    refine ⟨by rw [act_uhrp_self]; exact hon, ?_⟩
    rw [act_now]
    exact tick_ahead hst (h.hello i).1 h1 h2 (by omega)
  | keys i held =>
    obtain ⟨d, hd⟩ := h.act (i := i) (r := s.mail i) (c := .setKeysHeld held) (fun _ _ he => by cases he) id
      (fun he => by cases he) (fun _ => rfl)
    exact ⟨_, hd⟩
  | deliver i =>
    show ∃ due', Timely (match s.mail i with | [] => s | m :: rest => s.act i rest (m.call (s.addr i.other) s.now)) due'
    cases hm : s.mail i with
    | nil => exact ⟨due, h⟩
    | cons m rest =>
      have hfrom : (m.call (s.addr i.other) s.now).sender? = some (s.addr i.other) := by cases m <;> rfl
      obtain ⟨d, hd⟩ := h.act (i := i) (r := rest) (c := m.call (s.addr i.other) s.now)
        (fun v now he => timed_call m _ s _ v now he) (fun _ => by rw [hm]; exact List.cons_ne_nil _ _)
        (fun _ => h.sent i (by rw [hm]; exact List.cons_ne_nil _ _)) (fun hne => absurd hfrom hne)
      exact ⟨_, hd⟩
  | elsewhere i src m =>
    have hne : (m.call src s.now).sender? ≠ some (s.addr i.other) := by
      intro he
      have : src = s.addr i.other := by cases m <;> exact Option.some.inj he
      exact hok.1 this
    obtain ⟨d, hd⟩ := h.act (i := i) (r := s.mail i) (c := m.call src s.now)
      (fun v now he => timed_call m _ s _ v now he) id (fun he => absurd he hne) (fun _ => rfl)
    exact ⟨_, hd⟩
  | set key value =>
    have hsuit : Suits (s.step (.set key value)).cfg := hok.2
    show ∃ due', Timely (match coordConfigSet s.cfg key value with | .ok cfg => s.reconfigure cfg | .error _ => s) due'
    simp only [Duo.step] at hsuit
    cases hset : coordConfigSet s.cfg key value with
    | error _ => exact ⟨due, h⟩
    | ok cfg =>
      rw [hset] at hsuit
      exact ⟨due, h.reconfigure (hc.set hset) hsuit⟩
  | pass => exact ⟨due, h.pass hok.1⟩

/-- The configuration is one there is, and the timers go with it. -/
def Healthy (s : Duo) : Prop := Configurable s.cfg ∧ ∃ due, s.Timely due

theorem configurable_step (h : Configurable s.cfg) (e : Beat) : Configurable (s.step e).cfg := by
  cases e with
  | start i => exact h
  | tick i => exact h
  | keys i held => exact h
  | deliver i =>
    show Configurable (Duo.cfg (match s.mail i with | [] => s | m :: rest => s.act i rest (m.call (s.addr i.other) s.now)))
    split <;> exact h
  | elsewhere i src m => exact h
  | set key value =>
    show Configurable (Duo.cfg (match coordConfigSet s.cfg key value with | .ok cfg => s.reconfigure cfg | .error _ => s))
    split
    · rename_i hset
      exact h.set hset
    · exact h
  | pass => exact h

theorem Healthy.step (h : s.Healthy) {e : Beat} (hok : s.Suited e) : (s.step e).Healthy := by
  obtain ⟨hc, due, ht⟩ := h
  exact ⟨configurable_step hc e, ht.step hc hok⟩

theorem healthy {cfg : CoordConfig} (hc : Configurable cfg) (hs : Suits cfg) (h : Reach (Booted cfg) Suited Duo.step s) :
    s.Healthy := by
  refine h.inv (I := Healthy) (fun t ht => ?_) (fun t e hi hok => hi.step hok)
  obtain ⟨coordinator, board, now, rfl⟩ := ht
  exact ⟨hc, _, boot_timely hc hs coordinator board now⟩

theorem Timely.hears_act (h : s.Timely due) (ht : ∀ v now, evaluated (s.uhrp i) c = some (v, now) → now = s.now)
    {k : Side} (hh : s.Hears k) : (s.act i r c).Hears k := by
  unfold Hears
  rw [act_addr]
  rcases i.eq_or k with rfl | rfl
  · rw [act_uhrp_self]
    exact h.stays ht hh
  · rw [act_uhrp_other]
    exact hh

theorem Timely.hears_step (h : s.Timely due) (e : Beat) {k : Side} (hh : s.Hears k) : (s.step e).Hears k := by
  cases e with
  | start i =>
    unfold Hears peerFind addr
    rw [(start_same s i k).2, (start_same s i k.other).1]
    exact hh
  | tick i => exact h.hears_act (i := i) (r := s.mail i) (c := .tick s.now) (fun v now he => (Option.some.inj (evaluated_time he)).symm) hh
  | keys i held => exact h.hears_act (i := i) (r := s.mail i) (c := .setKeysHeld held) (fun _ _ he => by cases he) hh
  | deliver i =>
    show Hears (match s.mail i with | [] => s | m :: rest => s.act i rest (m.call (s.addr i.other) s.now)) k
    split
    · exact hh
    · exact h.hears_act (fun v now he => timed_call _ _ s _ v now he) hh
  | elsewhere i src m => exact h.hears_act (i := i) (r := s.mail i) (c := m.call src s.now) (fun v now he => timed_call m _ s _ v now he) hh
  | set key value =>
    show Hears (match coordConfigSet s.cfg key value with | .ok cfg => s.reconfigure cfg | .error _ => s) k
    split
    · rename_i cfg _
      unfold Hears peerFind
      rw [(reconfigure_same s cfg k).1, (reconfigure_same s cfg k.other).2.2.2]
      exact hh
    · exact hh
  | pass => exact hh

theorem Healthy.hears_run (h : s.Healthy) {k : Side} (hh : s.Hears k) (es : List Beat)
    (ha : Reach.Admitted Suited Duo.step s es) : (es.foldl Duo.step s).Healthy ∧ (es.foldl Duo.step s).Hears k := by
  induction es generalizing s with
  | nil => exact ⟨h, hh⟩
  | cons e es ih =>
    obtain ⟨due, ht⟩ := h.2
    exact ih (h.step ha.1) (ht.hears_step e hh) ha.2

def pairCoordinator : Config := ⟨1, 1, 0, capCoord, true, timingDefault⟩
def pairBoard : Config := ⟨2, 2, 0, capHidIn, false, timingDefault⟩

/-- Both start, and each hears the other's first HELLO. -/
def meeting : List Beat :=
  [.start .coordinator, .start .board, .tick .coordinator, .deliver .board, .tick .board, .deliver .coordinator]

def met (cfg : CoordConfig) : Duo := meeting.foldl Duo.step (boot cfg pairCoordinator pairBoard 1)

/-- A millisecond. -/
def served : List Beat := [.pass, .tick .coordinator, .tick .board]

def metFor (cfg : CoordConfig) (n : Nat) : Duo := (List.replicate n served).flatten.foldl Duo.step (met cfg)

/-- With every HELLO interval below the hold time it has to last for, a party that has heard
    the other once keeps it in its table, live, whatever the keys held, the boards elsewhere
    and the settings made on the way. -/
theorem suited_never_dropped {cfg : CoordConfig} (hc : Configurable cfg) (hs : Suits cfg) {s : Duo}
    (h : Reach (Booted cfg) Suited Duo.step s) {i : Side} (hh : s.Hears i) (es : List Beat)
    (ha : Reach.Admitted Suited Duo.step s es) :
    ∃ p, peerFind ((es.foldl Duo.step s).uhrp i) ((es.foldl Duo.step s).addr i.other) = some p ∧
      expired ((es.foldl Duo.step s).uhrp i) (UInt32.ofNat (es.foldl Duo.step s).now) p = false := by
  obtain ⟨⟨-, due, ht⟩, hheard⟩ := (healthy hc hs h).hears_run hh es ha
  obtain ⟨p, hp⟩ := Option.isSome_iff_exists.mp hheard
  obtain ⟨-, -, -, n, hl, hn, hg, -⟩ := ht.heard i p hp
  exact ⟨p, hp, ht.live hl hn hg⟩

/-- The default configuration, 20 ms after the two have met. -/
theorem defaults_never_dropped :
    ∃ p, peerFind ((metFor coordConfigDefaults 20).uhrp .coordinator) ((metFor coordConfigDefaults 20).addr .board) = some p ∧
      expired ((metFor coordConfigDefaults 20).uhrp .coordinator) (UInt32.ofNat (metFor coordConfigDefaults 20).now) p =
        false := by
  have hrun : Reach.Admitted Suited Duo.step (boot coordConfigDefaults pairCoordinator pairBoard 1) meeting ∧
      Reach.Admitted Suited Duo.step (met coordConfigDefaults) (List.replicate 20 served).flatten ∧
      (met coordConfigDefaults).Hears .coordinator := by
    decide +kernel
  obtain ⟨h1, h2, h3⟩ := hrun
  have hreach : Reach (Booted coordConfigDefaults) Suited Duo.step (met coordConfigDefaults) :=
    Reach.run (.init ⟨pairCoordinator, pairBoard, 1, rfl⟩) meeting h1
  unfold metFor
  exact suited_never_dropped .defaults (by decide) hreach h3 _ h2

/-- A hold time of 30 ms is accepted; the board speaks every 50 ms, so the coordinator
    forgets it in between. -/
theorem short_hold_drops : ¬ ∀ cfg, Configurable cfg → ∀ s, Reach (Booted cfg) Undisturbed Duo.step s →
    (∀ i, s.Hears i) → ∀ es, Reach.Admitted Undisturbed Duo.step s es → ∀ i, (es.foldl Duo.step s).Hears i := by
  intro hall
  obtain ⟨cfg, hset, hcfg⟩ : ∃ cfg, coordConfigSet coordConfigDefaults "hold_ms" "30" = .ok cfg ∧
      cfg = { coordConfigDefaults with timing := { timingDefault with holdMs := 30 } } := ⟨_, by decide +kernel, rfl⟩
  have hc : Configurable cfg := .set .defaults hset
  subst hcfg
  let short := { coordConfigDefaults with timing := { timingDefault with holdMs := 30 } }
  have hrun : Reach.Admitted Undisturbed Duo.step (boot short pairCoordinator pairBoard 1) meeting ∧
      Reach.Admitted Undisturbed Duo.step (met short) (List.replicate 30 served).flatten ∧
      (met short).Hears .coordinator ∧ (met short).Hears .board ∧ ¬ (metFor short 30).Hears .coordinator := by
    decide +kernel
  obtain ⟨h1, h2, h3, h4, h5⟩ := hrun
  have hreach : Reach (Booted short) Undisturbed Duo.step (met short) :=
    Reach.run (.init ⟨pairCoordinator, pairBoard, 1, rfl⟩) meeting h1
  refine h5 (hall _ hc _ hreach (fun i => ?_) _ h2 .coordinator)
  cases i with
  | coordinator => exact h3
  | board => exact h4

end Duo

end DeskHop.Chain
