/-
  DeskHop.Routing.Rule1 — whether the election sees what is down.

  Rule 1 waits for `keys_held`, the election's copy of whether the tracker has anything
  down. A report refreshes the copy. A change of focus and a received RELEASE clear a slot
  of the tracker and leave the copy as it was; so does a board that gives the role up at
  the deadline, which has every board let go.

  Proved (`sees_held_iff`): in every run, the ACTIVE board's copy says what the tracker has
  down in every state exactly if no step clears the last slot that has anything down, and
  none takes the role with the copy still set. A focus that leaves the one machine with a
  key down sets the two apart (`switch_leaves_copy`).
-/

import DeskHop.Routing.Held
import DeskHop.Routing.Release

namespace DeskHop.Routing

open DeskHop.Lib DeskHop.Election DeskHop.Wire

/-- The ACTIVE board's election knows whether anything is down. -/
def SeesHeld (r : Router) : Prop := isActive r = true → r.uhrp.keysHeld = hidAnyHeld r.hid

/-- `slot` has something down, and no other has. -/
def OnlyHeld (t : HidTracker) (slot : Nat) : Prop :=
  slotHeld (t.sent slot) = true ∧ ∀ other, slotHeld (t.sent other) = true → other = slot

/-- The operation makes a board without the role take it. -/
def takesRole (r : Router) (op : Op) : Bool :=
  !isActive r && (electionCall op).any fun c => (prepared r.uhrp c).any fun x => dueFor x.1 (UInt32.ofNat x.2)

structure Heeded (r : Router) (op : Op) : Prop where
  /-- The last slot that has anything down is not cleared. -/
  cleared : isActive r = true → ∀ slot, clearedSlot r op = some slot → ¬ OnlyHeld r.hid slot
  /-- The role is not taken with the copy set. -/
  taken : takesRole r op = true → r.uhrp.keysHeld = false

theorem anyHeld_congr {t t' : HidTracker} (h : ∀ slot, slotHeld (t'.sent slot) = slotHeld (t.sent slot)) :
    hidAnyHeld t' = hidAnyHeld t := by
  rw [Bool.eq_iff_iff, anyHeld_iff, anyHeld_iff]
  exact exists_congr fun slot => by rw [h slot]

/-- A slot cleared leaves nothing down exactly if it was the only one. -/
theorem anyHeld_cleared {t t' : HidTracker} {slot : Nat} (hfree : slotHeld (t'.sent slot) = false)
    (hothers : ∀ other, other ≠ slot → t'.sent other = t.sent other) :
    hidAnyHeld t' = hidAnyHeld t ↔ ¬ OnlyHeld t slot := by
  have hkept : hidAnyHeld t' = true ↔ ∃ other, other ≠ slot ∧ slotHeld (t.sent other) = true := by
    rw [anyHeld_iff]
    constructor
    · rintro ⟨other, hheld⟩
      have hne : other ≠ slot := by
        rintro rfl
        rw [hfree] at hheld
        cases hheld
      exact ⟨other, hne, by rw [← hothers other hne]; exact hheld⟩
    · rintro ⟨other, hne, hheld⟩
      exact ⟨other, by rw [hothers other hne]; exact hheld⟩
  rw [Bool.eq_iff_iff, hkept, anyHeld_iff]
  constructor
  · rintro h ⟨hheld, honly⟩
    obtain ⟨other, hne, hother⟩ := h.mpr ⟨slot, hheld⟩
    exact hne (honly other hother)
  · intro h
    refine ⟨fun ⟨other, _, hheld⟩ => ⟨other, hheld⟩, fun ⟨other, hheld⟩ => ?_⟩
    by_contra hnone
    have honly : ∀ k, slotHeld (t.sent k) = true → k = slot := by
      intro k hk
      by_contra hne
      exact hnone ⟨k, hne, hk⟩
    obtain rfl := honly other hheld
    exact h ⟨hheld, honly⟩

/-- What an operation that calls the election leaves of the role and of the copy. -/
theorem called_idle {r s : Router} {c : Call} (hb : Booked r) (ha : isActive r = false) (hc : ∀ b, c ≠ .setKeysHeld b)
    (huhrp : s.uhrp = (takeEvents (call r.uhrp c)).2)
    (hless : ∀ slot, slotHeld (s.hid.sent slot) = true → slotHeld (r.hid.sent slot) = true) :
    (isActive s = true ↔ (prepared r.uhrp c).any (fun x => dueFor x.1 (UInt32.ofNat x.2)) = true) ∧
      s.uhrp.keysHeld = r.uhrp.keysHeld ∧ hidAnyHeld s.hid = false := by
  have hidle : r.uhrp.state ≠ .active := by simpa [isActive, Election.isActive] using ha
  refine ⟨?_, ?_, ?_⟩
  · rw [isActive, Election.isActive, beq_iff_eq, huhrp]
    exact call_takes_role_iff hc hidle
  · rw [huhrp]
    exact call_keysHeld hc
  · have hnone := hb.idle ha
    rw [Bool.eq_false_iff, ne_eq, anyHeld_iff] at hnone ⊢
    intro hany
    obtain ⟨slot, hheld⟩ := hany
    exact hnone ⟨slot, hless slot hheld⟩

/-- One step: what is seen stays seen exactly if the step is heeded. -/
theorem step_sees {r : Router} (hs : Sound r) (hb : Booked r) (h : SeesHeld r) {op : Op} (hop : NotRestarted r op) :
    SeesHeld (step r op) ↔ Heeded r op := by
  have hturn := step_turn hs hop
  have hcleared : (isActive r = true → ∀ slot, clearedSlot r op = some slot → ¬ OnlyHeld r.hid slot) ∧
      (takesRole r op = true → r.uhrp.keysHeld = false) ↔ Heeded r op := ⟨fun h => ⟨h.1, h.2⟩, fun h => ⟨h.1, h.2⟩⟩
  rw [← hcleared, takesRole]
  generalize clearedSlot r op = slot?, electionCall op = call? at hturn
  cases hturn with
  | kept hid books =>
    refine iff_of_true (fun ha => ?_) ⟨fun _ slot hn => (by cases hn), fun ht => (by simp at ht)⟩
    rw [books.keysHeld, hid]
    refine h ?_
    rw [isActive, Election.isActive, ← books.state]
    exact ha
  | @cleared slot free others books =>
    have hrole : isActive (step r op) = isActive r := by
      rw [isActive, isActive, Election.isActive, Election.isActive, books.state]
    simp only [SeesHeld, hrole, books.keysHeld, Option.some.injEq, forall_eq', Option.any_none, Bool.and_false,
      Bool.false_eq_true, false_imp_iff, and_true]
    refine forall_congr' fun ha => ?_
    rw [h ha, ← anyHeld_cleared free others]
    exact eq_comm
  | noted ha state told seated =>
    exact iff_of_true (fun _ => told) ⟨fun _ slot hn => (by cases hn), fun ht => (by simp at ht)⟩
  | called c hc uhrp less forgot kept =>
    cases ha : isActive r with
    | false =>
      obtain ⟨hrole, hkeys, hnone⟩ := called_idle hb ha hc uhrp less
      simp only [SeesHeld, hrole, hkeys, hnone, Bool.not_false, Bool.true_and, Option.any_some, Bool.false_eq_true,
        false_imp_iff, true_and]
    | true =>
      refine iff_of_true (fun hact => ?_) ⟨fun _ slot hn => (by cases hn), fun ht => (by simp at ht)⟩
      have hactive : r.uhrp.state = .active := by simpa [isActive, Election.isActive] using ha
      rcases call_keeps_or_releases hc hactive hs.drained with ⟨-, hquiet⟩ | ⟨hgone, -⟩
      · have hkeys : (step r op).uhrp.keysHeld = r.uhrp.keysHeld := by
          rw [uhrp]
          exact call_keysHeld hc
        rw [hkeys, kept hquiet]
        exact h ha
      · rw [isActive, Election.isActive, beq_iff_eq, uhrp] at hact
        exact absurd hact hgone
  | restarted ha hid hidle =>
    refine iff_of_true (fun hact => ?_) ⟨fun _ slot hn => (by cases hn), fun ht => (by simp at ht)⟩
    rw [hidle] at hact
    cases hact

/-! ## A whole run -/

/-- The states of a run, the first and the last included. -/
def statesOf : Router → List Op → List Router
  | r, [] => [r]
  | r, op :: ops => r :: statesOf (step r op) ops

theorem run_sees (ops : List Op) {r : Router} (hs : Sound r) (hb : Booked r) (h : SeesHeld r)
    (hops : Reach.Admitted NotRestarted step r ops) :
    (∀ s ∈ statesOf r ops, SeesHeld s) ↔ Reach.Admitted Heeded step r ops := by
  induction ops generalizing r with
  | nil =>
    refine iff_of_true (fun s hsm => ?_) trivial
    rw [List.mem_singleton.mp hsm]
    exact h
  | cons op ops ih =>
    obtain ⟨hop, hrest⟩ := hops
    rw [statesOf, List.forall_mem_cons]
    constructor
    · rintro ⟨-, hall⟩
      have hnext : SeesHeld (step r op) := by
        refine hall _ ?_
        cases ops <;> exact List.mem_cons_self
      exact ⟨(step_sees hs hb h hop).mp hnext, (ih (sound_step hs op) (booked_step hs hb hop) hnext hrest).mp hall⟩
    · rintro ⟨hheeded, hall⟩
      have hnext := (step_sees hs hb h hop).mpr hheeded
      exact ⟨h, (ih (sound_step hs op) (booked_step hs hb hop) hnext hrest).mpr hall⟩

/-- In every state of a run the election of the ACTIVE board sees what is down, exactly if
    no step clears the last slot that has anything down and none takes the role with the
    copy set. -/
theorem sees_held_iff (cfg : RouterCfg) (ops : List Op) (hops : Reach.Admitted NotRestarted step (routerInit cfg) ops) :
    (∀ r ∈ statesOf (routerInit cfg) ops, SeesHeld r) ↔ Reach.Admitted Heeded step (routerInit cfg) ops := by
  refine run_sees ops (sound_init cfg) (booked_init cfg) (fun ha => ?_) hops
  cases ha

theorem sees_held_after_booting : (∀ r ∈ statesOf (routerInit deskCfg) bootOps, SeesHeld r) ↔
    Reach.Admitted Heeded step (routerInit deskCfg) bootOps :=
  sees_held_iff deskCfg bootOps ⟨fun _ _ => rfl, fun _ h => (by cases h), fun _ h => (by cases h), trivial⟩

/-! ## A switch with Ctrl down -/

/-- Ctrl is let go of by the release of the switch, and the election goes on waiting for
    it. -/
theorem switch_leaves_copy : ¬ ∀ (cfg : RouterCfg) (ops : List Op), Reach.Admitted NotRestarted step (routerInit cfg) ops →
    ∀ r, r = ops.foldl step (routerInit cfg) → isActive r = true → r.uhrp.keysHeld = hidAnyHeld r.hid := by
  intro h
  have hrun : Reach.Admitted NotRestarted step (routerInit deskCfg) (bootOps ++ switchOps) :=
    ⟨fun _ _ => rfl, fun _ h => (by cases h), fun _ h => (by cases h), fun _ h => (by cases h), fun _ h => (by cases h),
      trivial⟩
  have hcopy := h deskCfg (bootOps ++ switchOps) hrun _ rfl (by decide +kernel)
  exact absurd hcopy (by decide +kernel)

end DeskHop.Routing
