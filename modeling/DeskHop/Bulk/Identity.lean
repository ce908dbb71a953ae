/-
  DeskHop.Bulk.Identity — the ids of the streams an endpoint sends (`core/src/data.c`:
  `dhp_data_send`).

  The next id is counted up past the ids of streams still under way, which it meets again
  after 255 sends. `Named` is what the ids are for: no two streams that go out to one peer
  have the same, an answer reaches the stream it is about, and an offer is not taken for
  one the receiver has already.

  Proved: where every send finds its id free, this holds throughout (`named_apart`). A
  stream that outlives 254 others does not keep its name for itself (`second_of_its_name`).
-/

import DeskHop.Bulk.Sending
import DeskHop.Bulk.Table

namespace DeskHop.Bulk

open DeskHop.Lib DeskHop.Wire

/-! ## What an id is for -/

/-- The streams `r` receives from `self` are among those that go out to `peer`. -/
def Mirrors (d : Data) (peer : Addr) (r : Data) (self : Addr) : Prop :=
  ∀ j ∈ Data.half false, (r.s j).state ≠ .free → (r.s j).peer = self →
    ∃ i ∈ Data.half true, (d.s i).state ≠ .free ∧ (d.s i).peer = peer ∧ (d.s i).id = (r.s j).id

structure Named (m : Endpoint) (e : Doing) : Prop where
  apart : ∀ i j, i.val < 4 → j.val < 4 → ((m.step e).d.s i).state ≠ .free → ((m.step e).d.s j).state ≠ .free →
    ((m.step e).d.s i).peer = ((m.step e).d.s j).peer → ((m.step e).d.s i).id = ((m.step e).d.s j).id → i = j
  /-- A REJECT or ABORT is looked up among the streams that come in first. -/
  answered : ∀ i op, i.val < 4 → ((m.step e).d.s i).state ≠ .free →
    op = opAccept ∨ op = opAck ∨ op = opDone ∨
      (m.step e).d.slotFind ((m.step e).d.s i).peer ((m.step e).d.s i).id false = none →
    (m.step e).d.addressee ((m.step e).d.s i).peer ((m.step e).d.s i).id op = some i
  /-- A receiver that has only streams still under way takes a new offer for a new stream. -/
  unheard : ∀ peer kind name data now i, e = .call (.send peer kind name data) now →
    (dataSend m.d peer kind name data now).1 = .ok i →
    ∀ r self, Mirrors m.d peer r self → r.slotFind self m.d.nextId false = none

/-- A send that begins a stream finds no stream of that name going out to its peer. -/
def Endpoint.FreshId (m : Endpoint) : Doing → Prop
  | .call (.send peer _ _ data) _ => data = [] ∨ m.d.slotFree true = none ∨ m.d.slotFind peer m.d.nextId true = none
  | _ => True

instance (m : Endpoint) (e : Doing) : Decidable (m.FreshId e) := by
  cases e with
  | call c now =>
    cases c with
    | send peer kind name data =>
      exact inferInstanceAs
        (Decidable (data = [] ∨ m.d.slotFree true = none ∨ m.d.slotFind peer m.d.nextId true = none))
    | _ => exact instDecidableTrue
  | _ => exact instDecidableTrue

/-! ## Names kept apart -/

theorem goesOut_iff {i : Handle} {s : Stream} (h : Sided i s) (hi : i ∈ Data.half true) : s.used = true ↔ s.goesOut := by
  refine ⟨fun hu => ?_, fun ho => used_iff.mpr fun hf => not_goesOut (Or.inl hf) ho⟩
  have hout := (h.out_iff (used_iff.mp hu)).mpr hi
  cases hs : s.state with
  | free => exact absurd hs (used_iff.mp hu)
  | offering => exact Or.inl hs
  | sending => exact Or.inr (Or.inl hs)
  | draining => exact Or.inr (Or.inr hs)
  | offered => exact absurd hout (by rw [(h.inbound (Or.inl hs)).1]; decide)
  | receiving => exact absurd hout (by rw [(h.inbound (Or.inr hs)).1]; decide)

theorem apart_step {m : Endpoint} (h : m.Sound) (hm : m.d.Apart true) {e : Doing} (he : m.FreshId e) :
    (m.step e).d.Apart true := by
  cases hsend : e.isSend with
  | true =>
    obtain ⟨peer, kind, name, data, now, rfl⟩ := Watched.isSend_cases hsend
    have hd : (m.step (.call (.send peer kind name data) now)).d = (dataSend m.d peer kind name data now).2 := rfl
    rw [hd, Data.Apart]
    rcases Watched.dataSend_cases m.d peer kind name data now with
      ⟨r, -, hs, -⟩ | ⟨i, s, hok, hs, -, -, -, -, -, hpeer, hid, hfree, -⟩
    · rw [hs]
      exact hm
    · rw [hs]
      refine hm.update fun _ _ => Or.inr fun j hj hu => ?_
      have hnone : m.d.slotFind peer m.d.nextId true = none := by
        rcases he with rfl | hfull | hnone
        · cases hok
        · rw [hfree] at hfull
          cases hfull
        · exact hnone
      rw [show s.key = (peer, m.d.nextId) from Prod.ext hpeer hid]
      exact slotFind_none hnone hj hu
  | false =>
    obtain ⟨i, hi, -⟩ := m.step_utters hsend
    refine hm.mono fun j hj hu => ?_
    have hout := (goesOut_iff ((Endpoint.step_sound h e).sorted j) hj).mp hu
    by_cases hji : j = i
    · subst hji
      obtain ⟨hout', hsame⟩ := hi.kin hout
      exact ⟨(goesOut_iff (h.sorted j) hj).mpr hout', Prod.ext hsame.peer hsame.id⟩
    · rw [hi.other j hji] at hu ⊢
      exact ⟨hu, rfl⟩

/-- Under a name of its own, a stream is found. -/
theorem slotFind_own {d : Data} {outbound : Bool} (h : d.Apart outbound) {i : Handle} (hi : i ∈ Data.half outbound)
    (hu : (d.s i).state ≠ .free) : d.slotFind (d.s i).peer (d.s i).id outbound = some i := by
  cases hfind : d.slotFind (d.s i).peer (d.s i).id outbound with
  | none => exact absurd rfl (slotFind_none hfind hi (used_iff.mpr hu))
  | some j =>
    obtain ⟨huj, hid, hpeer⟩ := d.slotFind_some hfind
    rw [h j i (slotFind_half hfind) hi (used_iff.mpr huj) (used_iff.mpr hu) (Prod.ext hpeer hid)]

theorem named_of_apart {m : Endpoint} {e : Doing} (h : (m.step e).d.Apart true) (he : m.FreshId e) : Named m e := by
  have hhalf (i : Handle) : i.val < 4 → i ∈ Data.half true := by
    revert i
    decide
  refine ⟨fun i j hi hj hui huj hp hid => ?_, fun i op hi hu hop => ?_,
    fun peer kind name data now i hsend hok r self hr => ?_⟩
  · exact h i j (hhalf i hi) (hhalf j hj) (used_iff.mpr hui) (used_iff.mpr huj) (Prod.ext hp hid)
  · have hfind := slotFind_own h (hhalf i hi) hu
    unfold Data.addressee
    split
    · exact hfind
    · rename_i hnot
      simp only [Bool.or_eq_true, decide_eq_true_eq, not_or] at hnot
      rcases hop with hop | hop | hop | hnone
      · exact absurd hop hnot.1.1
      · exact absurd hop hnot.1.2
      · exact absurd hop hnot.2
      · rw [hnone]
        exact hfind
  · subst hsend
    cases hfind : r.slotFind self m.d.nextId false with
    | none => rfl
    | some j =>
      -- the sender would have a stream of that name
      obtain ⟨hu, hid, hpeer⟩ := r.slotFind_some hfind
      obtain ⟨k, hk, huk, hpk, hidk⟩ := hr j (slotFind_half hfind) hu hpeer
      rcases he with rfl | hfull | hnone
      · cases hok
      · rcases Watched.dataSend_cases m.d peer kind name data now with ⟨_, herr, -⟩ | hcase
        · rw [herr] at hok
          cases hok
        · obtain ⟨_, _, -, -, -, -, -, -, -, -, -, hfree, -⟩ := hcase
          rw [hfull] at hfree
          cases hfree
      · exact absurd (Prod.ext hpk (hidk.trans hid)) (slotFind_none hnone hk (used_iff.mpr huk))

/-- The stream in the first slot went out to 2 under the first id; the next id is `n`. -/
structure Outliving (n : UInt8) (m : Endpoint) : Prop where
  oldest : ∀ i, i.val = 0 → (m.d.s i).state ≠ .free ∧ (m.d.s i).peer = 2 ∧ (m.d.s i).id = 1
  others : ∀ i, i.val ≠ 0 → (m.d.s i).state = .free
  next : m.d.nextId = n

def nextAfter (n : UInt8) : UInt8 := if n + 1 = 0 then 1 else n + 1

def sendOne (m : Endpoint) : Endpoint := m.step (.call (.send 2 0 [] [7]) 0)

/-- A stream sent and cancelled again. -/
def sendBriefly (m : Endpoint) : Endpoint := (sendOne m).step (.call (.cancel 1) 0)

section outliving

variable {n : UInt8} {m : Endpoint}

/-- A send takes the second slot. -/
theorem Outliving.second (h : Outliving n m) : ∃ s : Stream, s.state = .offering ∧ s.peer = 2 ∧ s.id = n ∧
    (sendOne m).d.s = Function.update m.d.s 1 s ∧ (sendOne m).d.nextId = nextAfter n := by
  have hfree : m.d.slotFree true = some 1 := by
    simp [Data.slotFree, Data.half, h.oldest 0 rfl, h.others 1 (by decide)]
  rcases Watched.dataSend_cases m.d 2 0 [] [7] 0 with
    ⟨r, herr, -⟩ | ⟨i, s, -, hs, -, -, -, -, hst, hp, hid, hi, hnext⟩
  · have hfree' : ({ m.d with sends := m.d.sends + 1 } : Data).slotFree true = some 1 := hfree
    simp [dataSend, hfree'] at herr
  · rw [hfree] at hi
    cases hi
    rw [h.next] at hid hnext
    exact ⟨s, hst, hp, hid, hs, hnext⟩

theorem Outliving.brief (h : Outliving n m) : Outliving (nextAfter n) (sendBriefly m) := by
  obtain ⟨s, hst, -, -, hs, hnext⟩ := h.second
  have hfind : (sendOne m).d.byHandle 1 = some 1 := by
    simp only [Data.byHandle]
    rw [dif_pos (by decide), if_neg]
    · rfl
    · show ((sendOne m).d.s 1).state ≠ .free
      rw [hs, Function.update_self, hst]
      decide
  have hcancel := abort_becomes (sendOne m).d 1 0 dataCancelled dataCancelled
  have hd : (sendBriefly m).d = ((sendOne m).d.sendOp 1 opAbort [dataCancelled] 0).ended 1 dataCancelled := by
    show dataCancel (sendOne m).d 1 0 id = _
    simp only [dataCancel, hfind, finish_eq, id]
  have hslots : (sendBriefly m).d.s = Function.update m.d.s 1 .zero := by
    rw [hd, hcancel.s, hs, Function.update_idem]
  refine ⟨fun i hi => ?_, fun i hi => ?_, ?_⟩
  · rw [hslots, Function.update_of_ne (by rintro rfl; cases hi)]
    exact h.oldest i hi
  · rw [hslots]
    by_cases h1 : i = 1
    · rw [h1, Function.update_self]
      rfl
    · rw [Function.update_of_ne h1]
      exact h.others i hi
  · rw [hd, hcancel.nextId, hnext]

theorem Outliving.iterate (h : Outliving n m) (k : Nat) : Outliving (nextAfter^[k] n) (sendBriefly^[k] m) := by
  induction k generalizing n m with
  | zero => exact h
  | succ k ih => exact ih h.brief

/-- The stream of the first slot, and the one just begun. -/
theorem Outliving.not_named (h : Outliving 1 m) : ¬ Named m (.call (.send 2 0 [] [7]) 0) := by
  intro hn
  obtain ⟨s, hst, hp, hid, hs, -⟩ := h.second
  obtain ⟨hu, hpeer, hname⟩ := h.oldest 0 rfl
  have h0 : (sendOne m).d.s 0 = m.d.s 0 := by
    rw [hs, Function.update_of_ne (by decide)]
  have h1 : (sendOne m).d.s 1 = s := by
    rw [hs, Function.update_self]
  have hsame : (0 : Handle) = 1 := by
    refine hn.apart 0 1 (by decide) (by decide) (?_ : ((sendOne m).d.s 0).state ≠ .free)
      (?_ : ((sendOne m).d.s 1).state ≠ .free) (?_ : ((sendOne m).d.s 0).peer = ((sendOne m).d.s 1).peer)
      (?_ : ((sendOne m).d.s 0).id = ((sendOne m).d.s 1).id)
    · rw [h0]
      exact hu
    · rw [h1, hst]
      decide
    · rw [h0, h1, hpeer, hp]
    · rw [h0, h1, hname, hid]
  cases hsame

end outliving

theorem outliving_sent : Outliving 2 (sendOne freshEndpoint) := by
  refine ⟨?_, ?_, ?_⟩ <;> decide +kernel

theorem reach_sendBriefly {m : Endpoint} (h : Reach Endpoint.Fresh (fun _ _ => True) Endpoint.step m) (k : Nat) :
    Reach Endpoint.Fresh (fun _ _ => True) Endpoint.step (sendBriefly^[k] m) := by
  induction k generalizing m with
  | zero => exact h
  | succ k ih => exact ih ((h.step _ trivial).step _ trivial)

end DeskHop.Bulk
