/-
  DeskHop.Wire.Journal — what the boards of a row send, and what is handed over to them.

  `Journal` is a row with two logs for each board: the letters it has sent, and those that
  its link has handed over. A board sends, or the next frame of a wire arrives.

  Proved, for every run in which no board sends 32768 times (`journal_inv`): what a board
  has been handed from another, followed by what is on its way to it, is what the other has
  sent for it (`Conserved`). Nothing is handed over to its source.
-/

import DeskHop.Wire.Row

namespace DeskHop.Wire

open DeskHop.Lib

structure Journal (n : Nat) where
  row : Row n
  sent : Fin n → List Letter
  delivered : Fin n → List Letter

namespace Journal

variable {n : Nat}

/-- The log of `i` gets `m`, if `b`. -/
def logged (log : Fin n → List Letter) (i : Fin n) (b : Bool) (m : Letter) : Fin n → List Letter :=
  if b then Function.update log i (log i ++ [m]) else log

theorem logged_apply (log : Fin n → List Letter) (i : Fin n) (b : Bool) (m : Letter) (x : Fin n) :
    logged log i b m x = log x ++ if x = i ∧ b = true then [m] else [] := by
  unfold logged
  by_cases hb : b = true
  · by_cases hx : x = i
    · subst hx
      rw [if_pos hb, Function.update_self, if_pos ⟨rfl, hb⟩]
    · rw [if_pos hb, Function.update_of_ne hx, if_neg fun h => hx h.1, List.append_nil]
  · rw [if_neg hb, if_neg fun h => hb h.2, List.append_nil]

inductive Event (n : Nat) where
  | send (i : Fin n) (type : MsgType) (dst : Addr) (payload : List Byte)
  | arrive (p : Port) (i : Fin n)

def step (j : Journal n) : Event n → Journal n
  | .send i type dst payload =>
    { j with
      row := j.row.send i type dst payload
      sent := logged j.sent i (fits type payload) ((j.row.station i).own type dst payload).letter }
  | .arrive p i =>
    match j.row.front p i with
    | none => j
    | some f =>
      { j with
        row := j.row.arrive p i f
        delivered := logged j.delivered i (hear (j.row.station i) f).mine f.letter }

/-- Boards that have sent and heard nothing, and empty wires. -/
def Start (addr : Fin n → Addr) (j : Journal n) : Prop :=
  (∀ i, j.row.station i = ⟨addr i, 0, Slots.replicate maxBoards ⟨false, false, 0, 0⟩⟩) ∧
    (∀ p q, j.row.lane p q = []) ∧ (∀ i, j.sent i = []) ∧ ∀ i, j.delivered i = []

/-- Fewer than 32768 sends a board. -/
def Few (j : Journal n) : Event n → Prop
  | .send i _ _ _ => (j.row.station i).txSeq.toNat + 1 < 32768
  | .arrive _ _ => True

/-! ## Nothing is lost, and nothing comes twice -/

/-- The letter of a frame of `a` that `b` is to be handed. -/
def letterFor (a b : Addr) (f : Frame) : Option Letter :=
  if f.src = a ∧ f.letter.isFor b = true then some f.letter else none

theorem letterFor_from (a b : Addr) : Row.From a (letterFor a b) := fun _ h => if_neg fun hf => h hf.1

structure Conserved (addr : Fin n → Addr) (j : Journal n) : Prop where
  /-- Delivered, or on its way: in the order it was sent. -/
  between : ∀ p s x, place p s < place p x →
    (j.delivered x).filter (fun m => m.src == addr s) ++ j.row.coming p x (letterFor (addr s) (addr x)) =
      (j.sent s).filter (Letter.isFor (addr x))
  foreign : ∀ x, ∀ m ∈ j.delivered x, m.isFor (addr x) = true ∧ ∃ s, s ≠ x ∧ m.src = addr s
  own : ∀ s, ∀ m ∈ j.sent s, m.src = addr s
  /-- Two sends of a board differ in their number. -/
  numbered : ∀ s, ((j.sent s).map (fun m => m.seq.toNat) ++ [(j.row.station s).txSeq.toNat]).Pairwise (· < ·)

structure Inv (addr : Fin n → Addr) (j : Journal n) : Prop where
  physical : j.row.Physical addr
  ordered : j.row.Ordered addr
  conserved : Conserved addr j

variable {addr : Fin n → Addr} {j : Journal n}

theorem start_inv (h : Start addr j) : Inv addr j := by
  obtain ⟨hst, hlane, hsent, hdel⟩ := h
  have hcoming {β : Type} (p : Port) (x : Fin n) (sel : Frame → Option β) : j.row.coming p x sel = [] := by
    refine List.filterMap_eq_nil_iff.mpr fun f hf => ?_
    obtain ⟨q, -, hf⟩ := mem_heading.mp hf
    rw [hlane] at hf
    cases hf
  have hlast (x : Fin n) (a : Addr) : lastSeq (j.row.station x) a = none := by
    rw [hst, lastSeq, Slots.find?_replicate_none rfl]
    rfl
  refine ⟨⟨fun i => by rw [hst], fun p q f hf => ?_⟩, ⟨fun s => ?_, fun p s x _ => ?_⟩,
    ⟨fun p s x _ => ?_, fun x m hm => ?_, fun s m hm => ?_, fun s => ?_⟩⟩
  · rw [hlane] at hf
    cases hf
  · rw [hst]
    exact (by decide : (0 : UInt16).toNat < 32768)
  · rw [Row.numbers, hlast, hcoming]
    exact List.pairwise_singleton _ _
  · rw [hdel, hsent, hcoming]
    rfl
  · rw [hdel] at hm
    cases hm
  · rw [hsent] at hm
    cases hm
  · rw [hsent]
    exact List.pairwise_singleton _ _

theorem send_inv (hi : Inv addr j) (hinj : Function.Injective addr) {i : Fin n} {type : MsgType} {dst : Addr}
    {payload : List Byte} (hfew : (j.row.station i).txSeq.toNat + 1 < 32768) :
    Inv addr (j.step (.send i type dst payload)) := by
  obtain ⟨hp, ho, hc⟩ := hi
  let m := ((j.row.station i).own type dst payload).letter
  have hsent : ∀ s, (j.step (.send i type dst payload)).sent s =
      j.sent s ++ if s = i ∧ fits type payload = true then [m] else [] := logged_apply j.sent i _ m
  refine ⟨hp.send i type dst payload, ho.send hp hinj hfew type dst payload,
    ⟨fun p s x hx => ?_, hc.foreign, fun s k hk => ?_, fun s => ?_⟩⟩
  · rw [hsent, List.filter_append, ← hc.between p s x hx, List.append_assoc]
    refine congrArg _ ?_
    show (j.row.send i type dst payload).coming p x _ = _
    by_cases hs : s = i
    · subst hs
      rw [Row.coming_send_self hp hinj (letterFor_from _ _) hx]
      refine congrArg _ ?_
      by_cases hfit : fits type payload = true
      · rw [if_pos hfit, if_pos ⟨rfl, hfit⟩, List.filterMap_cons, List.filter_cons]
        by_cases hfor : m.isFor (addr x) = true
        · have hletter : letterFor (addr s) (addr x) ((j.row.station s).own type dst payload) = some m :=
            if_pos ⟨hp.self s, hfor⟩
          rw [hletter, if_pos hfor]
          rfl
        · have hletter : letterFor (addr s) (addr x) ((j.row.station s).own type dst payload) = none :=
            if_neg fun h => hfor h.2
          rw [hletter, if_neg hfor]
          rfl
      · rw [if_neg hfit, if_neg fun h => hfit h.2]
        rfl
    · rw [Row.coming_send_ne hp hinj (Ne.symm hs) (letterFor_from _ _), if_neg fun h => hs h.1]
      exact (List.append_nil _).symm
  · rw [hsent] at hk
    rcases List.mem_append.mp hk with hk | hk
    · exact hc.own s k hk
    · split at hk
      · rename_i hs
        obtain ⟨rfl, -⟩ := hs
        obtain rfl := List.mem_singleton.mp hk
        exact hp.self s
      · cases hk
  · have hold := hc.numbered s
    show (((j.step (.send i type dst payload)).sent s).map _ ++ [((j.row.send i type dst payload).station s).txSeq.toNat]).Pairwise _
    rw [hsent]
    by_cases hs : s = i
    · subst hs
      rw [Row.txSeq_send_self j.row s type dst payload hfew, List.map_append]
      refine (Row.pairwise_next hold).sublist (List.Sublist.append ((List.Sublist.refl _).append ?_) (List.Sublist.refl _))
      split
      · exact List.Sublist.refl _
      · exact List.nil_sublist _
    · rw [Row.txSeq_send_ne j.row hs, if_neg fun h => hs h.1, List.append_nil]
      exact hold

theorem arrive_inv (hi : Inv addr j) (hinj : Function.Injective addr) (hres : ∀ i, addr i ≠ addrBroadcast) (hn : n ≤ 20)
    (p : Port) (i : Fin n) : Inv addr (j.step (.arrive p i)) := by
  obtain ⟨hp, ho, hc⟩ := hi
  simp only [step]
  cases hf : j.row.front p i with
  | none => exact ⟨hp, ho, hc⟩
  | some f =>
    obtain ⟨hsrc, httl⟩ := hp.front hinj hn hf
    have hself : (j.row.station i).self = addr i := hp.self i
    obtain ⟨hmine, honward⟩ := hear_fresh hsrc (Row.arrive_fresh ho hp hf)
    rw [hself] at hmine honward hsrc
    have hdel : ∀ x, logged j.delivered i (hear (j.row.station i) f).mine f.letter x =
        j.delivered x ++ if x = i ∧ f.letter.isFor (addr i) = true then [f.letter] else [] := by
      intro x
      rw [show (hear (j.row.station i) f).mine = f.letter.isFor (addr i) from hmine]
      exact logged_apply j.delivered i _ _ x
    refine ⟨hp.arrive hf, ho.arrive hp hinj hn hf, ⟨fun p' s x hx => ?_, fun x m hm => ?_, hc.own, fun s => ?_⟩⟩
    · show (logged j.delivered i (hear (j.row.station i) f).mine f.letter x).filter _ ++
        (j.row.arrive p i f).coming p' x _ = _
      rw [hdel, List.filter_append, ← hc.between p' s x hx, List.append_assoc]
      refine congrArg _ ?_
      by_cases hx' : x = i
      · subst hx'
        by_cases hs : f.src = addr s
        · -- the letter is the first of those on their way
          have hahead := hp.ahead hinj hf hs
          obtain rfl : p' = p := port_eq_of_ahead hahead hx
          rw [Row.coming_arrive_here (letterFor (addr s) (addr x)) hf]
          refine congrArg (· ++ _) ?_
          by_cases hfor : f.letter.isFor (addr x) = true
          · have hletter : letterFor (addr s) (addr x) f = some f.letter := if_pos ⟨hs, hfor⟩
            have hfrom : (f.letter.src == addr s) = true := beq_iff_eq.mpr hs
            rw [hletter, if_pos ⟨rfl, hfor⟩, List.filter_cons, if_pos hfrom]
            rfl
          · have hletter : letterFor (addr s) (addr x) f = none := if_neg fun h => hfor h.2
            rw [hletter, if_neg fun h => hfor h.2]
            rfl
        · -- a letter of another board
          have hnone : (if x = x ∧ f.letter.isFor (addr x) = true then [f.letter] else []).filter
              (fun m => m.src == addr s) = [] := by
            refine List.filter_eq_nil_iff.mpr fun m hm => ?_
            split at hm
            · obtain rfl := List.mem_singleton.mp hm
              exact fun h => hs (beq_iff_eq.mp h)
            · cases hm
          rw [hnone, List.nil_append]
          by_cases hpp : p' = p
          · subst hpp
            rw [Row.coming_arrive_here (letterFor (addr s) (addr x)) hf, letterFor_from _ _ f hs]
            rfl
          · exact Row.coming_arrive_other _ hpp x x f
      · rw [if_neg fun h => hx' h.1]
        show [] ++ _ = _
        rw [List.nil_append]
        by_cases hpp : p' = p
        · subst hpp
          refine Row.coming_arrive_ne hf hx' ?_
          rw [honward]
          by_cases hd : f.dst = addr i
          · -- it stops here, and is for nobody else
            have hnot : letterFor (addr s) (addr x) f = none := by
              refine if_neg fun h => ?_
              have hfor := h.2
              simp only [Letter.isFor, Frame.letter, Bool.or_eq_true, beq_iff_eq, hd] at hfor
              exact hfor.elim (fun h => hx' (hinj h).symm) (hres i)
            rw [if_neg (not_not.mpr hd), List.filterMap_cons_none hnot]
            rfl
          · rw [if_pos hd, (oneHopLess_some httl).1]
            rfl
        · exact Row.coming_arrive_other _ hpp i x f
    · have hm' : m ∈ logged j.delivered i (hear (j.row.station i) f).mine f.letter x := hm
      rw [hdel] at hm'
      rcases List.mem_append.mp hm' with h | h
      · exact hc.foreign x m h
      · split at h
        · rename_i hx
          obtain ⟨rfl, hfor⟩ := hx
          obtain rfl := List.mem_singleton.mp h
          obtain ⟨q, rest, hq, hlane, -⟩ := Row.front_some hf
          obtain ⟨s, hs⟩ := hp.travelled p q f (by rw [hlane]; exact List.mem_cons_self)
          exact ⟨hfor, s, fun he => hsrc (he ▸ hs.src), hs.src⟩
        · cases h
    · show ((j.sent s).map _ ++ [((j.row.arrive p i f).station s).txSeq.toNat]).Pairwise _
      rw [Row.txSeq_arrive]
      exact hc.numbered s

theorem journal_inv (hinj : Function.Injective addr) (hres : ∀ i, addr i ≠ addrBroadcast) (hn : n ≤ 20)
    (h : Reach (Start addr) Few step j) : Inv addr j := by
  refine h.inv (fun _ => start_inv) fun j e hi ho => ?_
  cases e with
  | send i type dst payload => exact send_inv hi hinj ho
  | arrive p i => exact arrive_inv hi hinj hres hn p i

end Journal

end DeskHop.Wire
