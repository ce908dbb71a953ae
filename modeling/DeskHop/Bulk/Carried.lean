/-
  DeskHop.Bulk.Carried — which contents get across.

  From rest, a content that is sent takes the stages of `Bulk.Lossless` (`step_pictured`).
  Once the receiver has accepted, one of the endpoints always has a message to read that
  brings the end nearer (`Stage.nears`), so a run in which both keep reading ends.
  Proved: every content of a length is carried, and the chunks are as many as it takes,
  exactly if 65535 chunks hold it (`carried_iff`).
-/

import DeskHop.Bulk.Lossless
import DeskHop.Lib.Fair

namespace DeskHop.Bulk

open DeskHop.Lib DeskHop.Wire

/-! ## Every turn -/

section turns

variable {t0 t : Transfer} {m : Terms} {g g' : Stage}

namespace Transfer

/-- A turn goes on to the next stage, or a timer has run out and the sender repeats itself. -/
theorem step_pictured (h : Pictured t0 m t g) (hpos : m.total ≠ 0) (hlen : m.content.length < 4294967296) {e : Event}
    (hok : Lossless t e) : ∃ g', Pictured t0 m (t.step e) g' ∧
      (Stage.Goes m e.turn g g' ∨ Stage.Resends m g g' ∧ Late t e) := by
  cases e with
  | sender e =>
    cases e with
    | app script now =>
      have hdone : script = .done := hok
      have hstay : t.step (.sender (.app script now)) = t :=
        step_sender_same h.posted.1 (by rw [hdone]; rfl) rfl
      exact ⟨g, by rw [hstay]; exact h, Or.inl .stays⟩
    | tick react now => exact h.sender_tick hok
    | rx react now =>
      obtain ⟨g', hg', hgoes⟩ := h.sender_rx hok
      exact ⟨g', hg', Or.inl hgoes⟩
  | receiver e =>
    cases e with
    | app script now =>
      obtain ⟨g', hg', hgoes⟩ := h.receiver_app hok
      exact ⟨g', hg', Or.inl hgoes⟩
    | tick react now => exact ⟨g, by rw [h.receiver_tick hok]; exact h, Or.inl .stays⟩
    | rx react now =>
      obtain ⟨g', hg', hgoes⟩ := h.receiver_rx hpos hlen hok
      exact ⟨g', hg', Or.inl hgoes⟩
  | loseToR k => exact hok.elim
  | loseToS k => exact hok.elim

end Transfer

end turns

/-! ## The beginning -/

namespace Transfer

/-- The terms a content is sent on. -/
def terms (t : Transfer) (kind : UInt8) (name content : List Byte) : Terms :=
  { src := t.addrS, dst := t.addrR, id := t.sender.nextId, kind := kind, name := name, content := content,
    own := t.sender.window, given := t.receiver.window }

section

variable {t : Transfer} {content : List Byte} (kind : UInt8) (name : List Byte)

theorem terms_total (hmax : content.length ≤ t.receiver.maxInbound.toNat) :
    (t.terms kind name content).total.toNat = content.length := by
  have hlen := Nat.lt_of_le_of_lt hmax t.receiver.maxInbound.toNat_lt
  show (UInt32.ofNat content.length).toNat = content.length
  rw [UInt32.toNat_ofNat', Nat.mod_eq_of_lt hlen]

/-- A receiver that takes contents of this length is offered some bytes, and not too many. -/
theorem terms_fit (hpos : 1 ≤ content.length) (hmax : content.length ≤ t.receiver.maxInbound.toNat) :
    (t.terms kind name content).total ≠ 0 ∧ (t.terms kind name content).total ≤ t.receiver.maxInbound := by
  have htotal := terms_total kind name hmax
  refine ⟨fun hzero => ?_, ?_⟩
  · rw [hzero] at htotal
    exact absurd htotal.symm (Nat.ne_of_gt hpos)
  · rw [UInt32.le_iff_toNat_le, htotal]
    exact hmax

end

theorem slotFree_outgoing {d : Data} (h : d.Vacant) : d.slotFree true = some outSlot := by
  have hfirst : ((d.s outSlot).state == .free) = true := by
    rw [h outSlot]
    rfl
  exact List.find?_cons_of_pos hfirst

/-- An endpoint at rest offers what it is given to send. -/
theorem send_resting {t : Transfer} (h : t.sender.Vacant) (kind : UInt8) (name content : List Byte) (now : Time)
    (hsome : content.length ≠ 0) : ∃ d : Data, d.s = t.sender.s ∧ d.out = t.sender.out ∧
      d.notes = t.sender.notes ++ [.begun outSlot t.sender.nextId content] ∧ d.nRetransmits = t.sender.nRetransmits ∧
      (dataSend t.sender t.addrR kind name content now).2 =
        d.after outSlot ((t.terms kind name content).offering.stamped now now 0) [(t.terms kind name content).offer] := by
  have hfree : ({ t.sender with sends := t.sender.sends + 1 } : Data).slotFree true = some outSlot := slotFree_outgoing h
  refine ⟨({ t.sender with
    sends := t.sender.sends + 1
    nextId := if t.sender.nextId + 1 = 0 then 1 else t.sender.nextId + 1 } : Data).note
      (.begun outSlot t.sender.nextId content), rfl, rfl, rfl, rfl, ?_⟩
  simp only [dataSend, if_neg hsome, hfree, Data.sendOp_after]
  simp only [Data.note, Data.upd, Data.after, Function.update_self, Function.update_idem]
  rfl

/-- What it transmits is the offer. -/
theorem sends_mail {t : Transfer} (h : t.Resting) (kind : UInt8) (name content : List Byte) (now : Time)
    (hsome : content.length ≠ 0) :
    (dataSend t.sender t.addrR kind name content now).2.mail t.addrR = [(t.terms kind name content).offer] := by
  obtain ⟨d, -, hout, -, -, hsend⟩ := send_resting h.sender kind name content now hsome
  rw [hsend]
  exact Data.mail_after outSlot ((t.terms kind name content).offering.stamped now now 0) _ (hout.trans h.posted.1)

/-- A content is on offer. -/
theorem sends_pictured {t : Transfer} (h : t.Resting) (kind : UInt8) (name content : List Byte) (now : Time)
    (hsome : content.length ≠ 0) (hroom : (t.terms kind name content).total ≤ t.receiver.maxInbound) :
    Pictured t (t.terms kind name content) (t.sends kind name content now) (.offering 1) := by
  obtain ⟨d, hs, -, hnotes, hcount, hsend⟩ := send_resting h.sender kind name content now hsome
  have halone : d.Alone outSlot := fun j _ => by
    rw [hs]
    exact h.sender j
  refine ⟨⟨rfl, rfl⟩, ⟨rfl, h.posted.2⟩, rfl, hroom, ?_, h.receiver, ?_, h.toS, ?_, ?_, rfl, trivial⟩
  · show (dataSend t.sender t.addrR kind name content now).2.posted.Holds outSlot _
    rw [hsend]
    refine ⟨halone.after _ [(t.terms kind name content).offer], ?_⟩
    show Stamped _ ((d.after outSlot ((t.terms kind name content).offering.stamped now now 0)
      [(t.terms kind name content).offer]).s outSlot)
    rw [Data.after_self]
    exact ⟨now, now, 0, rfl⟩
  · show t.toR ++ (dataSend t.sender t.addrR kind name content now).2.mail t.addrR = _
    rw [sends_mail h kind name content now hsome, h.toR]
    rfl
  · show (dataSend t.sender t.addrR kind name content now).2.nRetransmits = t.sender.nRetransmits + UInt32.ofNat 0
    rw [hsend]
    exact hcount.trans (UInt32.add_zero _).symm
  · show ∃ mid, (dataSend t.sender t.addrR kind name content now).2.notes = t.sender.notes ++ mid
    rw [hsend]
    exact ⟨_, hnotes⟩

end Transfer

/-! ## The end -/

namespace Stage

/-- The receiver has accepted. -/
def Begun : Stage → Prop
  | .offering _ | .pending _ => False
  | .accepted _ _ | .running _ _ | .finished _ => True

/-- Whose turn brings the end nearer. -/
def awaits : Stage → Turn
  | .running n x => if 0 < n ∨ x.expected < x.next then .hears else .reads
  | _ => .reads

/-- What is left: the ACCEPT to be read, offers to be heard, and the rest of the flow. -/
def rank (m : Terms) : Stage → Nat ×ₗ Nat ×ₗ Nat ×ₗ Nat ×ₗ Nat
  | .running n x => toLex (0, toLex (n, x.rank m.chunks))
  | _ => toLex (1, toLex (0, toLex (0, toLex (0, 0))))

/-- A turn ends the transfer, or brings the end nearer, or does not matter. -/
def Nearer (m : Terms) (turn : Turn) (g g' : Stage) : Prop :=
  (∃ x, g' = .finished x) ∨ g'.Begun ∧
    (g'.rank m < g.rank m ∨ turn ≠ g.awaits ∧ g'.rank m = g.rank m ∧ g'.awaits = g.awaits)

variable {m : Terms} {n : Nat} {x x' : Flow} {turn : Turn}

theorem nearer_rank (h : x'.rank m.chunks < x.rank m.chunks) : Nearer m turn (.running n x) (.running n x') :=
  Or.inr ⟨trivial, Or.inl (Prod.Lex.toLex_lt_toLex.mpr (Or.inr ⟨rfl, Prod.Lex.toLex_lt_toLex.mpr (Or.inr ⟨rfl, h⟩)⟩))⟩

theorem nearer_level (h : Flow.Level m.chunks x x') (hturn : turn ≠ awaits (.running n x)) :
    Nearer m turn (.running n x) (.running n x') := by
  refine Or.inr ⟨trivial, Or.inr ⟨hturn, ?_, ?_⟩⟩
  · show toLex (0, toLex (n, x'.rank m.chunks)) = toLex (0, toLex (n, x.rank m.chunks))
    rw [h.rank]
  · show (if 0 < n ∨ x'.expected < x'.next then Turn.hears else .reads) = if 0 < n ∨ x.expected < x.next then .hears else .reads
    rw [h.expected, h.next]

end Stage

theorem Terms.every_eq (m : Terms) : m.every = max (m.given.toNat / 2) 1 := by
  have hhalf : (m.given / 2).toNat = m.given.toNat / 2 := UInt8.toNat_div ..
  unfold Terms.every ackEvery
  rw [UInt8.toNat_toUInt16]
  split
  · rename_i hsome
    have hne : (m.given / 2).toNat ≠ 0 := fun h => hsome (UInt8.toNat_inj.mp h)
    omega
  · rename_i hnone
    have hzero : m.given / 2 = 0 := not_not.mp hnone
    rw [hzero] at hhalf
    have h0 : (0 : UInt8).toNat = 0 := rfl
    have h1 : (1 : UInt8).toNat = 1 := rfl
    omega

/-- The receiver acknowledges within the window, if there is one. -/
theorem Terms.every_le {m : Terms} (h : 0 < m.window.toNat) : 0 < m.every ∧ m.every ≤ m.window.toNat := by
  have hevery := m.every_eq
  unfold Terms.window at h ⊢
  split at h
  · rename_i hgiven
    rw [if_pos hgiven]
    omega
  · rename_i hnone
    have hzero : ¬ 0 < m.given.toNat := fun h => hnone (UInt8.lt_iff_toNat_lt.mpr h)
    rw [if_neg hnone]
    omega

theorem Stage.goes_nearer {m : Terms} {g g' : Stage} {turn : Turn} (hs : g.Sound m) (hpos : 0 < m.chunks)
    (hwindow : 0 < m.window.toNat) (hg : g.Begun) (h : Stage.Goes m turn g g') : Stage.Nearer m turn g g' := by
  obtain ⟨hevery, hle⟩ := Terms.every_le hwindow
  have hself {g : Stage} (hg : g.Begun) (hturn : turn ≠ g.awaits) : Stage.Nearer m turn g g :=
    Or.inr ⟨hg, Or.inr ⟨hturn, rfl, rfl⟩⟩
  cases h with
  | stays =>
    refine hself hg ?_
    unfold Stage.awaits
    split
    · split <;> decide
    · decide
  | unread hnone =>
    cases g with
    | offering => exact hg.elim
    | pending => exact hg.elim
    | accepted n r => cases hnone
    | finished x => exact Or.inl ⟨x, rfl⟩
    | running n x =>
      obtain ⟨hacks, hclosing⟩ := List.append_eq_nil_iff.mp hnone
      have hacks : x.acks = [] := List.map_eq_nil_iff.mp hacks
      refine hself hg fun hturn => ?_
      by_cases hwait : 0 < n ∨ x.expected < x.next
      · rw [Stage.awaits, if_pos hwait] at hturn
        cases hturn
      · -- everything has been taken, and the verdict is on its way
        rw [not_or] at hwait
        have hexp := hs.1.expected_le
        have hall : x.expected = m.chunks := by
          by_contra hne
          obtain ⟨n, hn, -⟩ := hs.1.news hevery hle hwait.2 (by omega)
          rw [hacks] at hn
          cases hn
        have hdone : m.closing x.expected = [m.done] := if_pos ⟨hpos, hall⟩
        rw [hdone] at hclosing
        cases hclosing
  | unheard hnone =>
    cases g with
    | offering => exact hg.elim
    | pending => exact hg.elim
    | accepted n r => exact hself hg fun h => by cases h
    | finished x => exact Or.inl ⟨x, rfl⟩
    | running n x =>
      obtain ⟨hoffers, hitems⟩ := List.append_eq_nil_iff.mp hnone
      have hitems : x.items = [] := List.map_eq_nil_iff.mp hitems
      have hn : n = 0 := (List.replicate_eq_nil_iff _).mp hoffers
      refine hself hg fun hturn => ?_
      by_cases hwait : 0 < n ∨ x.expected < x.next
      · have hmem := hs.1.expected_mem (hwait.resolve_left (by omega))
        rw [hitems] at hmem
        cases hmem
      · rw [Stage.awaits, if_neg hwait] at hturn
        cases hturn
  | offered => exact hg.elim
  | atOnce => exact hg.elim
  | ignored => exact hg.elim
  | accepts => exact hg.elim
  | answers => exact Or.inr ⟨trivial, Or.inr ⟨fun h => (by cases h), rfl, rfl⟩⟩
  | starts => exact Or.inr ⟨trivial, Or.inl (Prod.Lex.toLex_lt_toLex.mpr (Or.inl Nat.zero_lt_one))⟩
  | repeats =>
    refine Or.inr ⟨trivial, Or.inl (Prod.Lex.toLex_lt_toLex.mpr (Or.inr ⟨rfl, Prod.Lex.toLex_lt_toLex.mpr (Or.inl ?_)⟩))⟩
    exact Nat.lt_succ_self _
  | @item x echo hsome =>
    by_cases hbehind : x.expected < x.next
    · exact Stage.nearer_rank (hs.1.takeItem_rank hbehind echo)
    · refine Stage.nearer_level (hs.1.takeItem_level hevery hle hbehind echo) fun hturn => ?_
      rw [Stage.awaits, if_neg (by omega)] at hturn
      cases hturn
  | @ack n x hsome =>
    by_cases hbehind : x.expected < x.next
    · rcases hs.1.takeAck_level hbehind with hrank | hlevel
      · exact Stage.nearer_rank hrank
      · refine Stage.nearer_level hlevel fun hturn => ?_
        rw [Stage.awaits, if_pos (Or.inr hbehind)] at hturn
        cases hturn
    · exact Stage.nearer_rank (hs.1.takeAck_rank hevery hle hbehind hsome)
  | told hacks htaken => exact Or.inl ⟨_, rfl⟩
  | drops => exact Or.inl ⟨_, rfl⟩

/-- A timer that runs out brings nothing nearer, and nothing further off. -/
theorem Stage.resends_nearer {m : Terms} {g g' : Stage} {turn : Turn} (hs : g.Sound m) (hg : g.Begun)
    (hturn : turn = .other) (h : Stage.Resends m g g') : Stage.Nearer m turn g g' := by
  have hother : turn ≠ g.awaits := by
    rw [hturn]
    unfold Stage.awaits
    split
    · split <;> decide
    · decide
  cases h with
  | offering => exact hg.elim
  | pending => exact hg.elim
  | accepted => exact Or.inr ⟨trivial, Or.inr ⟨hother, rfl, rfl⟩⟩
  | running => exact Stage.nearer_level hs.1.level_restart hother

/-! ## How many chunks -/

/-- A chunk count that holds a length, and no chunk too many. -/
theorem chunksFor_bounds {total : Nat} (hpos : 1 ≤ total) (hmax : total ≤ contentMax) :
    ((chunksFor (UInt32.ofNat total)).toNat - 1) * 60 < total ∧ total ≤ (chunksFor (UInt32.ofNat total)).toNat * 60 := by
  unfold contentMax at hmax
  have h60 : (60 : UInt32).toNat = 60 := rfl
  have h1 : (1 : UInt32).toNat = 1 := rfl
  have htotal : (UInt32.ofNat total).toNat = total := by
    rw [UInt32.toNat_ofNat', Nat.mod_eq_of_lt (by omega)]
  have hsum : (UInt32.ofNat total + 60 - 1).toNat = total + 59 := by
    rw [UInt32.toNat_sub, UInt32.toNat_add, h60, h1, htotal]
    omega
  have hchunks : (chunksFor (UInt32.ofNat total)).toNat = (total + 59) / 60 := by
    rw [chunksFor, UInt32.toNat_toUInt16, UInt32.toNat_div, hsum, h60]
    omega
  omega

namespace Transfer

/-- Since `t`, the content has been handed over and reported received, and reported sent. -/
structure Ends (t : Transfer) (content : List Byte) (t' : Transfer) : Prop where
  received : ∃ mid, t'.receiver.notes = t.receiver.notes ++ mid ++ [.received inSlot dataOk] ∧
    delivered inSlot (t.receiver.notes ++ mid) = content
  sent : ∃ mid, t'.sender.notes = t.sender.notes ++ mid ++ [.sent outSlot dataOk]

/-- The chunks are as many as a content of this length takes, and sent from here it gets
    across, once accepted, in every run that loses nothing and in which both endpoints go
    on reading. -/
def Carried (t : Transfer) (total : Nat) : Prop :=
  (((chunksFor (UInt32.ofNat total)).toNat - 1) * 60 < total ∧ total ≤ (chunksFor (UInt32.ofNat total)).toNat * 60) ∧
    ∀ (kind : UInt8) (name content : List Byte) (now : Time), content.length = total →
      ∀ r : Trace Lossless Transfer.step, r.state 0 = t.sends kind name content now →
        r.Keeps (fun e => e.turn = .reads) → r.Keeps (fun e => e.turn = .hears) →
          ∀ n, ((r.state n).receiver.s inSlot).state = .receiving → ∃ k, n ≤ k ∧ t.Ends content (r.state k)

section

variable {t0 t : Transfer} {m : Terms} {g : Stage}

/-- Receiving, it has accepted. -/
theorem Pictured.begun (h : Pictured t0 m t g) (hs : (t.receiver.s inSlot).state = .receiving) : g.Begun := by
  have hin := h.incoming
  cases g with
  | offering n =>
    rw [hin inSlot] at hs
    cases hs
  | pending n =>
    rw [(Terms.opened_used hin.2).1] at hs
    cases hs
  | accepted n r => trivial
  | running n x => trivial
  | finished x => trivial

theorem Pictured.ends {x : Flow} (h : Pictured t0 m t (.finished x)) (hall : m.content.length ≤ 60 * m.chunks) :
    t0.Ends m.content t := by
  have htake : m.content.take (60 * m.chunks) = m.content := List.take_of_length_le hall
  have hverdict : m.verdict = dataOk := by
    unfold Terms.verdict
    rw [htake]
    exact if_pos rfl
  obtain ⟨mid, hmid, hd⟩ := h.heard
  obtain ⟨mid', hmid'⟩ := h.said
  rw [hverdict] at hmid hmid'
  exact ⟨⟨mid, hmid, hd.trans htake⟩, mid', hmid'⟩

/-- Once accepted, it ends. -/
theorem Pictured.arrives (hpos : m.total ≠ 0) (hlen : m.content.length < 4294967296) (hchunks : 0 < m.chunks)
    (hwindow : 0 < m.window.toNat) (r : Trace Lossless Transfer.step) (hreads : r.Keeps fun e => e.turn = .reads)
    (hhears : r.Keeps fun e => e.turn = .hears) {n : Nat} (h : Pictured t0 m (r.state n) g) (hg : g.Begun) :
    ∃ k, n ≤ k ∧ ∃ x, Pictured t0 m (r.state k) (.finished x) := by
  have hnears : ∀ t e g, (Pictured t0 m t g ∧ g.Begun) → Lossless t e →
      Trace.Nears (fun t g => Pictured t0 m t g ∧ g.Begun) (Stage.rank m) (fun g (e : Event) => e.turn = g.awaits)
        (fun t => ∃ x, Pictured t0 m t (.finished x)) g e (t.step e) := by
    rintro t e g ⟨h, hg⟩ hok
    obtain ⟨g', hg', hgoes⟩ := step_pictured h hpos hlen hok
    have hnearer : Stage.Nearer m e.turn g g' := by
      rcases hgoes with hgoes | ⟨hagain, hlate⟩
      · exact Stage.goes_nearer h.sound hchunks hwindow hg hgoes
      · refine Stage.resends_nearer h.sound hg ?_ hagain
        unfold Late at hlate
        split at hlate
        · rfl
        · exact hlate.elim
    rcases hnearer with ⟨x, rfl⟩ | ⟨hbegun, hrank | ⟨hturn, hrank, hawaits⟩⟩
    · exact Or.inl ⟨x, hg'⟩
    · exact Or.inr ⟨g', ⟨hg', hbegun⟩, Or.inl hrank⟩
    · exact Or.inr ⟨g', ⟨hg', hbegun⟩, Or.inr ⟨hturn, hrank, by simp only [hawaits]⟩⟩
  refine r.arrives hnears (fun g => ?_) ⟨h, hg⟩
  unfold Stage.awaits
  split
  · split
    · exact hhears
    · exact hreads
  · exact hreads

/-- A content that the chunks hold is carried. -/
theorem carries (h : t.Resting) (hwindow : 0 < t.receiver.window ∨ 0 < t.sender.window) {kind : UInt8}
    {name content : List Byte} {now : Time} (hpos : 1 ≤ content.length) (hmax : content.length ≤ t.receiver.maxInbound.toNat)
    (hheld : content.length ≤ (t.terms kind name content).chunks * 60) (r : Trace Lossless Transfer.step)
    (h0 : r.state 0 = t.sends kind name content now) (hreads : r.Keeps fun e => e.turn = .reads)
    (hhears : r.Keeps fun e => e.turn = .hears) {n : Nat} (hs : ((r.state n).receiver.s inSlot).state = .receiving) :
    ∃ k, n ≤ k ∧ t.Ends content (r.state k) := by
  have hlen : content.length < 4294967296 := Nat.lt_of_le_of_lt hmax t.receiver.maxInbound.toNat_lt
  obtain ⟨hsome, hroom⟩ := terms_fit (t := t) kind name hpos hmax
  have hwindow : 0 < (t.terms kind name content).window.toNat := by
    show 0 < (if t.receiver.window > 0 then t.receiver.window else t.sender.window).toNat
    split
    · exact UInt8.lt_iff_toNat_lt.mp ‹_›
    · exact UInt8.lt_iff_toNat_lt.mp (hwindow.resolve_left ‹_›)
  have hstart := sends_pictured h kind name content now (Nat.ne_of_gt hpos) hroom
  have hstep : ∀ s e, (∃ g, Pictured t (t.terms kind name content) s g) → Lossless s e →
      ∃ g, Pictured t (t.terms kind name content) (s.step e) g := by
    rintro s e ⟨g, hg⟩ hok
    obtain ⟨g', hg', -⟩ := step_pictured hg hsome hlen hok
    exact ⟨g', hg'⟩
  obtain ⟨g, hg⟩ := r.inv hstep ⟨_, h0 ▸ hstart⟩ n
  obtain ⟨k, hk, x, hx⟩ := Pictured.arrives hsome hlen (by omega) hwindow r hreads hhears hg (hg.begun hs)
  exact ⟨k, hk, hx.ends (by show content.length ≤ _; omega)⟩

end

/-- What the receiver is willing to accept gets across exactly if 65535 chunks hold it. -/
theorem carried_iff {t : Transfer} (h : t.Resting) (hwindow : 0 < t.receiver.window ∨ 0 < t.sender.window) {total : Nat}
    (hpos : 1 ≤ total) (hmax : total ≤ t.receiver.maxInbound.toNat) : t.Carried total ↔ total ≤ 3932100 := by
  constructor
  · rintro ⟨⟨-, hheld⟩, -⟩
    have hchunks := (chunksFor (UInt32.ofNat total)).toNat_lt
    omega
  · intro hle
    have hbounds := chunksFor_bounds hpos hle
    refine ⟨hbounds, fun kind name content now hlen r h0 hreads hhears n hs => ?_⟩
    subst hlen
    exact carries h hwindow hpos hmax hbounds.2 r h0 hreads hhears hs

theorem sampleTransfer_resting : sampleTransfer.Resting := ⟨fun _ => rfl, fun _ => rfl, ⟨rfl, rfl⟩, rfl, rfl⟩

theorem two_chunks_carried : sampleTransfer.Carried 61 ↔ 61 ≤ 3932100 :=
  carried_iff sampleTransfer_resting (Or.inl (by decide)) (by decide) (by decide)

/-- A receiver that takes up to 8 MiB is willing to accept 65536 chunks full, which are
    counted as none. -/
theorem full_count_not_carried : sampleTransfer.Resting ∧ sampleTransfer.receiver = dataInit ∧ 1 ≤ 3932160 ∧
    3932160 ≤ dataInit.maxInbound.toNat ∧ chunksFor (UInt32.ofNat 3932160) = 0 ∧ ¬ sampleTransfer.Carried 3932160 := by
  refine ⟨sampleTransfer_resting, rfl, by decide, by decide, by decide, ?_⟩
  rintro ⟨⟨-, hheld⟩, -⟩
  exact absurd hheld (by decide)

end Transfer

end DeskHop.Bulk
