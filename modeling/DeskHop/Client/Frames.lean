/-
  DeskHop.Client.Frames — what two links of the same board put on the chain.

  `bare` leaves out of a link what only its own sends change. Two links that are bare the
  same relay the same frames and hand over the same frames, so that what they have put on
  the chain can be compared piece by piece (`Matches`): a relayed frame is the same, a
  frame of the board's own resembles its counterpart (`Resembles`), and a frame sent on a
  client's behalf need not have one.

  Proved: every operation of the link keeps two links abreast (`Abreast`).
-/

import DeskHop.Client.Blind

namespace DeskHop.Client

open DeskHop.Lib DeskHop.Routing DeskHop.Wire

/-! ## A link without its sends -/

def barePort (lp : LinkPort) : LinkPort := { lp with txFrames := 0 }

def bare (l : Link) : Link := { l with txSeq := 0, up := barePort l.up, down := barePort l.down, wire := [] }

/-- What an operation makes of a link it makes of the bare link, and puts the same on the
    chain. -/
structure Bares (l m b : Link) : Prop where
  bare : bare m = bare b
  wire : m.wire = l.wire ++ b.wire

theorem Bares.refl (l : Link) : Bares l l (Client.bare l) := ⟨rfl, (List.append_nil _).symm⟩

theorem bare_port (l : Link) (p : Port) : (bare l).port p = barePort (l.port p) := by cases p <;> rfl

theorem relay_bares (l : Link) (p : Port) (f : Frame) : Bares l (relay l p f) (relay (bare l) p f) := by
  simp only [relay]
  split
  · exact .refl l
  split
  · exact ⟨rfl, (List.append_nil _).symm⟩
  · cases p <;> exact ⟨rfl, rfl⟩

theorem accept_bares (l : Link) (p : Port) (f : Frame) :
    Bares l (accept l p f).1 (accept (bare l) p f).1 ∧ (accept l p f).2 = (accept (bare l) p f).2 := by
  by_cases hk : (!l.hasKey && f.type != msgPair) = true
  · have h : ∀ l : Link, (!l.hasKey && f.type != msgPair) = true → accept l p f = (l, .error .auth) := fun _ h => if_pos h
    rw [h l hk, h (bare l) hk]
    exact ⟨.refl l, rfl⟩
  by_cases hself : f.src = l.self
  · have h : ∀ l : Link, ¬ (!l.hasKey && f.type != msgPair) = true → f.src = l.self → accept l p f = (l, .error .again) :=
      fun _ h1 h2 => (if_neg h1).trans (if_pos h2)
    rw [h l hk hself, h (bare l) hk hself]
    exact ⟨.refl l, rfl⟩
  unfold accept
  rw [if_neg hk, if_neg hself, if_neg (show ¬ (!(bare l).hasKey && f.type != msgPair) = true from hk),
    if_neg (show f.src ≠ (bare l).self from hself), show (bare l).seen = l.seen from rfl]
  obtain ⟨fresh, seen⟩ := seqIsFresh l.seen f.src f.seq
  cases fresh with
  | false => exact ⟨⟨rfl, (List.append_nil _).symm⟩, rfl⟩
  | true =>
    have hrelay := relay_bares { l with seen := seen } p f
    have h1 := (relay_same { l with seen := seen } p f).2.2.2
    have h2 := (relay_same { bare l with seen := seen } p f).2.2.2
    by_cases hd : f.dst ≠ l.self
    · simp only [Bool.not_true, Bool.false_eq_true, if_false, if_pos hd, if_pos (show f.dst ≠ (bare l).self from hd), h1, h2]
      exact ⟨⟨hrelay.bare, hrelay.wire⟩, rfl⟩
    · simp only [Bool.not_true, Bool.false_eq_true, if_false, if_neg hd, if_neg (show ¬ f.dst ≠ (bare l).self from hd)]
      exact ⟨⟨rfl, (List.append_nil _).symm⟩, rfl⟩

theorem linkRxByte_bares (l : Link) (p : Port) (byte : Byte) (now : Time) :
    Bares l (linkRxByte l p byte now).1 (linkRxByte (bare l) p byte now).1 ∧
      (linkRxByte l p byte now).2 = (linkRxByte (bare l) p byte now).2 := by
  have hframer : ((bare l).port p).framer = (l.port p).framer := by rw [bare_port]; rfl
  simp only [linkRxByte, hframer, show (bare l).hasKey = l.hasKey from rfl, show (bare l).key = l.key from rfl]
  generalize framerPush (l.port p).framer byte (if l.hasKey then some l.key else none) = pushed
  obtain ⟨framer, r⟩ := pushed
  cases r with
  | error e => cases p <;> exact ⟨⟨rfl, (List.append_nil _).symm⟩, rfl⟩
  | ok f =>
    let heard (l : Link) : Link :=
      let l := l.setPort p { l.port p with framer := framer }
      l.setPort p { l.port p with rxFrames := (l.port p).rxFrames + 1, lastRx := now, neighbour := true }
    have hb : bare (heard l) = heard (bare l) := by cases p <;> rfl
    have hw : (heard l).wire = l.wire := by cases p <;> rfl
    obtain ⟨⟨h1, h2⟩, h3⟩ := accept_bares (heard l) p f
    rw [hb] at h1 h2 h3
    rw [hw] at h2
    exact ⟨⟨h1, h2⟩, h3⟩

theorem linkTick_bare (l : Link) (now : Time) : bare (linkTick l now) = linkTick (bare l) now ∧
    (linkTick l now).wire = l.wire := by
  have hage : ∀ (l : Link) (p : Port), bare (ageOut l p now) = ageOut (bare l) p now ∧ (ageOut l p now).wire = l.wire := by
    intro l p
    have hport : barePort (l.port p) = (bare l).port p := (bare_port l p).symm
    simp only [ageOut, ← hport]
    rw [apply_ite bare, apply_ite Link.wire]
    refine ⟨if_congr Iff.rfl ?_ rfl, ?_⟩
    · cases p <;> rfl
    · rw [setPort_wire, ite_self]
  obtain ⟨h1, h2⟩ := hage l .up
  obtain ⟨h3, h4⟩ := hage (ageOut l .up now) .down
  exact ⟨h3.trans (congrArg (ageOut · .down now) h1), h4.trans h2⟩

/-! ## Sends -/

/-- What a send puts on the chain. -/
def copies (l : Link) (f : Frame) : List (Port × List Byte) :=
  if l.hasKey ∧ f.payload.length ≤ maxPayload ∧ f.type ≤ 0x0F then [(.up, onWire f l.key), (.down, onWire f l.key)] else []

theorem emitFrame_bare (l : Link) (p : Port) (f : Frame) : bare (emitFrame l p f).2 = bare l ∧
    (emitFrame l p f).2.wire =
      l.wire ++ if l.hasKey ∧ f.payload.length ≤ maxPayload ∧ f.type ≤ 0x0F then [(p, onWire f l.key)] else [] := by
  unfold emitFrame
  by_cases hk : l.hasKey = true
  · rw [if_neg (by simp [hk])]
    by_cases hf : f.payload.length ≤ maxPayload ∧ f.type ≤ 0x0F
    · rw [frameEncode_ok f l.key hf.1 hf.2, if_pos ⟨hk, hf⟩]
      cases p <;> exact ⟨rfl, rfl⟩
    · have hbad : frameEncode f l.key wireMax = .error .inval := by
        unfold frameEncode
        by_cases hlen : f.payload.length > maxPayload
        · exact if_pos hlen
        · rw [if_neg hlen]
          exact if_pos (UInt8.not_le.mp fun ht => hf ⟨by omega, ht⟩)
      rw [hbad, if_neg fun h => hf h.2]
      exact ⟨rfl, (List.append_nil _).symm⟩
  · rw [if_pos (by simp [hk]), if_neg fun h => hk h.1]
    exact ⟨rfl, (List.append_nil _).symm⟩

/-- A send changes nothing of a link but what a bare link leaves out. -/
theorem linkSend_bare (l : Link) (type : MsgType) (dst : Addr) (payload : List Byte) :
    bare (linkSend l type dst payload).2 = bare l ∧
      (linkSend l type dst payload).2.wire = l.wire ++ copies l (ownFrame l type dst payload) := by
  let f := ownFrame l type dst payload
  obtain ⟨h1, h2⟩ := emitFrame_bare l .up f
  obtain ⟨h3, h4⟩ := emitFrame_bare (emitFrame l .up f).2 .down f
  obtain ⟨hk, hkey, _, _⟩ := emitFrame_same l .up f
  refine ⟨(h3.trans h1 : bare _ = _), h4.trans ?_⟩
  rw [h2, hk, hkey, copies, List.append_assoc]
  split <;> rfl

/-! ## Piece by piece -/

/-- The same frame, but for its sequence number and the client's bits of a HELLO. -/
structure Resembles (f f' : Frame) : Prop where
  type : f.type = f'.type
  ttl : f.ttl = f'.ttl
  src : f.src = f'.src
  dst : f.dst = f'.dst
  payload : maskPayload f.type f.payload = maskPayload f'.type f'.payload

/-- What two boards have put on the chain, `own` and `own'` among it on behalf of their
    clients. The MAC and the CRC of a frame are what its encoding makes them. -/
inductive Matches (own own' : List Frame) : List (Port × List Byte) → List (Port × List Byte) → Prop
  | nil : Matches own own' [] []
  | same {w w'} (piece : Port × List Byte) : Matches own own' w w' → Matches own own' (w ++ [piece]) (w' ++ [piece])
  | twin {w w'} (p : Port) (key : Key) {f f' : Frame} :
    Resembles f f' → Matches own own' w w' → Matches own own' (w ++ [(p, onWire f key)]) (w' ++ [(p, onWire f' key)])
  | left {w w'} (p : Port) (key : Key) {g : Frame} :
    g ∈ own → Matches own own' w w' → Matches own own' (w ++ [(p, onWire g key)]) w'
  | right {w w'} (p : Port) (key : Key) {g : Frame} :
    g ∈ own' → Matches own own' w w' → Matches own own' w (w' ++ [(p, onWire g key)])

namespace Matches

variable {own own' : List Frame} {w w' : List (Port × List Byte)}

theorem append (h : Matches own own' w w') (pieces : List (Port × List Byte)) :
    Matches own own' (w ++ pieces) (w' ++ pieces) := by
  induction pieces using List.reverseRecOn with
  | nil => simpa using h
  | append_singleton l piece ih =>
    rw [← List.append_assoc, ← List.append_assoc]
    exact ih.same piece

theorem symm (h : Matches own own' w w') : Matches own' own w' w := by
  induction h with
  | nil => exact .nil
  | same piece _ ih => exact ih.same piece
  | twin p key hr _ ih => exact ih.twin p key ⟨hr.type.symm, hr.ttl.symm, hr.src.symm, hr.dst.symm, hr.payload.symm⟩
  | left p key hg _ ih => exact ih.right p key hg
  | right p key hg _ ih => exact ih.left p key hg

theorem mono (h : Matches own own' w w') {own₂ : List Frame} (hs : ∀ g ∈ own, g ∈ own₂) : Matches own₂ own' w w' := by
  induction h with
  | nil => exact .nil
  | same piece _ ih => exact ih.same piece
  | twin p key hr _ ih => exact ih.twin p key hr
  | left p key hg _ ih => exact ih.left p key (hs _ hg)
  | right p key hg _ ih => exact ih.right p key hg

end Matches

/-! ## Abreast -/

/-- Two links that have relayed and received the same, and put on the chain what matches. -/
structure Abreast (own own' : List Frame) (l l' : Link) : Prop where
  bare : bare l = bare l'
  wires : Matches own own' l.wire l'.wire

namespace Abreast

variable {own own' : List Frame} {l l' : Link}

theorem symm (h : Abreast own own' l l') : Abreast own' own l' l := ⟨h.bare.symm, h.wires.symm⟩

theorem mono (h : Abreast own own' l l') {own₂ : List Frame} (hs : ∀ g ∈ own, g ∈ own₂) : Abreast own₂ own' l l' :=
  ⟨h.bare, h.wires.mono hs⟩

theorem fields (h : Abreast own own' l l') : l.self = l'.self ∧ l.hasKey = l'.hasKey ∧ l.key = l'.key := by
  have hb := h.bare
  simp only [Client.bare, Link.mk.injEq] at hb
  exact ⟨hb.1, hb.2.2.1, hb.2.1⟩

theorem rxByte (h : Abreast own own' l l') (p : Port) (byte : Byte) (now : Time) :
    Abreast own own' (linkRxByte l p byte now).1 (linkRxByte l' p byte now).1 ∧
      (linkRxByte l p byte now).2 = (linkRxByte l' p byte now).2 := by
  obtain ⟨⟨h1, h2⟩, h3⟩ := linkRxByte_bares l p byte now
  obtain ⟨⟨h1', h2'⟩, h3'⟩ := linkRxByte_bares l' p byte now
  rw [h.bare] at h1 h2 h3
  refine ⟨⟨h1.trans h1'.symm, ?_⟩, h3.trans h3'.symm⟩
  rw [h2, h2']
  exact h.wires.append _

theorem tick (h : Abreast own own' l l') (now : Time) : Abreast own own' (linkTick l now) (linkTick l' now) := by
  obtain ⟨h1, h2⟩ := linkTick_bare l now
  obtain ⟨h1', h2'⟩ := linkTick_bare l' now
  refine ⟨h1.trans ((congrArg (linkTick · now) h.bare).trans h1'.symm), ?_⟩
  rw [h2, h2']
  exact h.wires

theorem setKey (h : Abreast own own' l l') (key : Key) : Abreast own own' (linkSetKey l key) (linkSetKey l' key) :=
  ⟨congrArg (linkSetKey · key) h.bare, h.wires⟩

theorem clearKey (h : Abreast own own' l l') : Abreast own own' (linkClearKey l) (linkClearKey l') :=
  ⟨congrArg linkClearKey h.bare, h.wires⟩

/-- Both send what looks the same. -/
theorem send (h : Abreast own own' l l') (type : MsgType) (dst : Addr) {payload payload' : List Byte}
    (hp : maskPayload type payload = maskPayload type payload') :
    Abreast own own' (linkSend l type dst payload).2 (linkSend l' type dst payload').2 := by
  obtain ⟨h1, h2⟩ := linkSend_bare l type dst payload
  obtain ⟨h1', h2'⟩ := linkSend_bare l' type dst payload'
  obtain ⟨hself, hk, hkey⟩ := h.fields
  have hlen : payload.length = payload'.length := by
    have hm : ∀ b : List Byte, (maskPayload type b).length = b.length := fun b => by
      unfold maskPayload maskHello
      split
      · exact List.length_modify ..
      · rfl
    rw [← hm payload, hp, hm]
  have hr : Resembles (ownFrame l type dst payload) (ownFrame l' type dst payload') := ⟨rfl, rfl, hself, rfl, hp⟩
  refine ⟨h1.trans (h.bare.trans h1'.symm), ?_⟩
  rw [h2, h2', copies, copies, hk, hkey, show (ownFrame l type dst payload).payload.length =
    (ownFrame l' type dst payload').payload.length from hlen, hr.type]
  split
  · rw [List.append_cons, List.append_cons l'.wire]
    exact (h.wires.twin .up l'.key hr).twin .down l'.key hr
  · rw [List.append_nil, List.append_nil]
    exact h.wires

/-- One sends on behalf of its client. -/
theorem sendOne (h : Abreast own own' l l') {type : MsgType} {dst : Addr} {payload : List Byte}
    (hg : ownFrame l type dst payload ∈ own) : Abreast own own' (linkSend l type dst payload).2 l' := by
  obtain ⟨h1, h2⟩ := linkSend_bare l type dst payload
  refine ⟨h1.trans h.bare, ?_⟩
  rw [h2, copies]
  split
  · rw [List.append_cons]
    exact (h.wires.left .up l.key hg).left .down l.key hg
  · rw [List.append_nil]
    exact h.wires

end Abreast

end DeskHop.Client
