/-
  DeskHop.Wire.Relay — relaying is encoding again, with one hop less.

  `relay` does not encode: it counts the hop limit of the body it was given down, repairs
  the CRC and stuffs the body in a loop of its own. What a decoder accepts is the body of
  the frame it returns (`framerPush_ok`), so the two ways come to the same bytes.

  Proved: what a keyed link sends on of an accepted frame is the encoding of the frame with
  one hop less (`relay_reencodes`). By induction over the boards on its way (`Carried`), a
  frame is on the wire after `k` of them as it was sent, but for the hop limit, and the
  board there decodes it (`carried_decodes`); it is relayed fewer times than it has hops.
-/

import DeskHop.Wire.Batch
import DeskHop.Wire.Line

namespace DeskHop.Wire

/-! ## One board -/

/-- What a decoder with a key accepts is the frame of a well-formed body. -/
theorem framerPush_ok {fr : Framer} {b : Byte} {key : Key} {f : Frame} (h : (framerPush fr b (some key)).2 = .ok f) :
    ∃ body, WellFormed (some key) body ∧ f = frameOfBody body := by
  have hfinish := framerPush_finish h
  unfold finish at hfinish
  dsimp only at hfinish
  split at hfinish
  · cases hfinish
  rename_i hlong
  split at hfinish
  · cases hfinish
  rename_i hcrc
  split at hfinish
  · cases hfinish
  rename_i hlen
  split at hfinish
  · cases hfinish
  rename_i hver
  split at hfinish
  · cases hfinish
  rename_i hmac
  obtain rfl := Except.ok.inj hfinish
  simp only [Bool.or_eq_true, decide_eq_true_eq, not_or, not_not] at hlen
  obtain ⟨hpay, hsum⟩ := hlen
  refine ⟨fr.body, ⟨Nat.not_lt.mp hlong, ?_, not_not.mp hcrc, hsum, not_not.mp hver, by simpa using hmac⟩, rfl⟩
  rw [← hsum]
  simp only [bodyMax, frameOverhead]
  omega

/-- An accepted frame that has hops left is its body, decoded. -/
theorem whole_frameOfBody {key : Key} {body : List Byte} (h : WellFormed (some key) body)
    (ht : (frameOfBody body).ttl ≠ 0) : Whole (frameOfBody body) key :=
  ⟨(frameBody_frameOfBody h ht).symm, payload_frameOfBody h, ht⟩

/-- A body without a hop left is not sent on. -/
theorem relay_spent (l : Link) (p : Port) {body : List Byte} (h : (frameOfBody body).ttl = 0) :
    (relay l p (frameOfBody body)).wire = l.wire := by
  have hprep : ∃ e, frameForwardPrepare body = .error e := by
    unfold frameForwardPrepare
    by_cases hlong : body.length < frameOverhead
    · exact ⟨_, if_pos hlong⟩
    · exact ⟨_, (if_neg hlong).trans (if_pos h)⟩
  obtain ⟨e, he⟩ := hprep
  have hbody : frameForwardPrepare (frameOfBody body).body = .error e := he
  simp only [relay, hbody]
  split <;> rfl

theorem accept_spent (l : Link) (p : Port) {body : List Byte} (h : (frameOfBody body).ttl = 0) :
    (accept l p (frameOfBody body)).1.wire = l.wire := by
  unfold accept
  split
  · rfl
  split
  · rfl
  obtain ⟨fresh, seen⟩ := seqIsFresh l.seen (frameOfBody body).src (frameOfBody body).seq
  cases fresh with
  | false => rfl
  | true =>
    by_cases hd : (frameOfBody body).dst = l.self
    · simp [hd]
    · simp [hd, relay_spent { l with seen := seen } p h]

/-- Of a frame that a keyed link accepts and that is for another board, it sends on the
    encoding with one hop less, or nothing when there is none left. -/
theorem relay_reencodes {l : Link} {p : Port} {b : Byte} {f : Frame} (hk : l.hasKey = true)
    (h : (framerPush (l.port p).framer b (some l.key)).2 = .ok f) (hs : f.src ≠ l.self) (hf : fresh l.station f = true)
    (hd : f.dst ≠ l.self) (now : Time) :
    (2 ≤ f.ttl → ∃ w, frameEncode { f with ttl := f.ttl - 1 } l.key wireMax = .ok w ∧
        (linkRxByte l p b now).1.wire = l.wire ++ [(p.other, w)]) ∧
      (f.ttl ≤ 1 → (linkRxByte l p b now).1.wire = l.wire) := by
  obtain ⟨body, hw, rfl⟩ := framerPush_ok h
  by_cases ht : (frameOfBody body).ttl = 0
  · refine ⟨fun h2 => ?_, fun _ => ?_⟩
    · rw [ht] at h2
      exact absurd h2 (by decide)
    · unfold linkRxByte
      rw [if_pos hk]
      simp only [h]
      rw [accept_spent _ p ht, setPort_wire, setPort_wire]
  · obtain ⟨-, -, -, hwire, -⟩ := linkRxByte_frame hk h (whole_frameOfBody hw ht) now
    have honward : (hear l.station (frameOfBody body)).onward = oneHopLess (frameOfBody body) :=
      (@hear_fresh l.station _ hs hf).2.trans (if_pos hd)
    rw [hwire, honward]
    refine ⟨fun h2 => ?_, fun h1 => ?_⟩
    · have htwo : 1 < (frameOfBody body).ttl.toNat := UInt8.le_iff_toNat_le.mp h2
      have htype : (frameOfBody body).type ≤ 0x0F := UInt8.and_le_right
      have henc := frameEncode_ok { frameOfBody body with ttl := (frameOfBody body).ttl - 1 } l.key
        (payload_frameOfBody hw) htype
      exact ⟨_, henc, by rw [(oneHopLess_some htwo).1]; rfl⟩
    · rw [oneHopLess, if_pos h1]
      exact List.append_nil _

/-! ## One board after another -/

/-- The last byte of `w` gets to a keyed link whose decoder has been fed the others. -/
structure Closing (key : Key) (w : List Byte) (l : Link) (p : Port) (b : Byte) : Prop where
  keyed : l.hasKey = true ∧ l.key = key
  fed : ∃ fr init, w = init ++ [b] ∧ (l.port p).framer = (feed (some key) fr init).1

/-- On a wire after `k` boards have relayed `f`, each in whatever state it was. -/
inductive Carried (key : Key) (f : Frame) : Nat → List Byte → Prop
  | sent {w : List Byte} : frameEncode f key wireMax = .ok w → Carried key f 0 w
  | relayed {k : Nat} {w w' : List Byte} {l : Link} {p : Port} {b : Byte} (now : Time) : Carried key f k w →
      Closing key w l p b → (linkRxByte l p b now).1.wire = l.wire ++ [(p.other, w')] → Carried key f (k + 1) w'

/-- The frame with `k` hops less. -/
def hopsLess (k : Nat) (f : Frame) : Frame := { f with ttl := UInt8.ofNat (f.ttl.toNat - k) }

theorem hopsLess_zero (f : Frame) : hopsLess 0 f = f := by
  show Frame.mk _ (UInt8.ofNat f.ttl.toNat) _ _ _ _ _ = f
  rw [UInt8.ofNat_toNat]

theorem hopsLess_ttl (k : Nat) (f : Frame) : (hopsLess k f).ttl.toNat = f.ttl.toNat - k := by
  have := f.ttl.toNat_lt
  exact UInt8.toNat_ofNat_of_lt' (show f.ttl.toNat - k < 2 ^ 8 by omega)

theorem hopsLess_succ {k : Nat} {f : Frame} (h : k < f.ttl.toNat) :
    (hopsLess k f).ttl - 1 = (hopsLess (k + 1) f).ttl := by
  have hone : (1 : UInt8).toNat = 1 := rfl
  have hk := hopsLess_ttl k f
  refine UInt8.toNat_inj.mp ?_
  rw [UInt8.toNat_sub_of_le _ _ (UInt8.le_iff_toNat_le.mpr (by omega)), hk, hopsLess_ttl]
  omega

theorem hopsLess_ne_zero {k : Nat} {f : Frame} (h : k < f.ttl.toNat) : (hopsLess k f).ttl ≠ 0 := by
  intro he
  have hk := hopsLess_ttl k f
  rw [he] at hk
  have hz : (0 : UInt8).toNat = 0 := rfl
  omega

/-- On the last byte the decoder returns the frame. -/
theorem Closing.decodes {key : Key} {f : Frame} {l : Link} {p : Port} {b : Byte} (h : Closing key (onWire f key) l p b)
    (ht : f.type ≤ 0x0F) (hp : f.payload.length ≤ maxPayload) :
    (framerPush (l.port p).framer b (some l.key)).2 = .ok (decoded f key) := by
  obtain ⟨⟨-, hkey⟩, fr, init, hbytes, hfed⟩ := h
  have hres := (feed_onWire fr key ht hp).2
  have hsnoc := congrArg Prod.snd (feed_snoc (some key) fr init b)
  rw [hkey, hfed]
  rw [hbytes, hsnoc] at hres
  exact List.singleton_inj.mp (List.append_inj' hres rfl).2

theorem frameEncode_some {f : Frame} {key : Key} {w : List Byte} (h : frameEncode f key wireMax = .ok w) :
    (f.type ≤ 0x0F ∧ f.payload.length ≤ maxPayload) ∧ w = onWire f key := by
  by_cases hp : f.payload.length > maxPayload
  · rw [frameEncode, if_pos hp] at h
    cases h
  by_cases ht : f.type > 0x0F
  · rw [frameEncode, if_neg hp, if_pos ht] at h
    cases h
  have hfit : f.type ≤ 0x0F ∧ f.payload.length ≤ maxPayload := ⟨UInt8.not_lt.mp ht, Nat.not_lt.mp hp⟩
  rw [frameEncode_ok f key hfit.2 hfit.1] at h
  exact ⟨hfit, (Except.ok.inj h).symm⟩

/-- What a wire carries after `k` relays is the frame with `k` hops less, encoded. -/
theorem carried_onWire {key : Key} {f : Frame} (ht : f.ttl ≠ 0) {k : Nat} {w : List Byte} (h : Carried key f k w) :
    (f.type ≤ 0x0F ∧ f.payload.length ≤ maxPayload) ∧ k < f.ttl.toNat ∧ w = onWire (hopsLess k f) key := by
  induction h with
  | sent h =>
    obtain ⟨hfit, hw⟩ := frameEncode_some h
    rw [hopsLess_zero]
    exact ⟨hfit, Nat.pos_of_ne_zero fun he => ht (UInt8.toNat_inj.mp he), hw⟩
  | @relayed k w w' l p b now _ hclose hwire ih =>
    obtain ⟨hfit, hk, rfl⟩ := ih
    have hne := hopsLess_ne_zero hk
    have hdec := hclose.decodes (f := hopsLess k f) hfit.1 hfit.2
    have hwhole : Whole (decoded (hopsLess k f) key) l.key := by
      rw [hclose.keyed.2]
      exact whole_decoded key hne hfit.2
    obtain ⟨-, -, -, hsent, -⟩ := linkRxByte_frame hclose.keyed.1 hdec hwhole now
    rw [hwire] at hsent
    have honward := List.append_cancel_left hsent
    -- what was sent on is the frame that was heard, with one hop less
    cases ho : (hear l.station (decoded (hopsLess k f) key)).onward with
    | none =>
      rw [ho] at honward
      cases honward
    | some g =>
      obtain ⟨-, hhops, rfl⟩ := Row.hear_onward ho
      rw [ho] at honward
      obtain ⟨hw, -⟩ := List.cons.inj honward
      have httl : (decoded (hopsLess k f) key).ttl = (hopsLess k f).ttl := if_pos hne
      rw [httl, hopsLess_ttl] at hhops
      refine ⟨hfit, by omega, (Prod.mk.inj hw).2.trans ?_⟩
      rw [httl, hopsLess_succ hk, hclose.keyed.2]
      rfl

/-- After `k` relays a keyed board decodes the frame as it was sent, with `k` hops less
    and under a MAC that is valid; one that it is neither from nor for sends it on, as long
    as there is a hop left. -/
theorem carried_decodes {key : Key} {f : Frame} (ht : f.ttl ≠ 0) {k : Nat} {w : List Byte} (h : Carried key f k w) :
    k < f.ttl.toNat ∧ ∀ l p b, Closing key w l p b →
      (∃ body, (framerPush (l.port p).framer b (some l.key)).2 =
          .ok { f with ttl := UInt8.ofNat (f.ttl.toNat - k), body := body } ∧ frameMacValid body key = true) ∧
        (f.src ≠ l.self → fresh l.station f = true → f.dst ≠ l.self → k + 1 < f.ttl.toNat → ∀ now,
          ∃ w', (linkRxByte l p b now).1.wire = l.wire ++ [(p.other, w')]) := by
  obtain ⟨hfit, hk, rfl⟩ := carried_onWire ht h
  refine ⟨hk, fun l p b hclose => ?_⟩
  have hdec := hclose.decodes (f := hopsLess k f) hfit.1 hfit.2
  have hsame : decoded (hopsLess k f) key =
      { f with ttl := UInt8.ofNat (f.ttl.toNat - k), body := frameBody (hopsLess k f) key } := by
    rw [decoded, if_pos (hopsLess_ne_zero hk)]
    rfl
  rw [hsame] at hdec
  refine ⟨⟨_, hdec, frameMacValid_body _ key⟩, fun hs hf hd hmore now => ?_⟩
  have htwo : 2 ≤ (hopsLess k f).ttl := by
    rw [UInt8.le_iff_toNat_le, hopsLess_ttl]
    exact Nat.le_sub_of_add_le' hmore
  obtain ⟨w', -, hwire⟩ := (relay_reencodes hclose.keyed.1 hdec hs hf hd now).1 htwo
  exact ⟨w', hwire⟩

end DeskHop.Wire
