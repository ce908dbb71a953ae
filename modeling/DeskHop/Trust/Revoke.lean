/-
  DeskHop.Trust.Revoke — revoking a pairing revokes the key.

  A run is a chain board, or a coordinator, from boot on: bytes from the chain, the
  buttons or the `pair` command, ticks, drains, and whatever else the loop sends.
  Beside the node it records the credentials (link key, paired flag, stored key) it
  had when the exchange in hand began (`Tenant`).

  Proved, for every run in which no message that tears down a completed exchange
  arrives once the drain has installed its key (`torn_down_leaves_no_key`): whenever
  the machine is aborted, the node has the credentials of before the exchange.

  The drain installs the key of a completed exchange and never takes one away; so a
  message that aborts the exchange later leaves the key, the flag and the stored copy
  (`torn_down_key_stays`).
-/

import DeskHop.Lib.Reach
import DeskHop.Trust.MainLoop

namespace DeskHop.Trust

open DeskHop.Lib DeskHop.Wire

structure Credentials where
  hasKey : Bool
  key : Key
  paired : Bool
  stored : Option Key
  deriving DecidableEq

def Node.credentials {π : Type} (n : Node π) : Credentials := ⟨n.link.hasKey, n.link.key, n.paired, n.stored⟩

/-- The drain has installed the key of the completed exchange. -/
def Node.installed {π : Type} (n : Node π) : Bool := n.pair.state == .done && !n.pair.ev.completed

structure Tenant (π : Type) where
  node : Node π
  /-- The credentials of before the exchange. -/
  before : Credentials
  deriving DecidableEq

/-- An aborted exchange has left nothing behind. -/
def Tenant.Revoked {π : Type} (t : Tenant π) : Prop := t.node.pair.state = .aborted → t.node.credentials = t.before

theorem Tenant.Revoked.key {π : Type} {t : Tenant π} (h : t.Revoked) (hab : t.node.pair.state = .aborted) :
    t.node.link.key = t.before.key := congrArg Credentials.key (h hab)

variable (c : Crypto)

/-! ## The part the two loops share -/

namespace Node

variable {π : Type}

/-- The pairing message a byte completes, if it does. -/
def pairing (n : Node π) (p : Port) (b : Byte) (now : Time) : Option (List Byte) :=
  match (linkRxByte n.link p b now).2 with
  | .ok f => if f.type = msgPair then some f.payload else none
  | .error _ => none

/-- Nothing tears the exchange down whose key is installed. -/
def Settled (n : Node π) : Common → Prop
  | .byte p b now => n.installed = true → (n.pairing p b now).any (fun m => tearsDown n.pair m now) = false
  | _ => True

instance (n : Node π) (e : Common) : Decidable (Settled n e) := by
  unfold Settled
  cases e <;> infer_instance

end Node

/-! ## The two loops -/

namespace Board

/-- An exchange begins, or is forgotten, with the credentials of that moment. -/
def before (t : Tenant ErrorLed) : Event → Credentials
  | .pairButton _ _ => if t.node.pair.state ≠ .waiting then t.node.credentials else t.before
  | .unpairButton now => (unpairButton t.node now).credentials
  | _ => t.before

def step (t : Tenant ErrorLed) (e : Event) : Tenant ErrorLed := ⟨act c t.node e, before t e⟩

def Booted (t : Tenant ErrorLed) : Prop :=
  ∃ self uid stored panel, t = ⟨Node.boot self uid stored panel, (Node.boot self uid stored panel).credentials⟩

def Settled (t : Tenant ErrorLed) : Event → Prop
  | .common e => t.node.Settled e
  | _ => True

instance (t : Tenant ErrorLed) (e : Event) : Decidable (Settled t e) := by
  unfold Settled
  cases e <;> infer_instance

end Board

namespace Coord

def before (t : Tenant Panel) : Event → Credentials
  | .startPairing _ _ => t.node.credentials
  | _ => t.before

def step (t : Tenant Panel) (e : Event) : Tenant Panel := ⟨act c t.node e, before t e⟩

def Booted (t : Tenant Panel) : Prop :=
  ∃ self uid stored panel, t = ⟨Node.boot self uid stored panel, (Node.boot self uid stored panel).credentials⟩

def Settled (t : Tenant Panel) : Event → Prop
  | .common e => t.node.Settled e
  | _ => True

end Coord

/-! ## Credentials change hands only in the drain -/

section

variable {π : Type}

theorem Node.step_credentials (n : Node π) (e : Common) : (n.step c e).credentials = n.credentials := by
  have key {n' : Node π} (hk : n'.link.hasKey = n.link.hasKey) (hkey : n'.link.key = n.link.key)
      (hp : n'.paired = n.paired) (hs : n'.stored = n.stored) : n'.credentials = n.credentials := by
    rw [credentials, hk, hkey, hp, hs]
    rfl
  cases e with
  | byte p b now =>
    have h := linkRxByte_same n.link p b now
    simp only [step, rxByte]
    split
    · exact key h.1 h.2.1 rfl rfl
    · split
      · exact key h.1 h.2.1 rfl rfl
      · exact key h.1 h.2.1 rfl rfl
  | tick now => rfl
  | send type dst payload => exact key (linkSend_same _ _ _ _).1 (linkSend_same _ _ _ _).2.1 rfl rfl
  | linkTick now => exact key (linkTick_same _ _).1 (linkTick_same _ _).2.1 rfl rfl

/-- An installed key keeps its exchange, unless a message tears that down. -/
theorem Node.step_installed {n : Node π} (hi : n.installed = true) {e : Common} (hok : n.Settled e) :
    (n.step c e).installed = true := by
  have hst : n.pair.state = .done ∧ n.pair.ev.completed = false := by simpa [installed] using hi
  have key {n' : Node π} (h : n'.pair = n.pair) : n'.installed = true := by
    rw [installed, h]
    exact hi
  cases e with
  | byte p b now =>
    have ht := hok hi
    simp only [pairing] at ht
    simp only [step, rxByte]
    split
    · exact key rfl
    · rename_i f hf
      split
      · rename_i hty
        simp only [hf, if_pos hty, Option.any_some] at ht
        obtain ⟨confirmed, hd⟩ := pairRx_done c hst.1 ht
        simp [installed, hd, hst.1, hst.2]
      · exact key rfl
  | tick now => exact key (pairTick_done hst.1 now)
  | send type dst payload => exact key rfl
  | linkTick now => exact key rfl

end

/-! ## The key is installed, or nothing has changed -/

/-- Until the drain has installed the key, the credentials are those of before. -/
def Tenant.Inv {π : Type} (t : Tenant π) : Prop := t.node.installed = true ∨ t.node.credentials = t.before

theorem Tenant.Inv.revoked {π : Type} {t : Tenant π} (h : t.Inv) : t.Revoked := by
  intro hab
  refine h.resolve_left fun hi => ?_
  rw [Node.installed, hab] at hi
  cases hi

theorem common_inv {π : Type} {t : Tenant π} (hi : t.Inv) {e : Common} (hok : t.node.Settled e) :
    Tenant.Inv ⟨t.node.step c e, t.before⟩ := by
  rcases hi with hi | hi
  · exact Or.inl (Node.step_installed c hi hok)
  · exact Or.inr ((Node.step_credentials c t.node e).trans hi)

/-- A drain either finds the exchange completed, and then has installed its key, or
    touches no credentials. -/
theorem drain_inv {π : Type} {t : Tenant π} (hi : t.Inv) {n : Node π}
    (hpair : n.pair = (pairTakeEvents t.node.pair).2)
    (hcred : t.node.pair.state ≠ .done → n.credentials = t.node.credentials) : Tenant.Inv ⟨n, t.before⟩ := by
  by_cases hd : t.node.pair.state = .done
  · refine Or.inl ?_
    rw [Node.installed, hpair]
    simp [pairTakeEvents, PairEvents.clear, hd]
  · refine Or.inr ((hcred hd).trans (hi.resolve_left fun h => ?_))
    rw [Node.installed, Bool.and_eq_true, beq_iff_eq] at h
    exact hd h.1

namespace Board

theorem pairingDrain_pair (b : Board) (now : Time) : (pairingDrain c b now).pair = (pairTakeEvents b.pair).2 := by
  simp only [pairingDrain]
  repeat' split
  all_goals rfl

theorem pairingDrain_credentials {b : Board} (h : b.pair.state ≠ .done) (now : Time) :
    (pairingDrain c b now).credentials = b.credentials := by
  have hk := answer_same c b.link (pairTakeEvents b.pair).2 (pairTakeEvents b.pair).1
  have hnone : pairChainKey (pairTakeEvents b.pair).2 = none := if_neg h
  have hdrained : (pairingDrain c b now).link = answer c b.link (pairTakeEvents b.pair).2 (pairTakeEvents b.pair).1 ∧
      (pairingDrain c b now).paired = b.paired ∧ (pairingDrain c b now).stored = b.stored := by
    simp only [pairingDrain]
    by_cases ha : (pairTakeEvents b.pair).1.sendAbort = true <;>
      by_cases hc : (pairTakeEvents b.pair).1.completed = true <;> simp [ha, hc, hnone]
  rw [Node.credentials, hdrained.1, hk.1, hk.2, hdrained.2.1, hdrained.2.2]
  rfl

theorem step_inv {t : Tenant ErrorLed} (hi : t.Inv) {e : Event} (hok : Settled t e) : (step c t e).Inv := by
  cases e with
  | common e => exact common_inv c hi hok
  | drain now => exact drain_inv hi (pairingDrain_pair c _ now) fun h => pairingDrain_credentials c h now
  | pairButton now fresh =>
    show Tenant.Inv ⟨pairButton t.node now fresh, if t.node.pair.state ≠ .waiting then t.node.credentials else t.before⟩
    by_cases hw : t.node.pair.state ≠ .waiting
    · rw [pairButton, if_pos hw, if_pos hw]
      exact Or.inr rfl
    · rw [pairButton, if_neg hw, if_neg hw]
      exact hi
  | unpairButton now => exact Or.inr rfl

end Board

namespace Coord

theorem pairingDrain_pair (n : Coord) (now : Time) (saved : Bool) :
    (pairingDrain c n now saved).pair = (pairTakeEvents n.pair).2 := by
  simp only [pairingDrain, notice]
  repeat' split
  all_goals rfl

theorem pairingDrain_credentials {n : Coord} (h : n.pair.state ≠ .done) (now : Time) (saved : Bool) :
    (pairingDrain c n now saved).credentials = n.credentials := by
  have hk := answer_same c n.link (pairTakeEvents n.pair).2 (pairTakeEvents n.pair).1
  have hnone : pairChainKey (pairTakeEvents n.pair).2 = none := if_neg h
  have hdrained : (pairingDrain c n now saved).link =
        answer c n.link (pairTakeEvents n.pair).2 (pairTakeEvents n.pair).1 ∧
      (pairingDrain c n now saved).paired = n.paired ∧ (pairingDrain c n now saved).stored = n.stored := by
    simp only [pairingDrain, notice]
    by_cases hs : (pairTakeEvents n.pair).1.sendConfirm = true <;>
      by_cases ha : (pairTakeEvents n.pair).1.sendAbort = true <;>
      by_cases hc : (pairTakeEvents n.pair).1.completed = true <;> simp [hs, ha, hc, hnone]
  rw [Node.credentials, hdrained.1, hk.1, hk.2, hdrained.2.1, hdrained.2.2]
  rfl

theorem step_inv {t : Tenant Panel} (hi : t.Inv) {e : Event} (hok : Settled t e) : (step c t e).Inv := by
  cases e with
  | common e => exact common_inv c hi hok
  | drain now saved =>
    exact drain_inv hi (pairingDrain_pair c _ now saved) fun h => pairingDrain_credentials c h now saved
  | startPairing now fresh => exact Or.inr rfl

end Coord

/-- An aborted exchange has left neither a link key nor a paired flag nor a stored key,
    on a chain board and on a coordinator, unless a message tore it down after the drain
    had installed its key. -/
theorem torn_down_leaves_no_key :
    (∀ t, Reach Board.Booted Board.Settled (Board.step c) t → t.Revoked) ∧
      ∀ t, Reach Coord.Booted Coord.Settled (Coord.step c) t → t.Revoked := by
  constructor
  · intro t h
    have hi : t.Inv := by
      refine h.inv (fun t h0 => ?_) fun _ _ hi hok => Board.step_inv c hi hok
      obtain ⟨self, uid, stored, panel, rfl⟩ := h0
      exact Or.inr rfl
    exact hi.revoked
  · intro t h
    have hi : t.Inv := by
      refine h.inv (fun t h0 => ?_) fun _ _ hi hok => Coord.step_inv c hi hok
      obtain ⟨self, uid, stored, panel, rfl⟩ := h0
      exact Or.inr rfl
    exact hi.revoked

/-! ## Two runs -/

def sampleKey : Key := ⟨(List.range 16).map UInt8.ofNat, rfl⟩

/-- A pairing message of board `src`, as it stands on the wire under `key`. -/
def pairFrame (src : Addr) (seq : UInt16) (payload : List Byte) (key : Key) : List Byte :=
  match frameEncode ⟨msgPair, ttlDefault, src, addrBroadcast, seq, payload, []⟩ key wireMax with
  | .ok w => w
  | .error _ => []

def presented (w : List Byte) (now : Time) : List Board.Event := w.map fun b => .common (.byte .up b now)

def sampleBoard : Tenant ErrorLed :=
  let b := Node.boot 1 0x1111 (some sampleKey) ⟨0, false⟩
  ⟨b, b.credentials⟩

theorem sampleBoard_booted : Board.Booted sampleBoard := ⟨1, 0x1111, some sampleKey, ⟨0, false⟩, rfl⟩

/-- The button, and nobody answers. -/
def lonely : List Board.Event :=
  [.pairButton 1000 (mockFresh 1), .drain 1000, .common (.tick 31000), .drain 31000]

theorem torn_down_leaves_no_key_of_lonely_board :
    (lonely.foldl (Board.step mockCrypto) sampleBoard).node.credentials = sampleBoard.node.credentials :=
  (torn_down_leaves_no_key mockCrypto).1 _ (Reach.run (.init sampleBoard_booted) lonely (by decide +kernel))
    (by decide +kernel)

/-- The key boards 1 and 2 derive. -/
def agreedKey : Key := (pairRx mockCrypto (sample 0x1111 1) (sampleOffer 0x2222 2) 1000).chainKey

/-- The pairing completes and its key is installed; later board 2, keyed as well, aborts
    an exchange of its own. -/
def lateAbort : List Board.Event :=
  [.pairButton 1000 (mockFresh 1), .drain 1000] ++
    presented (pairFrame 2 0 (sampleOffer 0x2222 2) sampleKey) 1001 ++
    presented (pairFrame 2 1 (sampleConfirm 0x2222 2 (sampleOffer 0x1111 1)) sampleKey) 1002 ++ [.drain 1003] ++
    presented (pairFrame 2 2 [pairAbort, PairAbort.timeout.code] agreedKey) 40000 ++ [.drain 40000]

set_option maxRecDepth 8000 in
theorem torn_down_key_stays :
    ¬ ∀ (c : Crypto) (t : Tenant ErrorLed), Reach Board.Booted (fun _ _ => True) (Board.step c) t → t.Revoked := by
  intro h
  have hr : Reach Board.Booted (fun _ _ => True) (Board.step mockCrypto)
      (lateAbort.foldl (Board.step mockCrypto) sampleBoard) :=
    Reach.run_free (fun _ _ => trivial) (.init sampleBoard_booted) lateAbort
  have hend : (lateAbort.foldl (Board.step mockCrypto) sampleBoard).node.pair.state = .aborted ∧
      (lateAbort.foldl (Board.step mockCrypto) sampleBoard).node.link.key = agreedKey ∧
      (lateAbort.foldl (Board.step mockCrypto) sampleBoard).before.key = sampleKey := by decide +kernel
  have hkey := (h mockCrypto _ hr).key hend.1
  rw [hend.2.1, hend.2.2] at hkey
  exact absurd hkey (by decide +kernel)

end DeskHop.Trust
