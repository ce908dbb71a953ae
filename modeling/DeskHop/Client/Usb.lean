/-
  DeskHop.Client.Usb — what the machine behind a board takes of what it is given
  (`firmware/rp2040/src/hid_bridge.c`).

  Keyboard and mouse have an endpoint each. A report that finds its endpoint busy is
  dropped, and nobody hands it over again. Whether an endpoint is ready is the host's
  doing: here any answer to any call.

  Proved: the host ends up with the last report handed over exactly if the last call that
  found the endpoint ready handed over that report (`last_report_iff`). A release that
  finds the endpoint busy leaves the key down (`release_is_dropped`).
-/

import DeskHop.Client.Firmware

namespace DeskHop.Client

open DeskHop.Routing DeskHop.Wire

/-! ## The endpoints -/

structure BootMouse where
  buttons : UInt8
  x : Int8
  y : Int8
  wheel : Int8
  pan : Int8
  deriving DecidableEq

/-- What the host has taken, oldest first, and how often each endpoint was asked for. -/
structure Usb where
  kbdCalls : Nat
  keyboard : List KbdReport
  mouseCalls : Nat
  mouse : List BootMouse
  deriving DecidableEq

def usbInit : Usb := ⟨0, [], 0, []⟩

/-- Deltas are clamped for the boot-mouse report. -/
def bootDelta (d : Int16) : Int8 := (if d > 127 then (127 : Int16) else if d < -127 then -127 else d).toInt8

def hidBridgeSendKbd (ready : Nat → Bool) (u : Usb) (r : KbdReport) : Usb :=
  let asked := { u with kbdCalls := u.kbdCalls + 1 }
  if !ready u.kbdCalls then asked else { asked with keyboard := u.keyboard ++ [r] }

def hidBridgeSendMouse (ready : Nat → Bool) (u : Usb) (r : MouseReport) : Usb :=
  let asked := { u with mouseCalls := u.mouseCalls + 1 }
  if !ready u.mouseCalls then asked
  else { asked with mouse := u.mouse ++ [⟨r.buttons, bootDelta r.dx, bootDelta r.dy, r.wheel, r.pan⟩] }

/-- `on_kbd` and `on_mouse`, the router's hooks. -/
def onInput (kbdReady mouseReady : Nat → Bool) (u : Usb) : Input → Usb
  | .kbd r => hidBridgeSendKbd kbdReady u r
  | .mouse r => hidBridgeSendMouse mouseReady u r

/-! ## The last of what is taken -/

/-- Of `n` calls, `k` is the last one that found the endpoint ready. -/
structure LastReady (ready : Nat → Bool) (n k : Nat) : Prop where
  lt : k < n
  found : ready k = true
  busy : ∀ j, k < j → j < n → ready j = false

theorem LastReady.snoc {ready : Nat → Bool} {n k : Nat} (hn : ready n = false) :
    LastReady ready (n + 1) k ↔ LastReady ready n k := by
  constructor
  · rintro ⟨hlt, hready, hbusy⟩
    have hne : k ≠ n := by
      rintro rfl
      rw [hn] at hready
      cases hready
    exact ⟨by omega, hready, fun j hkj hj => hbusy j hkj (by omega)⟩
  · rintro ⟨hlt, hready, hbusy⟩
    refine ⟨by omega, hready, fun j hkj hj => ?_⟩
    obtain rfl | hjn : j = n ∨ j < n := by omega
    · exact hn
    · exact hbusy j hkj hjn

theorem lastReady_top {ready : Nat → Bool} {n : Nat} (hn : ready n = true) : LastReady ready (n + 1) n :=
  ⟨by omega, hn, fun j hnj hj => by omega⟩

theorem LastReady.unique {ready : Nat → Bool} {n k m : Nat} (hk : LastReady ready n k) (hm : LastReady ready n m) :
    k = m := by
  have hready := hk.found
  have hready' := hm.found
  by_contra hne
  obtain hlt | hlt : k < m ∨ m < k := by omega
  · rw [hk.busy m hlt hm.lt] at hready'
    cases hready'
  · rw [hm.busy k hlt hk.lt] at hready
    cases hready

theorem kbdCalls_foldl (ready : Nat → Bool) (reports : List KbdReport) (u : Usb) :
    (reports.foldl (hidBridgeSendKbd ready) u).kbdCalls = u.kbdCalls + reports.length := by
  induction reports generalizing u with
  | nil => rfl
  | cons r reports ih =>
    have hone : (hidBridgeSendKbd ready u r).kbdCalls = u.kbdCalls + 1 := by
      unfold hidBridgeSendKbd
      dsimp only
      split <;> rfl
    rw [List.foldl_cons, ih, hone, List.length_cons]
    omega

/-- What the host ends up with was handed over when the endpoint was last ready. -/
theorem keyboard_last (ready : Nat → Bool) (reports : List KbdReport) (r : KbdReport) :
    (reports.foldl (hidBridgeSendKbd ready) usbInit).keyboard.getLast? = some r ↔
      ∃ k, LastReady ready reports.length k ∧ reports[k]? = some r := by
  induction reports using List.reverseRecOn with
  | nil =>
    constructor
    · intro h
      cases h
    · rintro ⟨k, hk, -⟩
      exact absurd hk.lt (Nat.not_lt_zero k)
  | append_singleton reports s ih =>
    have hcalls := kbdCalls_foldl ready reports usbInit
    rw [show usbInit.kbdCalls = 0 from rfl, Nat.zero_add] at hcalls
    rw [List.foldl_append, List.foldl_cons, List.foldl_nil, List.length_append, List.length_singleton,
      hidBridgeSendKbd, hcalls]
    cases hn : ready reports.length with
    | true =>
      have htop : (reports ++ [s])[reports.length]? = some s := by simp
      constructor
      · intro h
        have hs : s = r := by simpa using h
        exact ⟨_, lastReady_top hn, hs ▸ htop⟩
      · rintro ⟨k, hk, hr⟩
        rw [hk.unique (lastReady_top hn), htop] at hr
        simpa using hr
    | false =>
      have hbusy : ∀ k, LastReady ready (reports.length + 1) k ∧ (reports ++ [s])[k]? = some r ↔
          LastReady ready reports.length k ∧ reports[k]? = some r := by
        intro k
        rw [LastReady.snoc hn]
        refine and_congr_right fun hk => ?_
        rw [List.getElem?_append_left hk.lt]
      simp only [Bool.not_false, if_true, hbusy]
      exact ih

theorem keyboard_last_iff (reports : List KbdReport) (ready : Nat → Bool) :
    (reports.foldl (hidBridgeSendKbd ready) usbInit).keyboard.getLast? = reports.getLast? ↔
      reports = [] ∨ ∃ k, LastReady ready reports.length k ∧ reports[k]? = reports.getLast? := by
  cases hlast : reports.getLast? with
  | none =>
    rw [List.getLast?_eq_none_iff] at hlast
    subst hlast
    exact ⟨fun _ => .inl rfl, fun _ => rfl⟩
  | some r =>
    have hne : reports ≠ [] := by
      rintro rfl
      cases hlast
    rw [keyboard_last]
    exact ⟨.inr, fun h => h.resolve_left hne⟩

/-! ## What the router's hooks hand over -/

/-- The keyboard reports of what a machine is given. -/
def kbdReports (inputs : List Input) : List KbdReport :=
  inputs.filterMap fun i => match i with
    | .kbd r => some r
    | .mouse _ => none

/-- The keyboard's endpoint does not notice the mouse's. -/
theorem onInput_keyboard (kbdReady mouseReady : Nat → Bool) (inputs : List Input) (u v : Usb)
    (hcalls : u.kbdCalls = v.kbdCalls) (hkbd : u.keyboard = v.keyboard) :
    (inputs.foldl (onInput kbdReady mouseReady) u).keyboard =
      ((kbdReports inputs).foldl (hidBridgeSendKbd kbdReady) v).keyboard := by
  induction inputs generalizing u v with
  | nil => exact hkbd
  | cons i inputs ih =>
    cases i with
    | kbd r =>
      refine ih _ _ ?_ ?_
      · simp only [onInput, hidBridgeSendKbd, hcalls]
        split <;> rfl
      · simp only [onInput, hidBridgeSendKbd, hcalls]
        split
        · exact hkbd
        · simp only [hkbd]
    | mouse r =>
      refine ih _ _ ?_ ?_
      · simp only [onInput, hidBridgeSendMouse]
        split <;> exact hcalls
      · simp only [onInput, hidBridgeSendMouse]
        split <;> exact hkbd

/-- The host ends up with the last report handed over exactly if the last call that found
    the endpoint ready handed over that report; so too behind a board, whatever its router
    delivers and however the mouse's reports fall in between. -/
theorem last_report_iff (ready : Nat → Bool) :
    (∀ reports : List KbdReport,
      (reports.foldl (hidBridgeSendKbd ready) usbInit).keyboard.getLast? = reports.getLast? ↔
        reports = [] ∨ ∃ k, LastReady ready reports.length k ∧ reports[k]? = reports.getLast?) ∧
    ∀ (mouseReady : Nat → Bool) (d : Firmware),
      (d.delivered.foldl (onInput ready mouseReady) usbInit).keyboard.getLast? = (kbdReports d.delivered).getLast? ↔
        kbdReports d.delivered = [] ∨ ∃ k, LastReady ready (kbdReports d.delivered).length k ∧
          (kbdReports d.delivered)[k]? = (kbdReports d.delivered).getLast? := by
  refine ⟨fun reports => keyboard_last_iff reports ready, fun mouseReady d => ?_⟩
  rw [onInput_keyboard ready mouseReady d.delivered usbInit usbInit rfl rfl]
  exact keyboard_last_iff _ ready

/-! ## A release that finds the endpoint busy -/

/-- The key `a`, held. -/
def aDown : KbdReport := ⟨0, ⟨[4, 0, 0, 0, 0, 0], rfl⟩⟩

/-- Board 2 types on our machine, and then has every board let go. -/
def typedAndReleased : Firmware :=
  ((Firmware.boot 1 0x11 none false 0).route (.rx ⟨msgKbd, ttlDefault, 2, 1, 1, kbdPack aDown, []⟩ .up 10)).route
    (.rx ⟨msgRelease, ttlDefault, 2, addrBroadcast, 2, [], []⟩ .up 11)

theorem typedAndReleased_delivered : typedAndReleased.delivered = [.kbd aDown, .kbd kbdZero, .mouse mouseZero] := by
  decide +kernel

/-- Busy while the release is handed over, and at no other call. -/
def busyOnce (k : Nat) : Bool := k != 1

/-- The release is dropped, and the key stays down. -/
theorem release_is_dropped : ¬ ∀ (reports : List KbdReport) (ready : Nat → Bool), (∃ n, ∀ k, n ≤ k → ready k = true) →
    (reports.foldl (hidBridgeSendKbd ready) usbInit).keyboard.getLast? = reports.getLast? := by
  intro h
  have hready : ∀ k, 2 ≤ k → busyOnce k = true := by
    intro k hk
    rw [busyOnce, bne_iff_ne]
    omega
  have hlast := h (kbdReports typedAndReleased.delivered) busyOnce ⟨2, hready⟩
  rw [typedAndReleased_delivered] at hlast
  exact absurd hlast (by decide)

end DeskHop.Client
