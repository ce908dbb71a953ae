/-
  DeskHop.Chain.Config — the coordinator's configuration (`coordinator/src/config.h`,
  `coordinator/src/config.c`): its defaults, and one key set from a string, as the file
  and the control socket do it.
-/

import DeskHop.Election.Uhrp
import DeskHop.Routing.Pointer
import DeskHop.Trust.MainLoop

namespace DeskHop.Chain

open DeskHop.Election DeskHop.Routing

structure CoordConfig where
  serialDev : String
  linkBaud : UInt32
  /-- The coordinator is at the head of the chain, not the tail. -/
  atHead : Bool
  i2cDev : String
  i2cAddr : UInt8
  headless : Bool
  timing : Timing
  pointer : PointerCfg
  keyPath : String
  ctlPath : String
  deriving DecidableEq, Repr

def coordConfigDefaults : CoordConfig :=
  { serialDev := "/dev/serial0", linkBaud := 2000000, atHead := false
    i2cDev := "/dev/i2c-1", i2cAddr := 0x3C, headless := false
    timing := timingDefault, pointer := pointerCfgDefault
    keyPath := "/var/lib/deskhop/chain.key", ctlPath := "/run/deskhop-coord.sock" }

/-! ## Strings to values -/

/-- `snprintf` into `cap` bytes. -/
def printed (cap : Nat) (s : String) : String := String.ofList (s.toList.take (cap - 1))

def isSpace (ch : Char) : Bool := ch == ' ' || (9 ≤ ch.toNat && ch.toNat ≤ 13)

/-- The value of a digit or letter, in any base. -/
def digitOf (ch : Char) : Option Nat :=
  if '0' ≤ ch && ch ≤ '9' then some (ch.toNat - 48)
  else if 'a' ≤ ch && ch ≤ 'z' then some (ch.toNat - 87)
  else if 'A' ≤ ch && ch ≤ 'Z' then some (ch.toNat - 55)
  else none

def digitIn (base : Nat) (ch : Char) : Bool := (digitOf ch).any (· < base)

def valueIn (base : Nat) (ds : List Char) : Nat := ds.foldl (fun v ch => v * base + (digitOf ch).getD 0) 0

def longMax : Int := 2 ^ 63 - 1
def longMin : Int := -2 ^ 63

/-- `strtol` in base 0: the value, and what is left behind it. -/
def strtol (s : List Char) : Int × List Char :=
  let body := s.dropWhile isSpace
  let (negative, body) := match body with
    | '-' :: rest => (true, rest)
    | '+' :: rest => (false, rest)
    | _ => (false, body)
  let (base, ds) := match body with
    | '0' :: 'x' :: ch :: rest => if digitIn 16 ch then (16, ch :: rest) else (8, body)
    | '0' :: 'X' :: ch :: rest => if digitIn 16 ch then (16, ch :: rest) else (8, body)
    | '0' :: _ => (8, body)
    | _ => (10, body)
  let number := ds.takeWhile (digitIn base)
  if number = [] then (0, s)
  else
    let v : Int := valueIn base number
    (max longMin (min longMax (if negative then -v else v)), ds.dropWhile (digitIn base))

/-- Case does not count in the words. -/
def parseBool (v : String) : Option Bool :=
  let w := v.map Char.toLower
  if v = "1" || w = "true" || w = "yes" then some true
  else if v = "0" || w = "false" || w = "no" then some false
  else none

/-! ## One key -/

def u32Key (name : String) (lo hi : Int) (value : String) : Except String Int :=
  let (v, rest) := strtol value.toList
  if rest ≠ [] ∨ v < lo ∨ v > hi then .error (name ++ " must be " ++ toString lo ++ ".." ++ toString hi) else .ok v

def boolKey (name value : String) : Except String Bool :=
  match parseBool value with
  | some b => .ok b
  | none => .error (name ++ " must be true or false")

def coordConfigSet (c : CoordConfig) (key value : String) : Except String CoordConfig :=
  if key = "serial_dev" then .ok { c with serialDev := printed 128 value }
  else if key = "i2c_dev" then .ok { c with i2cDev := printed 128 value }
  else if key = "key_path" then .ok { c with keyPath := printed 256 value }
  else if key = "ctl_path" then .ok { c with ctlPath := printed 256 value }
  else if key = "link_baud" then
    (u32Key key 115200 4000000 value).map fun v => { c with linkBaud := UInt32.ofInt v }
  else if key = "i2c_addr" then (u32Key key 0x03 0x77 value).map fun v => { c with i2cAddr := UInt8.ofInt v }
  else if key = "at_head" then (boolKey key value).map fun b => { c with atHead := b }
  else if key = "headless" then (boolKey key value).map fun b => { c with headless := b }
  else if key = "hello_ms" then
    (u32Key key 10 1000 value).map fun v => { c with timing := { c.timing with helloMs := UInt16.ofInt v } }
  else if key = "hold_ms" then
    (u32Key key 30 3000 value).map fun v => { c with timing := { c.timing with holdMs := UInt16.ofInt v } }
  else if key = "handover_defer_max_ms" then
    (u32Key key 100 30000 value).map fun v => { c with timing := { c.timing with handoverDeferMaxMs := UInt16.ofInt v } }
  else if key = "pointer_span" then
    (u32Key key 500 100000 value).map fun v => { c with pointer := { c.pointer with span := v } }
  else if key = "pointer_push" then
    (u32Key key 50 10000 value).map fun v => { c with pointer := { c.pointer with pushThreshold := v } }
  else if key = "pointer_decay" then
    (u32Key key 0 100 value).map fun v => { c with pointer := { c.pointer with pushDecayPerMs := v } }
  else if key = "pointer_guard" then
    (u32Key key 0 50000 value).map fun v => { c with pointer := { c.pointer with reentryGuard := v } }
  else if key = "pointer_vertical" then
    (boolKey key value).map fun b => { c with pointer := { c.pointer with verticalEnabled := b } }
  else .error ("unknown key '" ++ key ++ "'")

/-! ## The configurations there are -/

/-- Reachable from the defaults by successful settings. -/
inductive Configurable : CoordConfig → Prop
  | defaults : Configurable coordConfigDefaults
  | set {c c' : CoordConfig} {key value : String} : Configurable c → coordConfigSet c key value = .ok c' →
      Configurable c'

theorem u32Key_range {name value : String} {lo hi v : Int} (h : u32Key name lo hi value = .ok v) : lo ≤ v ∧ v ≤ hi := by
  unfold u32Key at h
  dsimp only at h
  split at h
  · cases h
  · rename_i hin
    cases h
    omega

/-- What a setting gives, if it gives anything. -/
def Yields (P : CoordConfig → Prop) (x : Except String CoordConfig) : Prop := ∀ c', x = .ok c' → P c'

section

variable {P : CoordConfig → Prop}

theorem yields_ite {p : Prop} [Decidable p] {x y : Except String CoordConfig} (hx : Yields P x) (hy : Yields P y) :
    Yields P (if p then x else y) := by
  split
  · exact hx
  · exact hy

theorem yields_ok {c : CoordConfig} (h : P c) : Yields P (.ok c) := fun _ he => Except.ok.inj he ▸ h

theorem yields_error {e : String} : Yields P (.error e) := fun _ he => (by cases he)

theorem yields_map {α : Type} {x : Except String α} {f : α → CoordConfig} (h : ∀ a, x = .ok a → P (f a)) :
    Yields P (x.map f) := by
  intro c' he
  cases x with
  | error e => cases he
  | ok a => exact Except.ok.inj he ▸ h a rfl

end

end DeskHop.Chain
