/-
  DeskHop.Core.Types — times, addresses and limits (`core/include/dhp/types.h`).

  A time is a 32-bit millisecond counter that wraps. Two times are ordered by the
  sign of their wrapped difference, which agrees with the order of the real times
  they stand for whenever these are less than 2^31 ms apart (`timeAfter_of_le`,
  `timeAfter_of_lt`).
-/

import Mathlib.Data.UInt

namespace DeskHop

abbrev Time := UInt32
abbrev Addr := UInt16
abbrev Uid := UInt64

def timeDiff (a b : Time) : Int := (a - b).toBitVec.toInt

/-- True if `a` is at or after `b`. -/
def timeAfter (a b : Time) : Bool := decide (0 ≤ timeDiff a b)

def addrBroadcast : Addr := 0xFFFF
def addrNone : Addr := 0x0000

def maxBoards : Nat := 16
def maxPayload : Nat := 64

inductive Result where
  | ok
  | inval
  | nospace
  | crc
  | auth
  | replay
  | ttl
  | trunc
  | version
  | again
  | state
  deriving DecidableEq, Repr

inductive Port where
  | up
  | down
  deriving DecidableEq, Repr

/-- The other of the two ports. -/
def Port.other : Port → Port
  | .up => .down
  | .down => .up

/-! ## Wrapped times -/

theorem timeAfter_iff (a b : Time) : timeAfter a b = true ↔ (a - b).toNat < 2 ^ 31 := by
  rw [timeAfter, decide_eq_true_iff, timeDiff, BitVec.toInt_eq_toNat_cond]
  have : (a - b).toBitVec.toNat < 2 ^ 32 := (a - b).toBitVec.isLt
  show _ ↔ (a - b).toBitVec.toNat < 2 ^ 31
  split <;> omega

@[simp] theorem timeAfter_self (a : Time) : timeAfter a a = true := by
  rw [timeAfter_iff, UInt32.sub_self]; decide

theorem ofNat_sub_toNat (t d : Nat) (h : d ≤ t) (hlt : t - d < 2 ^ 32) :
    (UInt32.ofNat t - UInt32.ofNat d).toNat = t - d := by
  rw [UInt32.toNat_sub, UInt32.toNat_ofNat', UInt32.toNat_ofNat']
  omega

/-- The time passed since, if it is less than 2^31 ms. -/
theorem timeDiff_ofNat {t d : Nat} (h : d ≤ t) (hlt : t < d + 2 ^ 31) :
    timeDiff (UInt32.ofNat t) (UInt32.ofNat d) = (t - d : Nat) := by
  have hsub : (UInt32.ofNat t - UInt32.ofNat d).toBitVec.toNat = t - d := ofNat_sub_toNat t d h (by omega)
  rw [timeDiff, BitVec.toInt_eq_toNat_cond, hsub, if_pos (by omega)]

/-- A deadline that has passed by less than 2^31 ms is seen to have passed. -/
theorem timeAfter_of_le {t d : Nat} (h : d ≤ t) (hlt : t < d + 2 ^ 31) :
    timeAfter (UInt32.ofNat t) (UInt32.ofNat d) = true := by
  rw [timeAfter_iff, ofNat_sub_toNat t d h (by omega)]
  omega

/-- A deadline less than 2^31 ms ahead is seen to lie ahead. -/
theorem timeAfter_of_lt {t d : Nat} (h : t < d) (hlt : d ≤ t + 2 ^ 31) :
    timeAfter (UInt32.ofNat t) (UInt32.ofNat d) = false := by
  rw [Bool.eq_false_iff, ne_eq, timeAfter_iff, UInt32.toNat_sub, UInt32.toNat_ofNat', UInt32.toNat_ofNat']
  omega

theorem ofNat_add_toUInt32 (t : Nat) (d : UInt16) : UInt32.ofNat t + d.toUInt32 = UInt32.ofNat (t + d.toNat) := by
  rw [UInt32.ofNat_add]
  congr 1
  apply UInt32.toNat.inj
  rw [UInt16.toNat_toUInt32, UInt32.toNat_ofNat']
  have := d.toNat_lt
  omega

end DeskHop
