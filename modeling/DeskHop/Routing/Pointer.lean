/-
  DeskHop.Routing.Pointer — pointer crossing by relative dead-reckoning
  (`core/include/dhp/pointer.h`, `core/src/pointer.c`).

  `travel` integrates the motion, clamped to the span; `push` collects motion only
  while the travel is pinned, and bleeds away with time. A push past the threshold is
  a crossing. The 32-bit quantities are integers here.
-/

import DeskHop.Core.Types

namespace DeskHop.Routing

inductive Edge where
  | none
  | left
  | right
  | up
  | down
  deriving DecidableEq, Repr

def Edge.toByte : Edge → UInt8
  | .none => 0
  | .left => 1
  | .right => 2
  | .up => 3
  | .down => 4

structure PointerCfg where
  span : Int
  pushThreshold : Int
  pushDecayPerMs : Int
  reentryGuard : Int
  verticalEnabled : Bool
  deriving DecidableEq, Repr

def pointerCfgDefault : PointerCfg := ⟨8000, 600, 4, 1500, false⟩

structure Pointer where
  cfg : PointerCfg
  travelX : Int
  travelY : Int
  /-- Signed: positive means pushing right. -/
  pushX : Int
  pushY : Int
  lastUpdate : Time
  haveTime : Bool
  deriving DecidableEq, Repr

def clamp (v lo hi : Int) : Int := if v < lo then lo else if v > hi then hi else v

def pointerInit (cfg : PointerCfg) : Pointer :=
  { cfg := if cfg.span ≤ 0 then pointerCfgDefault else cfg, travelX := 0, travelY := 0, pushX := 0, pushY := 0,
    lastUpdate := 0, haveTime := false }

/-- One accumulator, closer to zero by `bleed`. -/
def bleedPush (bleed push : Int) : Int :=
  if push > 0 then (if push > bleed then push - bleed else 0)
  else if push < 0 then (if -push > bleed then push + bleed else 0)
  else push

def decay (p : Pointer) (now : Time) : Pointer :=
  if !p.haveTime then { p with lastUpdate := now, haveTime := true }
  else
    let dt := timeDiff now p.lastUpdate
    let p := { p with lastUpdate := now }
    if dt ≤ 0 then p
    else
      let bleed := dt * p.cfg.pushDecayPerMs
      if bleed ≤ 0 then p else { p with pushX := bleedPush bleed p.pushX, pushY := bleedPush bleed p.pushY }

/-- One axis: -1 for a crossing at the low edge, +1 at the high edge, 0 for none; and
    the new travel and push. -/
def axisFeed (cfg : PointerCfg) (d travel push : Int) : Int × Int × Int :=
  let span := cfg.span
  let before := travel
  let travel := clamp (before + d) (-span) span
  let push :=
    if before ≥ span ∧ d > 0 then push + d
    else if before ≤ -span ∧ d < 0 then push + d
    else if d ≠ 0 then (if (push > 0 ∧ d < 0) ∨ (push < 0 ∧ d > 0) then 0 else push)
    else push
  if push ≥ cfg.pushThreshold then (1, travel, push)
  else if push ≤ -cfg.pushThreshold then (-1, travel, push)
  else (0, travel, push)

def pointerArrive (p : Pointer) (fromEdge : Edge) (now : Time) : Pointer :=
  let span := p.cfg.span
  let guard := p.cfg.reentryGuard
  let p := { p with pushX := 0, pushY := 0, lastUpdate := now, haveTime := true }
  match fromEdge with
  | .right => { p with travelX := -span + guard, travelY := 0 }
  | .left => { p with travelX := span - guard, travelY := 0 }
  | .down => { p with travelY := -span + guard, travelX := 0 }
  | .up => { p with travelY := span - guard, travelX := 0 }
  | .none => { p with travelX := 0, travelY := 0 }

def pointerFeed (p : Pointer) (dx dy : Int16) (now : Time) : Edge × Pointer :=
  let p := decay p now
  let (hx, travelX, pushX) := axisFeed p.cfg dx.toInt p.travelX p.pushX
  let p := { p with travelX := travelX, pushX := pushX }
  if hx > 0 then (.right, pointerArrive p .right now)
  else if hx < 0 then (.left, pointerArrive p .left now)
  else if p.cfg.verticalEnabled then
    let (hy, travelY, pushY) := axisFeed p.cfg dy.toInt p.travelY p.pushY
    let p := { p with travelY := travelY, pushY := pushY }
    if hy > 0 then (.down, pointerArrive p .down now)
    else if hy < 0 then (.up, pointerArrive p .up now)
    else (.none, p)
  else (.none, { p with travelY := clamp (p.travelY + dy.toInt) (-p.cfg.span) p.cfg.span })

end DeskHop.Routing
