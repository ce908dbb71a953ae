/-
  DeskHop.Chain.Later — the core by a clock that is later by a constant.

  The five machines of the core that are given the time answer alike whatever the clock
  started from: a run, and the same run with a constant added to every time, go through
  the same states but for the times they keep, and return the same, step by step. Each
  machine keeps its own relation of the two runs (`Later`) by every operation.

  Proved: `differences_only`.
-/

import DeskHop.Bulk.Later
import DeskHop.Election.Later
import DeskHop.Routing.PointerLater
import DeskHop.Trust.PairLater
import DeskHop.Wire.LinkLater

namespace DeskHop.Chain

open DeskHop.Lib Election Routing Trust Wire Bulk

theorem pointer_later (c : Time) (cfg : PointerCfg) (ops : List PointerOp) :
    outputs Pointer.respond (pointerInit cfg) (ops.map (PointerOp.later c)) = outputs Pointer.respond (pointerInit cfg) ops :=
  outputs_twin (R := Pointer.Later c) (fun _ _ o h => h.respond o) (Pointer.later_init cfg) ops

theorem pair_later (c : Time) (k : Crypto) (uid : Uid) (ops : List PairOp) :
    outputs (Pair.respond k) (pairInit uid) (ops.map (PairOp.later c)) = outputs (Pair.respond k) (pairInit uid) ops :=
  outputs_twin (R := Pair.Later c) (fun _ _ o h => h.respond o) (Pair.later_init uid) ops

theorem link_later (c : Time) (addr : Addr) (ops : List LinkOp) :
    outputs Link.respond (linkInit addr) (ops.map (LinkOp.later c)) = outputs Link.respond (linkInit addr) ops :=
  outputs_twin (R := Link.Later c) (fun _ _ o h => h.respond o) (Link.later_init addr) ops

theorem uhrp_later (c : Time) (cfg : Election.Config) (ops : List UhrpOp) :
    outputs Uhrp.respond (uhrpInit cfg) (ops.map (UhrpOp.later c)) = outputs Uhrp.respond (uhrpInit cfg) ops :=
  outputs_twin (R := Uhrp.Later c) (fun _ _ o h => h.respond o) (Uhrp.later_init cfg) ops

theorem data_later (c : Time) (ops : List DataOp) :
    outputs Data.respond dataInit (ops.map (DataOp.later c)) = outputs Data.respond dataInit ops :=
  outputs_twin (R := Data.Later c) (fun _ _ o h => h.respond o) Data.later_init ops

/-- Nothing the core does depends on when it is done, only on how long after. -/
theorem differences_only (c : Time) :
    (∀ (cfg : Election.Config) (ops : List UhrpOp),
      outputs Uhrp.respond (uhrpInit cfg) (ops.map (UhrpOp.later c)) = outputs Uhrp.respond (uhrpInit cfg) ops) ∧
    (∀ (cfg : PointerCfg) (ops : List PointerOp),
      outputs Pointer.respond (pointerInit cfg) (ops.map (PointerOp.later c)) = outputs Pointer.respond (pointerInit cfg) ops) ∧
    (∀ (k : Crypto) (uid : Uid) (ops : List PairOp),
      outputs (Pair.respond k) (pairInit uid) (ops.map (PairOp.later c)) = outputs (Pair.respond k) (pairInit uid) ops) ∧
    (∀ (addr : Addr) (ops : List LinkOp),
      outputs Link.respond (linkInit addr) (ops.map (LinkOp.later c)) = outputs Link.respond (linkInit addr) ops) ∧
    ∀ ops : List DataOp, outputs Data.respond dataInit (ops.map (DataOp.later c)) = outputs Data.respond dataInit ops :=
  ⟨uhrp_later c, pointer_later c, pair_later c, link_later c, data_later c⟩

end DeskHop.Chain
