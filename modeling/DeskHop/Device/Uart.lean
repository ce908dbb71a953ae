/-
  DeskHop.Device.Uart — the link ports of a chain board (`firmware/rp2040/src/board.c`).

  A port has a ring for what is received and one for what is to be sent. The interrupt
  handler fills the one and empties the other, and may come between any two accesses of
  the main program to a ring; the main program never comes into the handler. An
  idle port must not interrupt, so the handler disarms the transmit interrupt when it
  finds nothing to send, and a write arms it again.

  Proved, of every run (`sound_run`): what goes out on the line and what waits to are the
  bytes written, in order, but for those that found 1023 bytes waiting; the main program
  reads what came in without an error flag, in order, but for the same; and outside a write
  the transmit interrupt is armed whenever a byte waits, so none is left behind
  (`uart_run`).
-/

import DeskHop.Core.Bytes
import DeskHop.Lib.RingBuffer

namespace DeskHop.Device

open DeskHop.Lib

/-! ## The rings -/

/-- `RING_SIZE` is 1024, and one slot stays free. -/
def ringRoom : Nat := 1023

/-- The indices are below `RING_SIZE`, and `& RING_MASK` is their own arithmetic. -/
abbrev Ring := RingBuffer Byte ringRoom

abbrev SharedRing := RingBuffer.Shared Byte ringRoom

def ringInit : Ring := ⟨fun _ => 0, 0, 0⟩

def ringPush (r : Ring) (b : Byte) : Bool × Ring :=
  let next := r.head + 1
  if next = r.tail then (false, r) -- full: drop
  else (true, { r with buf := Function.update r.buf r.head b, head := next })

def ringPop (r : Ring) : Option Byte × Ring :=
  if r.head = r.tail then (none, r) else (some (r.buf r.tail), { r with tail := r.tail + 1 })

theorem ringPush_eq (r : Ring) (b : Byte) : ringPush r b = r.push b := by
  simp [ringPush, RingBuffer.push, RingBuffer.isFull, RingBuffer.store, RingBuffer.publish]

theorem ringPop_eq (r : Ring) : ringPop r = r.pop := by
  simp [ringPop, RingBuffer.pop, RingBuffer.isEmpty, RingBuffer.front, RingBuffer.advance]

/-! ## A port -/

/-- `UART_UARTDR_{OE,BE,PE,FE}_BITS`. -/
def drErrors : UInt32 := 0xF00

/-- Where the main program is. -/
inductive Main where
  | idle
  /-- In `board_uart_write`, with these bytes yet to come. -/
  | writing (rest : List Byte)
  /-- In `board_uart_read`. -/
  | reading
  deriving DecidableEq

/-- `written` and `arrived` are ghosts: what `board_uart_write` was given, and what came in
    without an error flag. What was taken out of `tx` went into the data register. -/
structure Uart where
  rx : SharedRing
  tx : SharedRing
  /-- The transmit interrupt is armed. -/
  txim : Bool
  main : Main
  written : List Byte
  arrived : List Byte

namespace Uart

def init : Uart := ⟨.start ringInit, .start ringInit, false, .idle, [], []⟩

/-! ## The interrupt handler -/

/-- One word read from the data register. -/
def receive (u : Uart) (dr : UInt32) : Uart :=
  if dr &&& drErrors ≠ 0 then u
  else
    let b := dr.toUInt8
    { u with
      rx := { u.rx with ring := (ringPush u.rx.ring b).2, offered := u.rx.offered ++ [(b, u.rx.ring.held)] }
      arrived := u.arrived ++ [b] }

/-- `room`: how often `uart_is_writable` says yes. -/
def transmit : Nat → Uart → Uart
  | 0, u => u
  | room + 1, u =>
    match ringPop u.tx.ring with
    | (none, _) => { u with txim := false }
    | (some b, ring) => transmit room { u with tx := { u.tx with ring := ring, taken := u.tx.taken ++ [b] } }

def portIsr (u : Uart) (received : List UInt32) (room : Nat) : Uart := transmit room (received.foldl receive u)

/-! ## The main program -/

/-- Its next access. A write looks for room, writes a slot and moves the head for each byte,
    and at last arms the interrupt. -/
def proceed (u : Uart) : Uart :=
  match u.main with
  | .idle => u
  | .reading =>
    let rx := u.rx.turn .take
    { u with rx := rx, main := if rx.taking = .idle then .idle else .reading }
  | .writing rest =>
    match u.tx.putting with
    | .idle =>
      match rest with
      | [] => { u with txim := true, main := .idle }
      | b :: rest => { u with tx := u.tx.turn (.put b), main := .writing rest }
    | .store b => { u with tx := u.tx.turn (.put b) }
    | .publish b => { u with tx := u.tx.turn (.put b) }

inductive Event where
  | isr (received : List UInt32) (room : Nat)
  | write (data : List Byte)
  | read
  | proceed

def step (u : Uart) : Event → Uart
  | .isr received room => u.portIsr received room
  | .write data => if u.main = .idle then { u with main := .writing data, written := u.written ++ data } else u
  | .read => if u.main = .idle then { u with main := .reading } else u
  | .proceed => u.proceed

def run (es : List Event) : Uart := es.foldl step init

/-! ## What every run keeps -/

end Uart

/-- What `board_uart_write` has yet to put. -/
def Main.rest : Main → List Byte
  | .writing rest => rest
  | _ => []

namespace Uart

structure Sound (u : Uart) : Prop where
  rx : u.rx.Sound
  tx : u.tx.Sound
  /-- The handler is never stopped in an operation on a ring. -/
  rxIdle : u.rx.putting = .idle
  txIdle : u.tx.taking = .idle
  putting : u.tx.putting ≠ .idle → ∃ rest, u.main = .writing rest
  taking : u.rx.taking ≠ .idle → u.main = .reading
  written : u.written = u.tx.offered.map Prod.fst ++ u.main.rest
  arrived : u.arrived = u.rx.offered.map Prod.fst
  armed : (∀ rest, u.main ≠ .writing rest) → u.tx.ring.contents ≠ [] → u.txim = true

theorem contents_ringInit : ringInit.contents = [] := rfl

theorem sound_init : init.Sound :=
  { rx := RingBuffer.Shared.sound_start contents_ringInit
    tx := RingBuffer.Shared.sound_start contents_ringInit
    rxIdle := rfl
    txIdle := rfl
    putting := fun h => absurd rfl h
    taking := fun h => absurd rfl h
    written := rfl
    arrived := rfl
    armed := fun _ h => absurd contents_ringInit h }

variable {u : Uart}

theorem Sound.receive (h : u.Sound) (dr : UInt32) : (u.receive dr).Sound := by
  unfold Uart.receive
  split
  · exact h
  · have hrx : { u.rx with
        ring := (ringPush u.rx.ring dr.toUInt8).2, offered := u.rx.offered ++ [(dr.toUInt8, u.rx.ring.held)] } =
        u.rx.putWhole dr.toUInt8 := by
      rw [ringPush_eq]
      rfl
    exact { h with
      rx := by
        simp only [hrx]
        exact h.rx.putWhole h.rxIdle _
      rxIdle := h.rxIdle
      taking := h.taking
      arrived := by simp only [List.map_append, ← h.arrived, List.map_singleton] }

theorem Sound.transmit (room : Nat) (h : u.Sound) : (u.transmit room).Sound := by
  induction room generalizing u with
  | zero => exact h
  | succ room ih =>
    obtain ⟨hfirst, hrest⟩ := u.tx.ring.contents_pop
    have hpop := ringPop_eq u.tx.ring
    have hwhole := h.tx.takeWhole h.txIdle
    rw [RingBuffer.Shared.takeWhole, ← hpop] at hwhole
    rw [← hpop] at hfirst hrest
    rw [Uart.transmit]
    rcases hring : ringPop u.tx.ring with ⟨_ | b, ring⟩
    · -- nothing to send: the interrupt is disarmed
      rw [hring] at hfirst
      exact { h with
        written := h.written
        armed := fun _ hne => absurd (List.head?_eq_none_iff.mp hfirst.symm) hne }
    · rw [hring] at hwhole hrest
      refine ih { h with
        tx := hwhole, txIdle := h.txIdle, putting := h.putting
        armed := fun hmain hne => h.armed hmain fun he => hne ?_ }
      exact hrest.trans (by rw [he]; rfl)

theorem Sound.isr (h : u.Sound) (received : List UInt32) (room : Nat) : (u.portIsr received room).Sound := by
  refine Sound.transmit room ?_
  induction received generalizing u with
  | nil => exact h
  | cons dr received ih => exact ih (h.receive dr)

/-- The main program starts a call. -/
theorem Sound.call (h : u.Sound) (hidle : u.main = .idle) : u.tx.putting = .idle ∧ u.rx.taking = .idle := by
  constructor
  · by_contra hne
    obtain ⟨rest, hmain⟩ := h.putting hne
    rw [hidle] at hmain
    cases hmain
  · by_contra hne
    have hmain := h.taking hne
    rw [hidle] at hmain
    cases hmain

theorem Sound.write (h : u.Sound) (data : List Byte) : (u.step (.write data)).Sound := by
  unfold Uart.step
  by_cases hidle : u.main = .idle
  · obtain ⟨hput, htake⟩ := h.call hidle
    have hwritten : u.written = u.tx.offered.map Prod.fst := by
      rw [h.written, hidle]
      exact List.append_nil _
    simp only [if_pos hidle]
    exact { h with
      putting := fun _ => ⟨data, rfl⟩
      taking := fun hne => absurd htake hne
      written := by simp only [hwritten, Main.rest]
      armed := fun hmain => absurd rfl (hmain data) }
  · simp only [if_neg hidle]
    exact h

theorem Sound.read (h : u.Sound) : (u.step .read).Sound := by
  unfold Uart.step
  by_cases hidle : u.main = .idle
  · obtain ⟨hput, htake⟩ := h.call hidle
    have hwritten := h.written
    rw [hidle] at hwritten
    simp only [if_pos hidle]
    exact { h with
      putting := fun hne => absurd hput hne
      taking := fun _ => rfl
      written := hwritten
      armed := fun _ hne => h.armed (fun rest hmain => by rw [hidle] at hmain; cases hmain) hne }
  · simp only [if_neg hidle]
    exact h

/-- An access of a party leaves the ring's other party where it is. -/
theorem turn_put_taking (s : SharedRing) (b : Byte) : (s.turn (.put b)).taking = s.taking := by
  unfold RingBuffer.Shared.turn
  cases s.putting <;> rfl

theorem turn_take_same (s : SharedRing) :
    (s.turn .take).putting = s.putting ∧ (s.turn .take).offered = s.offered := by
  unfold RingBuffer.Shared.turn
  cases s.taking <;> exact ⟨rfl, rfl⟩

theorem Sound.reading (h : u.Sound) (hmain : u.main = .reading) : u.proceed.Sound := by
  obtain ⟨hput, hoff⟩ := turn_take_same u.rx
  have hwritten : u.written = u.tx.offered.map Prod.fst := by
    rw [h.written, hmain]
    exact List.append_nil _
  have hnot (rest : List Byte) : u.main ≠ .writing rest := fun hw => by rw [hmain] at hw; cases hw
  have hidle : u.tx.putting = .idle := by
    by_contra hne
    obtain ⟨rest, hw⟩ := h.putting hne
    exact hnot rest hw
  have hto : u.proceed =
      { u with rx := u.rx.turn .take, main := if (u.rx.turn .take).taking = .idle then .idle else .reading } := by
    simp only [Uart.proceed, hmain]
  rw [hto]
  refine { h with
    rx := h.rx.take, rxIdle := hput.trans h.rxIdle, putting := fun hne => absurd hidle hne, taking := fun hne => if_neg hne
    written := ?_, arrived := by simp only [hoff, h.arrived], armed := fun _ hne => h.armed hnot hne }
  rw [hwritten]
  split <;> exact (List.append_nil _).symm

theorem Sound.writing (h : u.Sound) {rest : List Byte} (hmain : u.main = .writing rest) : u.proceed.Sound := by
  have htaking : u.rx.taking = .idle := by
    by_contra hne
    have hr := h.taking hne
    rw [hmain] at hr
    cases hr
  have hwritten : u.written = u.tx.offered.map Prod.fst ++ rest := by rw [h.written, hmain]; rfl
  have hkept (b : Byte) : (u.tx.turn (.put b)).taking = .idle := (turn_put_taking u.tx b).trans h.txIdle
  -- An access in the middle of a byte offers nothing new.
  have hwithin (b : Byte) (hto : u.proceed = { u with tx := u.tx.turn (.put b) })
      (hoff : (u.tx.turn (.put b)).offered = u.tx.offered) : u.proceed.Sound := by
    rw [hto]
    exact { h with
      tx := h.tx.put b, txIdle := hkept b, putting := fun _ => ⟨rest, hmain⟩
      written := by simp only [hoff, h.written]
      armed := fun hno => absurd hmain (hno rest) }
  cases hp : u.tx.putting with
  | idle =>
    cases rest with
    | nil =>
      have hto : u.proceed = { u with txim := true, main := .idle } := by simp only [Uart.proceed, hmain, hp]
      rw [hto]
      exact { h with
        putting := fun hne => absurd hp hne, taking := fun hne => absurd htaking hne, written := hwritten
        armed := fun _ _ => rfl }
    | cons b rest =>
      have hto : u.proceed = { u with tx := u.tx.turn (.put b), main := .writing rest } := by
        simp only [Uart.proceed, hmain, hp]
      have hoff : (u.tx.turn (.put b)).offered = u.tx.offered ++ [(b, u.tx.ring.held)] := by
        simp only [RingBuffer.Shared.turn, hp]
      rw [hto]
      exact { h with
        tx := h.tx.put b, txIdle := hkept b, putting := fun _ => ⟨rest, rfl⟩, taking := fun hne => absurd htaking hne
        written := by simp only [hwritten, hoff, Main.rest, List.map_append, List.map_singleton, List.append_assoc,
          List.singleton_append]
        armed := fun hno => absurd rfl (hno rest) }
  | store b => exact hwithin b (by simp only [Uart.proceed, hmain, hp]) (by simp only [RingBuffer.Shared.turn, hp])
  | publish b => exact hwithin b (by simp only [Uart.proceed, hmain, hp]) (by simp only [RingBuffer.Shared.turn, hp])

theorem Sound.step (h : u.Sound) (e : Event) : (u.step e).Sound := by
  cases e with
  | isr received room => exact h.isr received room
  | write data => exact h.write data
  | read => exact h.read
  | proceed =>
    cases hmain : u.main with
    | idle =>
      simp only [Uart.step, Uart.proceed, hmain]
      exact h
    | writing rest => exact h.writing hmain
    | reading => exact h.reading hmain

theorem sound_run (es : List Event) : (run es).Sound := by
  unfold run
  suffices ∀ u : Uart, u.Sound → (es.foldl Uart.step u).Sound from this _ sound_init
  induction es with
  | nil => exact fun u h => h
  | cons e es ih => exact fun u h => ih _ (h.step e)

/-- A port under any interleaving of the main program's accesses with the handler. -/
theorem uart_run (es : List Event) :
    ((run es).tx.taken ++ (run es).tx.waiting = (run es).tx.accepted ∧
      (run es).written = (run es).tx.offered.map Prod.fst ++ (run es).main.rest) ∧
    ((run es).rx.taken ++ (run es).rx.waiting = (run es).rx.accepted ∧
      (run es).arrived = (run es).rx.offered.map Prod.fst) ∧
    ((∀ rest, (run es).main ≠ .writing rest) → (run es).tx.ring.contents ≠ [] → (run es).txim = true) :=
  let h := sound_run es
  ⟨⟨h.tx.flow, h.written⟩, ⟨h.rx.flow, h.arrived⟩, h.armed⟩

end Uart

end DeskHop.Device
