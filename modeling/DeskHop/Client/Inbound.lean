/-
  DeskHop.Client.Inbound — what the client makes of the streams it is sent
  (`client/src/main.c`: `on_offer`, `on_chunk`, `on_received`, `safe_name`).

  There is one buffer, one length, one kind and one name, and the hooks do not look at
  the handle they are called with. `Desk` runs the hooks in any order that the transport
  promises of each stream (`Promised`), beside what each stream really is, and logs what
  the client acted on each time a stream was reported sound.

  Proved: where no offer is accepted while another stream is unfinished, what the client
  acts on is the stream's own bytes, length, kind and name (`one_at_a_time_exact`). With
  two streams at once one is taken for the other (`streams_mix`).
-/

import DeskHop.Bulk.Data
import DeskHop.Lib.Reach

namespace DeskHop.Client

open DeskHop.Bulk DeskHop.Lib DeskHop.Wire

def maxInflight : UInt32 := 4 * 1024 * 1024

def dataText : UInt8 := 0
def dataImage : UInt8 := 1
def dataFile : UInt8 := 2
def dataShare : UInt8 := 4

/-! ## What the C library answers -/

/-- `%s` into a field of `cap` bytes. -/
def printed (cap : Nat) (s : List Byte) : List Byte := (s.takeWhile (· ≠ 0)).take (cap - 1)

/-- The old contents, and after them whatever the new memory holds. -/
def realloc (buf : List Byte) (size : Nat) (fresh : Nat → Byte) : List Byte :=
  (buf ++ (List.range (size - buf.length)).map fresh).take size

def memcpy (buf : List Byte) (offset : Nat) (data : List Byte) : List Byte :=
  buf.take offset ++ data ++ buf.drop (offset + data.length)

/-- `open` of a path that must not exist yet. -/
inductive Opened where
  | opened
  | exists
  | failed
  deriving DecidableEq

/-- What the system answers while a hook runs. -/
structure World where
  clipboardSet : Bool
  malloc : Bool
  openExcl : List Byte → Opened

/-! ## The hooks -/

/-- The inbound part of `client_t`. -/
structure Inbound where
  acceptFiles : Bool
  outdir : List Byte
  /-- All of its `rx_cap` bytes. -/
  rxBuf : List Byte
  rxCap : UInt32
  rxLen : UInt32
  rxKind : UInt8
  rxName : List Byte
  lastClip : Option (List Byte)

def tooLarge (total : UInt32) : Bool := total > maxInflight

/-- Files land on disk, so they are opt-in. -/
def unwantedFile (c : Inbound) (kind : UInt8) : Bool := kind == dataFile && !c.acceptFiles

/-- `heap` is what new memory holds, if there is any. -/
def onOffer (c : Inbound) (stream kind : UInt8) (total : UInt32) (name : List Byte) (heap : Option (Nat → Byte)) :
    Call × Inbound :=
  if tooLarge total then (.reject stream, c)
  else if unwantedFile c kind then (.reject stream, c)
  else
    let begun (c : Inbound) : Inbound := { c with rxLen := 0, rxKind := kind, rxName := printed 64 name }
    if c.rxCap < total then
      match heap with
      | none => (.reject stream, c)
      | some fresh =>
        (.accept stream, begun { c with rxBuf := realloc c.rxBuf total.toNat fresh, rxCap := total })
    else (.accept stream, begun c)

def onChunk (c : Inbound) (_stream : UInt8) (offset : UInt32) (data : List Byte) : Inbound :=
  let stop := offset + UInt32.ofNat data.length
  if stop ≤ c.rxCap then
    let c := { c with rxBuf := memcpy c.rxBuf offset.toNat data }
    if stop > c.rxLen then { c with rxLen := stop } else c
  else c

def plain (ch : Byte) : Bool :=
  (97 ≤ ch && ch ≤ 122) || (65 ≤ ch && ch ≤ 90) || (48 ≤ ch && ch ≤ 57) || ch == 46 || ch == 45 || ch == 95

/-- "received". -/
def fallbackName : List Byte := [114, 101, 99, 101, 105, 118, 101, 100]

def safeName (name : List Byte) (cap : Nat) : List Byte :=
  let out := (printed cap name).map fun ch => if plain ch then ch else 95
  if out = [] ∨ out = [46] ∨ out = [46, 46] then printed cap fallbackName else out

def digits (n : Nat) : List Byte := (Nat.toDigits 10 n).map fun ch => UInt8.ofNat ch.toNat

/-- The paths tried one after another, as long as each exists. -/
def candidates (outdir clean : List Byte) : List (List Byte) :=
  let path := printed 512 (outdir ++ 47 :: clean)
  path :: (List.range' 1 999).map fun i => printed 512 (outdir ++ 47 :: clean ++ 46 :: digits i)

def claimPath (openExcl : List Byte → Opened) (outdir clean : List Byte) : Option (List Byte) :=
  ((candidates outdir clean).find? fun path => openExcl path ≠ .exists).filter fun path => openExcl path = .opened

/-- What a stream carries, or what is taken for it. -/
structure Content where
  kind : UInt8
  name : List Byte
  length : Nat
  bytes : List Byte
  deriving DecidableEq

inductive Output where
  | clipboard (bytes : List Byte) (image : Bool)
  | print (bytes : List Byte)
  | file (path bytes : List Byte)
  deriving DecidableEq

/-- The switch over the kind. -/
def Content.act (x : Content) (outdir : List Byte) (world : World) : Option Output :=
  if x.kind = dataText then some (.clipboard x.bytes false)
  else if x.kind = dataImage then some (.clipboard x.bytes true)
  else if x.kind = dataShare then some (.print (x.bytes.takeWhile (· ≠ 0) ++ [10]))
  else
    let clean := safeName (if x.name = [] then fallbackName else x.name) 64
    (claimPath world.openExcl outdir clean).map fun path => .file path x.bytes

/-- What the client takes for the stream. -/
def Inbound.held (c : Inbound) : Content :=
  { kind := c.rxKind, name := c.rxName, length := c.rxLen.toNat, bytes := c.rxBuf.take c.rxLen.toNat }

/-- A text is remembered as the client's own, or its watcher would send it back. -/
def Inbound.remember (c : Inbound) (world : World) : Inbound :=
  if c.rxKind = dataText ∧ world.clipboardSet then
    { c with lastClip := if world.malloc then some c.held.bytes else none }
  else c

def onReceived (c : Inbound) (_stream result : UInt8) (world : World) : Option Output × Inbound :=
  if result ≠ dataOk then (none, c) else (c.held.act c.outdir world, c.remember world)

/-! ## Streams at once -/

/-- A stream of the transport: what has been announced, and handed over. -/
structure Incoming where
  kind : UInt8
  total : UInt32
  name : List Byte
  bytes : List Byte
  deriving DecidableEq

def Incoming.content (s : Incoming) : Content :=
  { kind := s.kind, name := s.name, length := s.total.toNat, bytes := s.bytes }

/-- A stream reported sound: what it was, and what the client acted on. -/
structure Acted where
  stream : Incoming
  held : Content
  world : World
  output : Option Output

structure Desk where
  client : Inbound
  /-- Those accepted and not yet ended, by handle. -/
  streams : UInt8 → Option Incoming
  acted : List Acted

inductive Hook where
  | offer (stream : UInt8) (peer : Addr) (kind : UInt8) (total : UInt32) (name : List Byte) (heap : Option (Nat → Byte))
  | chunk (stream : UInt8) (offset : UInt32) (data : List Byte)
  | received (stream result : UInt8) (world : World)

namespace Desk

def step (w : Desk) : Hook → Desk
  | .offer stream _ kind total name heap =>
    let (call, client) := onOffer w.client stream kind total name heap
    if call = .accept stream then
      { w with client := client, streams := Function.update w.streams stream (some ⟨kind, total, name, []⟩) }
    else { w with client := client }
  | .chunk stream offset data =>
    { w with
      client := onChunk w.client stream offset data
      streams := Function.update w.streams stream ((w.streams stream).map fun s => { s with bytes := s.bytes ++ data }) }
  | .received stream result world =>
    let (output, client) := onReceived w.client stream result world
    { client := client
      streams := Function.update w.streams stream none
      acted := w.acted ++ (if result = dataOk then (w.streams stream).toList else []).map fun s =>
        ⟨s, w.client.held, world, output⟩ }

/-- What the transport promises of each stream: a handle of its own, a name that fits its
    field, chunks in order and exactly once, and "sound" for all of it. -/
def Promised (w : Desk) : Hook → Prop
  | .offer stream _ _ _ name _ => w.streams stream = none ∧ nameField name = name
  | .chunk stream offset data => ∃ s, w.streams stream = some s ∧ offset.toNat = s.bytes.length ∧
      s.bytes.length + data.length ≤ s.total.toNat
  | .received stream result _ => ∃ s, w.streams stream = some s ∧ (result = dataOk → s.bytes.length = s.total.toNat)

/-- The client's own reasons to refuse. -/
def Refused (c : Inbound) (kind : UInt8) (total : UInt32) (heap : Option (Nat → Byte)) : Prop :=
  tooLarge total = true ∨ unwantedFile c kind = true ∨ c.rxCap < total ∧ heap = none

/-- No offer is accepted while another stream is unfinished. -/
def Alone (w : Desk) : Hook → Prop
  | .offer _ _ kind total _ heap => Refused w.client kind total heap ∨ ∀ other, w.streams other = none
  | _ => True

/-- Nothing has been received. -/
def Fresh (w : Desk) : Prop :=
  w.client.rxBuf = [] ∧ w.client.rxCap = 0 ∧ (∀ stream, w.streams stream = none) ∧ w.acted = []

/-- The client acted on what the stream carried, as its kind asks for. -/
def Exact (outdir : List Byte) (a : Acted) : Prop :=
  a.held = a.stream.content ∧ a.output = a.stream.content.act outdir a.world

/-! ## One at a time -/

/-- The client's buffer holds what has been handed over of stream `s`. -/
structure Holds (c : Inbound) (s : Incoming) : Prop where
  kind : c.rxKind = s.kind
  name : c.rxName = s.name
  bytes : c.rxBuf.take s.bytes.length = s.bytes
  length : c.rxLen.toNat = s.bytes.length
  room : s.total ≤ c.rxCap
  fits : s.bytes.length ≤ s.total.toNat

structure OneStream (w : Desk) : Prop where
  buf : w.client.rxBuf.length = w.client.rxCap.toNat
  one : ∀ k l, w.streams k ≠ none → w.streams l ≠ none → k = l
  held : ∀ k s, w.streams k = some s → Holds w.client s

theorem Holds.held {c : Inbound} {s : Incoming} (h : Holds c s) (hall : s.bytes.length = s.total.toNat) :
    c.held = s.content := by
  rw [Inbound.held, Incoming.content, h.kind, h.name, h.length, h.bytes, hall]

/-- What a copy leaves before its end. -/
theorem take_memcpy {buf : List Byte} {offset : Nat} {data : List Byte} (h : offset + data.length ≤ buf.length) :
    (memcpy buf offset data).take (offset + data.length) = buf.take offset ++ data := by
  have hlen : (buf.take offset ++ data).length = offset + data.length := by
    rw [List.length_append, List.length_take]
    omega
  rw [memcpy, ← hlen, List.take_left]

theorem length_memcpy {buf : List Byte} {offset : Nat} {data : List Byte} (h : offset + data.length ≤ buf.length) :
    (memcpy buf offset data).length = buf.length := by
  simp only [memcpy, List.length_append, List.length_take, List.length_drop]
  omega

theorem length_realloc (buf : List Byte) (size : Nat) (fresh : Nat → Byte) : (realloc buf size fresh).length = size := by
  simp only [realloc, List.length_take, List.length_append, List.length_map, List.length_range]
  omega

/-- A name that fits the transport's field fits the client's. -/
theorem printed_name {name : List Byte} (h : nameField name = name) : printed 64 name = name := by
  have hle : name.length ≤ 48 := by
    rw [← h, nameField, List.length_take]
    exact Nat.min_le_left _ _
  have hwhole : name.takeWhile (· ≠ 0) = name := by
    refine (List.takeWhile_prefix _).eq_of_length_le ?_
    have hfield : (nameField name).length ≤ (name.takeWhile (· ≠ 0)).length := by
      rw [nameField, List.length_take]
      exact Nat.min_le_right _ _
    rwa [h] at hfield
  rw [printed, hwhole]
  exact List.take_of_length_le (by omega)

/-- An offer is refused and leaves the client as it was, or is accepted into an empty buffer with room for it. -/
theorem onOffer_cases (c : Inbound) (stream kind : UInt8) (total : UInt32) (name : List Byte)
    (heap : Option (Nat → Byte)) (hbuf : c.rxBuf.length = c.rxCap.toNat) :
    (Refused c kind total heap ∧ onOffer c stream kind total name heap = (.reject stream, c)) ∨
    (¬ Refused c kind total heap ∧ ∃ c', onOffer c stream kind total name heap = (.accept stream, c') ∧
      c'.outdir = c.outdir ∧ c'.rxBuf.length = c'.rxCap.toNat ∧
      Holds c' ⟨kind, total, printed 64 name, []⟩) := by
  unfold onOffer
  by_cases hlarge : tooLarge total = true
  · rw [if_pos hlarge]
    exact Or.inl ⟨Or.inl hlarge, rfl⟩
  rw [if_neg hlarge]
  by_cases hfile : unwantedFile c kind = true
  · rw [if_pos hfile]
    exact Or.inl ⟨Or.inr (Or.inl hfile), rfl⟩
  rw [if_neg hfile]
  by_cases hcap : c.rxCap < total
  · simp only [if_pos hcap]
    cases heap with
    | none => exact Or.inl ⟨Or.inr (Or.inr ⟨hcap, rfl⟩), rfl⟩
    | some fresh =>
      refine Or.inr ⟨?_, _, rfl, rfl, length_realloc _ _ _, rfl, rfl, rfl, rfl, UInt32.le_refl _, Nat.zero_le _⟩
      rintro (h | h | ⟨-, h⟩)
      · exact hlarge h
      · exact hfile h
      · cases h
  · simp only [if_neg hcap]
    refine Or.inr ⟨?_, _, rfl, rfl, hbuf, rfl, rfl, rfl, rfl, UInt32.not_lt.mp hcap, Nat.zero_le _⟩
    rintro (h | h | ⟨h, -⟩)
    · exact hlarge h
    · exact hfile h
    · exact hcap h

/-- The next chunk of the stream the buffer holds. -/
theorem Holds.chunk {c : Inbound} {s : Incoming} (h : Holds c s) (hbuf : c.rxBuf.length = c.rxCap.toNat)
    (stream : UInt8) {offset : UInt32} {data : List Byte} (hoff : offset.toNat = s.bytes.length)
    (hfits : s.bytes.length + data.length ≤ s.total.toNat) :
    Holds (onChunk c stream offset data) { s with bytes := s.bytes ++ data } ∧
      (onChunk c stream offset data).rxBuf.length = (onChunk c stream offset data).rxCap.toNat ∧
      (onChunk c stream offset data).outdir = c.outdir := by
  have htotal := s.total.toNat_lt
  have hroom := UInt32.le_iff_toNat_le.mp h.room
  have hstop : (offset + UInt32.ofNat data.length).toNat = s.bytes.length + data.length := by
    rw [UInt32.toNat_add, UInt32.toNat_ofNat', hoff]
    omega
  have hend : offset.toNat + data.length ≤ c.rxBuf.length := by omega
  have hbytes : (memcpy c.rxBuf offset.toNat data).take (s.bytes ++ data).length = s.bytes ++ data := by
    rw [List.length_append, ← hoff, take_memcpy hend, hoff, h.bytes]
  have hnew : (memcpy c.rxBuf offset.toNat data).length = c.rxCap.toNat := by
    rw [length_memcpy hend, hbuf]
  have hall : (s.bytes ++ data).length = s.bytes.length + data.length := List.length_append
  have hin : offset + UInt32.ofNat data.length ≤ c.rxCap := by
    rw [UInt32.le_iff_toNat_le, hstop]
    omega
  unfold onChunk
  simp only [if_pos hin]
  by_cases hmore : offset + UInt32.ofNat data.length > c.rxLen
  · rw [if_pos hmore]
    exact ⟨⟨h.kind, h.name, hbytes, hstop.trans hall.symm, h.room, hall ▸ hfits⟩, hnew, rfl⟩
  · rw [if_neg hmore]
    refine ⟨⟨h.kind, h.name, hbytes, ?_, h.room, hall ▸ hfits⟩, hnew, rfl⟩
    rw [gt_iff_lt, UInt32.lt_iff_toNat_lt, hstop, h.length] at hmore
    show c.rxLen.toNat = _
    rw [h.length, hall]
    omega

/-- A hook about the only stream there is. -/
theorem OneStream.only {w : Desk} (h : w.OneStream) {k l : UInt8} {s : Incoming} (hk : w.streams k = some s)
    (hl : l ≠ k) : w.streams l = none := by
  by_contra hne
  exact hl (h.one l k hne (by rw [hk]; exact Option.some_ne_none s))

theorem OneStream.offer {w : Desk} (h : w.OneStream) (stream : UInt8) (peer : Addr) {kind : UInt8} {total : UInt32}
    {name : List Byte} {heap : Option (Nat → Byte)} (hname : nameField name = name)
    (halone : Refused w.client kind total heap ∨ ∀ other, w.streams other = none) :
    (w.step (.offer stream peer kind total name heap)).OneStream ∧
      (w.step (.offer stream peer kind total name heap)).acted = w.acted ∧
      (w.step (.offer stream peer kind total name heap)).client.outdir = w.client.outdir := by
  rcases onOffer_cases w.client stream kind total name heap h.buf with ⟨-, hno⟩ | ⟨hyes, c', hc, hdir, hbuf, hholds⟩
  · have hsame : w.step (.offer stream peer kind total name heap) = w := by
      simp only [step, hno]
      exact if_neg nofun
    rw [hsame]
    exact ⟨h, rfl, rfl⟩
  · have hnext : w.step (.offer stream peer kind total name heap) =
        { w with client := c', streams := Function.update w.streams stream (some ⟨kind, total, name, []⟩) } := by
      simp only [step, hc]
      exact if_pos trivial
    have hnone := halone.resolve_left hyes
    rw [printed_name hname] at hholds
    have hself {k : UInt8} {s : Incoming}
        (hk : Function.update w.streams stream (some ⟨kind, total, name, []⟩) k = some s) :
        k = stream ∧ s = ⟨kind, total, name, []⟩ := by
      by_cases hks : k = stream
      · rw [hks, Function.update_self] at hk
        exact ⟨hks, (Option.some.inj hk).symm⟩
      · rw [Function.update_of_ne hks, hnone k] at hk
        cases hk
    rw [hnext]
    refine ⟨⟨hbuf, fun k l hk hl => ?_, fun k s hk => ?_⟩, rfl, hdir⟩
    · obtain ⟨_, hk⟩ := Option.ne_none_iff_exists'.mp hk
      obtain ⟨_, hl⟩ := Option.ne_none_iff_exists'.mp hl
      exact (hself hk).1.trans (hself hl).1.symm
    · obtain ⟨-, rfl⟩ := hself hk
      exact hholds

theorem OneStream.chunk {w : Desk} (h : w.OneStream) {stream : UInt8} {offset : UInt32} {data : List Byte}
    (hpromised : w.Promised (.chunk stream offset data)) :
    (w.step (.chunk stream offset data)).OneStream ∧ (w.step (.chunk stream offset data)).acted = w.acted ∧
      (w.step (.chunk stream offset data)).client.outdir = w.client.outdir := by
  obtain ⟨s, hs, hoff, hfits⟩ := hpromised
  obtain ⟨hholds, hbuf, hdir⟩ := (h.held stream s hs).chunk h.buf stream hoff hfits
  have hself {k : UInt8} (hk : (w.step (.chunk stream offset data)).streams k ≠ none) : k = stream := by
    by_contra hne
    refine hk ?_
    show Function.update w.streams stream _ k = none
    rw [Function.update_of_ne hne]
    exact h.only hs hne
  refine ⟨⟨hbuf, fun k l hk hl => (hself hk).trans (hself hl).symm, fun k s' hk => ?_⟩, rfl, hdir⟩
  have hks : k = stream := hself (by rw [hk]; exact Option.some_ne_none s')
  have hnew : (w.step (.chunk stream offset data)).streams k = some { s with bytes := s.bytes ++ data } := by
    show Function.update w.streams stream _ k = _
    rw [hks, Function.update_self, hs]
    rfl
  rw [hnew] at hk
  cases hk
  exact hholds

theorem remember_same (c : Inbound) (world : World) :
    (c.remember world).rxBuf = c.rxBuf ∧ (c.remember world).rxCap = c.rxCap ∧ (c.remember world).outdir = c.outdir := by
  unfold Inbound.remember
  split
  · exact ⟨rfl, rfl, rfl⟩
  · exact ⟨rfl, rfl, rfl⟩

/-- The only stream ends, and is acted on as what it was. -/
theorem OneStream.received {w : Desk} (h : w.OneStream) {stream result : UInt8} {world : World}
    (hpromised : w.Promised (.received stream result world)) :
    (w.step (.received stream result world)).OneStream ∧
      (w.step (.received stream result world)).client.outdir = w.client.outdir ∧
      ∀ a ∈ (w.step (.received stream result world)).acted, a ∈ w.acted ∨ Exact w.client.outdir a := by
  obtain ⟨s, hs, hall⟩ := hpromised
  have hnone (k : UInt8) : Function.update w.streams stream none k = none := by
    by_cases hk : k = stream
    · rw [hk, Function.update_self]
    · rw [Function.update_of_ne hk]
      exact h.only hs hk
  have hclient : (onReceived w.client stream result world).2.rxBuf = w.client.rxBuf ∧
      (onReceived w.client stream result world).2.rxCap = w.client.rxCap ∧
      (onReceived w.client stream result world).2.outdir = w.client.outdir := by
    unfold onReceived
    split
    · exact ⟨rfl, rfl, rfl⟩
    · exact remember_same w.client world
  refine ⟨⟨?_, fun k _ hk => absurd (hnone k) hk, fun k s' hk => ?_⟩, hclient.2.2, fun a ha => ?_⟩
  · show (onReceived w.client stream result world).2.rxBuf.length = _
    rw [hclient.1, h.buf]
    exact congrArg UInt32.toNat hclient.2.1.symm
  · exact absurd ((hnone k).symm.trans hk) (Option.some_ne_none s').symm
  · simp only [step, hs, Option.toList_some] at ha
    refine (List.mem_append.mp ha).imp_right fun ha => ?_
    by_cases hok : result = dataOk
    · rw [if_pos hok, List.map_singleton, List.mem_singleton] at ha
      subst ha
      have hheld := (h.held stream s hs).held (hall hok)
      refine ⟨hheld, ?_⟩
      rw [onReceived, if_neg (not_not.mpr hok), hheld]
    · rw [if_neg hok] at ha
      exact absurd ha List.not_mem_nil

theorem OneStream.step {w : Desk} (h : w.OneStream ∧ ∀ a ∈ w.acted, Exact w.client.outdir a) {e : Hook}
    (he : w.Promised e ∧ w.Alone e) :
    (w.step e).OneStream ∧ ∀ a ∈ (w.step e).acted, Exact (w.step e).client.outdir a := by
  cases e with
  | offer stream peer kind total name heap =>
    obtain ⟨hone, hacted, hdir⟩ := h.1.offer stream peer he.1.2 he.2
    rw [hacted, hdir]
    exact ⟨hone, h.2⟩
  | chunk stream offset data =>
    obtain ⟨hone, hacted, hdir⟩ := h.1.chunk he.1
    rw [hacted, hdir]
    exact ⟨hone, h.2⟩
  | received stream result world =>
    obtain ⟨hone, hdir, hacted⟩ := h.1.received he.1
    rw [hdir]
    exact ⟨hone, fun a ha => (hacted a ha).elim (h.2 a) id⟩

/-- Where no offer is accepted while another stream is unfinished, the client acts on
    each stream reported sound as what that stream carried. -/
theorem one_at_a_time_exact {w : Desk} (h : Reach Fresh (fun w e => Promised w e ∧ Alone w e) step w) :
    ∀ a ∈ w.acted, Exact w.client.outdir a := by
  refine (h.inv (I := fun w => w.OneStream ∧ ∀ a ∈ w.acted, Exact w.client.outdir a) (fun w hw => ?_)
    fun w e hi he => OneStream.step hi he).2
  obtain ⟨hbuf, hcap, hstreams, hacted⟩ := hw
  refine ⟨⟨?_, fun k _ hk => absurd (hstreams k) hk, fun k s hk => ?_⟩, fun a ha => ?_⟩
  · rw [hbuf, hcap]
    rfl
  · rw [hstreams k] at hk
    cases hk
  · rw [hacted] at ha
    exact absurd ha List.not_mem_nil

/-! ## Two at once -/

def sampleDesk : Desk := ⟨⟨false, [], [], 0, 0, 0, [], none⟩, fun _ => none, []⟩

theorem sampleDesk_fresh : Fresh sampleDesk := ⟨rfl, rfl, fun _ => rfl, rfl⟩

def sampleWorld : World := ⟨true, true, fun _ => .opened⟩

/-- A text of two bytes. -/
def oneText : List Hook :=
  [.offer 4 1 dataText 2 [] (some fun _ => 0), .chunk 4 0 [104, 105], .received 4 dataOk sampleWorld]

theorem oneText_admitted : Reach.Admitted (fun w e => Promised w e ∧ Alone w e) step sampleDesk oneText :=
  ⟨⟨⟨rfl, rfl⟩, Or.inr fun _ => rfl⟩, ⟨⟨⟨dataText, 2, [], []⟩, by decide +kernel, rfl, by decide⟩, trivial⟩,
    ⟨⟨⟨dataText, 2, [], [104, 105]⟩, by decide +kernel, fun _ => rfl⟩, trivial⟩, trivial⟩

theorem one_at_a_time_exact_of_one_text : (oneText.foldl step sampleDesk).acted.all (·.held.bytes == [104, 105]) = true := by
  refine List.all_eq_true.mpr fun a ha => ?_
  have hexact := one_at_a_time_exact (Reach.run (.init sampleDesk_fresh) oneText oneText_admitted) a ha
  have hstreams : (oneText.foldl step sampleDesk).acted.map (·.stream) = [⟨dataText, 2, [], [104, 105]⟩] := by
    decide +kernel
  have hmem : a.stream ∈ (oneText.foldl step sampleDesk).acted.map (·.stream) := List.mem_map_of_mem ha
  rw [hstreams, List.mem_singleton] at hmem
  rw [hexact.1, hmem]
  decide

/-- A location is offered, and accepted, while the text is still coming. -/
def twoAtOnce : List Hook :=
  [.offer 4 1 dataText 2 [] (some fun _ => 0), .offer 5 2 dataShare 2 [] none, .chunk 4 0 [104, 105],
    .chunk 5 0 [121, 111], .received 4 dataOk sampleWorld]

theorem twoAtOnce_promised : Reach.Admitted Promised step sampleDesk twoAtOnce :=
  ⟨⟨rfl, rfl⟩, ⟨by decide +kernel, rfl⟩, ⟨⟨dataText, 2, [], []⟩, by decide +kernel, rfl, by decide⟩,
    ⟨⟨dataShare, 2, [], []⟩, by decide +kernel, rfl, by decide⟩,
    ⟨⟨dataText, 2, [], [104, 105]⟩, by decide +kernel, fun _ => rfl⟩, trivial⟩

/-- The end of the text has the client print the location. -/
theorem streams_mix : ¬ ∀ w, Reach Fresh Promised step w → ∀ a ∈ w.acted, Exact w.client.outdir a := by
  intro h
  have hexact := h _ (Reach.run (.init sampleDesk_fresh) twoAtOnce twoAtOnce_promised)
  have houtputs : (twoAtOnce.foldl step sampleDesk).acted.map (fun a => (a.stream.kind, a.output)) =
      [(dataText, some (.print [121, 111, 10]))] := by decide +kernel
  cases hacted : (twoAtOnce.foldl step sampleDesk).acted with
  | nil =>
    rw [hacted] at houtputs
    cases houtputs
  | cons a rest =>
    rw [hacted, List.map_cons, List.cons.injEq, Prod.mk.injEq] at houtputs
    obtain ⟨⟨hkind, houtput⟩, -⟩ := houtputs
    have hout := (hexact a (hacted ▸ List.mem_cons_self)).2
    rw [houtput, Content.act, if_pos (show a.stream.content.kind = dataText from hkind)] at hout
    cases hout

end Desk

end DeskHop.Client
