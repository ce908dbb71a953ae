/-
  DeskHop.Core.Msg — message types and payloads (`core/include/dhp/msg.h`,
  `core/src/msg.c`).

  Proved: what is written and what is read of each payload are inverse, field by field
  and byte by byte (`hello_codec`, `kbd_codec`, `mouse_codec`, `focus_codec`,
  `topo_codec`).
-/

import DeskHop.Core.Fields
import DeskHop.Core.Types

namespace DeskHop

/-- The 4-bit frame type. Types this build does not interpret stay numbers. -/
abbrev MsgType := UInt8

def msgHello : MsgType := 0
def msgResign : MsgType := 1
def msgKbd : MsgType := 2
def msgMouse : MsgType := 3
def msgFocus : MsgType := 4
def msgRelease : MsgType := 5
def msgPair : MsgType := 8
def msgData : MsgType := 10
def msgInput : MsgType := 13

def inputKindKbd : Byte := 0
def inputKindMouse : Byte := 1

/-! ## HELLO -/

inductive UhrpState where
  | init
  | learn
  | listen
  | speak
  | standby
  | active
  deriving DecidableEq, Repr, Inhabited

/-- The state as a HELLO carries it. -/
def UhrpState.toByte : UhrpState → Byte
  | .init => 0
  | .learn => 1
  | .listen => 2
  | .speak => 3
  | .standby => 4
  | .active => 5

structure Hello where
  state : Byte
  priority : UInt8
  flags : UInt8
  holdCs : UInt8
  uid : Uid
  caps : UInt16
  reserved : UInt16
  deriving DecidableEq, Repr, Inhabited

def helloBytes : Nat := 16

def helloFPreempt : UInt8 := 1
def helloFKeysHeld : UInt8 := 2
def helloFHasInput : UInt8 := 4
def helloFCoord : UInt8 := 8

def helloPack (h : Hello) : List Byte :=
  [h.state, h.priority, h.flags, h.holdCs] ++ put64 h.uid ++ put16 h.caps ++ put16 h.reserved

def helloUnpack (b : List Byte) : Option Hello :=
  if b.length < helloBytes then none
  else some { state := byteAt b 0, priority := byteAt b 1, flags := byteAt b 2, holdCs := byteAt b 3,
              uid := get64 b 4, caps := get16 b 12, reserved := get16 b 14 }

/-! ## KBD -/

structure KbdReport where
  modifiers : UInt8
  keys : Bytes 6
  deriving DecidableEq, Inhabited

def kbdBytes : Nat := 7

def kbdPack (r : KbdReport) : List Byte := r.modifiers :: r.keys.val

def kbdUnpack (b : List Byte) : Option KbdReport :=
  if b.length < kbdBytes then none else some ⟨byteAt b 0, slice b 1 6⟩

/-! ## MOUSE -/

structure MouseReport where
  dx : Int16
  dy : Int16
  wheel : Int8
  pan : Int8
  buttons : UInt8
  deriving DecidableEq, Inhabited

def mouseBytes : Nat := 7

def mousePack (r : MouseReport) : List Byte :=
  put16 r.dx.toUInt16 ++ put16 r.dy.toUInt16 ++ [r.wheel.toUInt8, r.pan.toUInt8, r.buttons]

def mouseUnpack (b : List Byte) : Option MouseReport :=
  if b.length < mouseBytes then none
  else some ⟨(get16 b 0).toInt16, (get16 b 2).toInt16, (byteAt b 4).toInt8, (byteAt b 5).toInt8, byteAt b 6⟩

/-! ## FOCUS -/

structure Focus where
  target : Addr
  reason : UInt8
  edge : UInt8
  deriving DecidableEq, Repr, Inhabited

def focusBytes : Nat := 4

def focusRButton : UInt8 := 0
def focusREdge : UInt8 := 1
def focusRCfg : UInt8 := 3
def focusRFailover : UInt8 := 4

def focusPack (f : Focus) : List Byte := put16 f.target ++ [f.reason, f.edge]

def focusUnpack (b : List Byte) : Option Focus :=
  if b.length < focusBytes then none else some ⟨get16 b 0, byteAt b 2, byteAt b 3⟩

/-! ## TOPO -/

structure Topo where
  uid : Uid
  hopsFromHead : UInt8
  capsLo : UInt8
  capsHi : UInt8
  flags : UInt8
  deriving DecidableEq, Repr, Inhabited

def topoBytes : Nat := 12

def topoPack (t : Topo) : List Byte := put64 t.uid ++ [t.hopsFromHead, t.capsLo, t.capsHi, t.flags]

def topoUnpack (b : List Byte) : Option Topo :=
  if b.length < topoBytes then none
  else some { uid := get64 b 0, hopsFromHead := byteAt b 8, capsLo := byteAt b 9, capsHi := byteAt b 10, flags := byteAt b 11 }

/-! ## What is written and what is read -/

section codecs

open DeskHop.Lib

/-- Two bytes, read as a signed number. -/
theorem fieldInt16 : Field 2 (fun x : Int16 => put16 x.toUInt16) (fun b off => (get16 b off).toInt16) :=
  field16.map ⟨UInt16.toInt16, Int16.toUInt16, fun _ => rfl, fun _ => rfl⟩

theorem fieldInt8 : Field 1 (fun x : Int8 => [x.toUInt8]) (fun b off => (byteAt b off).toInt8) :=
  byteField.map ⟨UInt8.toInt8, Int8.toUInt8, fun _ => rfl, fun _ => rfl⟩

/-! Each payload is its fields in the order they stand in, seen as a record. -/

theorem hello_codec : Codec helloBytes (fun _ => True) helloPack helloUnpack := by
  have fields := byteField.pair byteField |>.pair byteField |>.pair byteField |>.pair field64 |>.pair field16 |>.pair field16
  exact (fields.map ⟨fun t => Hello.mk t.1.1.1.1.1.1 t.1.1.1.1.1.2 t.1.1.1.1.2 t.1.1.1.2 t.1.1.2 t.1.2 t.2,
    fun h => ((((((h.state, h.priority), h.flags), h.holdCs), h.uid), h.caps), h.reserved),
    fun _ => rfl, fun _ => rfl⟩).codec

theorem kbd_codec : Codec kbdBytes (fun _ => True) kbdPack kbdUnpack := by
  have fields := byteField.pair (bytesField 6)
  exact (fields.map ⟨fun t => KbdReport.mk t.1 t.2, fun r => (r.modifiers, r.keys), fun _ => rfl, fun _ => rfl⟩).codec

theorem mouse_codec : Codec mouseBytes (fun _ => True) mousePack mouseUnpack := by
  have fields := fieldInt16.pair fieldInt16 |>.pair (fieldInt8.pair fieldInt8 |>.pair byteField)
  exact (fields.map ⟨fun t => MouseReport.mk t.1.1 t.1.2 t.2.1.1 t.2.1.2 t.2.2,
    fun r => ((r.dx, r.dy), ((r.wheel, r.pan), r.buttons)), fun _ => rfl, fun _ => rfl⟩).codec

theorem focus_codec : Codec focusBytes (fun _ => True) focusPack focusUnpack := by
  have fields := field16.pair (byteField.pair byteField)
  exact (fields.map ⟨fun t => Focus.mk t.1 t.2.1 t.2.2, fun f => (f.target, (f.reason, f.edge)),
    fun _ => rfl, fun _ => rfl⟩).codec

theorem topo_codec : Codec topoBytes (fun _ => True) topoPack topoUnpack := by
  have fields := field64.pair (byteField.pair byteField |>.pair byteField |>.pair byteField)
  exact (fields.map ⟨fun t => Topo.mk t.1 t.2.1.1.1 t.2.1.1.2 t.2.1.2 t.2.2,
    fun t => (t.uid, (((t.hopsFromHead, t.capsLo), t.capsHi), t.flags)), fun _ => rfl, fun _ => rfl⟩).codec

end codecs

theorem kbdUnpack_pack (r : KbdReport) : kbdUnpack (kbdPack r) = some r := kbd_codec.unpack_pack r

theorem focusUnpack_pack (fo : Focus) : focusUnpack (focusPack fo) = some fo := focus_codec.unpack_pack fo

theorem mouseUnpack_pack_buttons (r : MouseReport) : ∃ r', mouseUnpack (mousePack r) = some r' ∧ r'.buttons = r.buttons :=
  ⟨r, mouse_codec.unpack_pack r, rfl⟩

end DeskHop
