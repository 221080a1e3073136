import SoftPlc.Bytecode.Image
import SoftPlc.Controller.Basic

/-!
The configuration blob: a mark, the version, the interval, the flags, a record for each
program slot and a check value over it all. Numbers are written low byte first.
-/
set_option autoImplicit false

namespace SoftPlc.Checksum

def polynomial : BitVec 32 := 0xEDB88320#32

def shiftBit (register : BitVec 32) : BitVec 32 :=
  if register.getLsbD 0 then (register >>> 1) ^^^ polynomial else register >>> 1

def shiftBits : Nat → BitVec 32 → BitVec 32
  | 0, register => register
  | n + 1, register => shiftBits n (shiftBit register)

def addByte (register : BitVec 32) (byte : UInt8) : BitVec 32 :=
  shiftBits 8 (register ^^^ byte.toBitVec.setWidth 32)

def ofBytes (bytes : Bytes) : UInt32 :=
  UInt32.ofBitVec (~~~ bytes.foldl addByte 0xFFFFFFFF#32)

end SoftPlc.Checksum

namespace SoftPlc

namespace Configuration

def magic : Bytes := [83, 84, 76, 71]

def version : UInt16 := 1

def littleEndian16 (n : UInt16) : Bytes := [n.toUInt8, (n >>> 8).toUInt8]

def classCode : VariableClass → UInt8
  | .ordinary => 0
  | .input => 1
  | .output => 2
  | .constant => 3

def flagByte (b : Bool) : UInt8 := if b then 1 else 0

def shortText (s : String) : Bytes :=
  let bytes := s.toUTF8.toList.take 255
  UInt8.ofNat bytes.length :: bytes

def longBytes (bytes : Bytes) : Bytes :=
  littleEndian16 (UInt16.ofNat bytes.length) ++ bytes

def valueBytes (v : Value) : Bytes := v.dataType.code :: littleEndian32 v.bits

def variableBytes (v : Variable) (current : Value) : Bytes :=
  shortText v.name ++
    [v.dataType.code, classCode v.variableClass, flagByte v.exported] ++
    valueBytes v.initial ++ valueBytes current

def variablesBytes : List Variable → List Value → Bytes
  | [], _ => []
  | v :: rest, [] => variableBytes v v.initial ++ variablesBytes rest []
  | v :: rest, current :: values => variableBytes v current ++ variablesBytes rest values

def nameBytes : Option String → Bytes
  | some name => 1 :: shortText name
  | none => [0]

def bytecodeBytes (b : Bytecode) (values : List Value) : Bytes :=
  nameBytes b.name ++ littleEndian16 (UInt16.ofNat b.code.length) ++
    b.code.flatMap (·.image.toBytes) ++
    [UInt8.ofNat b.vars.length] ++ variablesBytes b.vars values

def recordBytes (p : LogicProgram) (source : Bytes) : Bytes :=
  shortText p.name ++ [flagByte p.enabled] ++ longBytes source ++
    match p.bytecode with
    | none => [0]
    | some b => 1 :: bytecodeBytes b p.values

def flagsByte (s : Settings) : UInt8 :=
  (if s.enabled then 1 else 0) ||| (if s.debug then 2 else 0)

def bodyBytes (c : Controller) : Bytes :=
  magic ++ littleEndian16 version ++
    littleEndian16 c.settings.interval.milliseconds.toUInt16 ++ [flagsByte c.settings] ++
    c.programs.numbered.flatMap fun (id, p) =>
      recordBytes p ((c.sources.source? id).getD [])

end Configuration

def Controller.save (c : Controller) : Bytes :=
  let body := Configuration.bodyBytes c
  body ++ littleEndian32 (Checksum.ofBytes body)

end SoftPlc
