import SoftPlc.Bytecode.Instruction

set_option autoImplicit false

namespace SoftPlc

abbrev Bytes := List UInt8

def littleEndian32 (n : UInt32) : Bytes :=
  [n.toUInt8, (n >>> 8).toUInt8, (n >>> 16).toUInt8, (n >>> 24).toUInt8]

def ofLittleEndian32 (a b c d : UInt8) : UInt32 :=
  a.toUInt32 ||| b.toUInt32 <<< 8 ||| c.toUInt32 <<< 16 ||| d.toUInt32 <<< 24

def DataType.code : DataType → UInt8
  | .bool => 0
  | .int => 1
  | .dint => 2
  | .dword => 3
  | .real => 4

def DataType.ofCode? (byte : UInt8) : Option DataType :=
  DataType.all.find? (·.code == byte)

theorem DataType.ofCode?_code (t : DataType) : ofCode? t.code = some t := by
  cases t <;> rfl

structure Image where
  tag : UInt8
  kind : UInt8
  argument : UInt32
deriving DecidableEq, Repr

namespace Image

def toBytes (image : Image) : Bytes :=
  image.tag :: image.kind :: littleEndian32 image.argument

def ofBytes? : Bytes → Option Image
  | [tag, kind, a, b, c, d] => some ⟨tag, kind, ofLittleEndian32 a b c d⟩
  | _ => none

end Image

def BinaryOp.tag : BinaryOp → UInt8
  | .add => 0x20
  | .subtract => 0x21
  | .multiply => 0x22
  | .divide => 0x23
  | .modulo => 0x24
  | .and => 0x30
  | .or => 0x31
  | .xor => 0x32
  | .shiftLeft => 0x34
  | .shiftRight => 0x35
  | .equal => 0x40
  | .notEqual => 0x41
  | .less => 0x42
  | .greater => 0x43
  | .lessEqual => 0x44
  | .greaterEqual => 0x45

def BinaryOp.ofTag? : UInt8 → Option BinaryOp
  | 0x20 => some .add
  | 0x21 => some .subtract
  | 0x22 => some .multiply
  | 0x23 => some .divide
  | 0x24 => some .modulo
  | 0x30 => some .and
  | 0x31 => some .or
  | 0x32 => some .xor
  | 0x34 => some .shiftLeft
  | 0x35 => some .shiftRight
  | 0x40 => some .equal
  | 0x41 => some .notEqual
  | 0x42 => some .less
  | 0x43 => some .greater
  | 0x44 => some .lessEqual
  | 0x45 => some .greaterEqual
  | _ => none

def Builtin.number : Builtin → UInt32
  | .abs _ => 0
  | .min _ => 1
  | .max _ => 2
  | .limit _ => 3
  | .select _ => 4
  | .sqrt => 5
  | .sine => 6
  | .cosine => 7
  | .tangent => 8
  | .round => 9
  | .truncate => 10
  | .floor => 11
  | .ceiling => 12

def Builtin.ofNumber? (t : DataType) : UInt32 → Option Builtin
  | 0 => some (.abs t)
  | 1 => some (.min t)
  | 2 => some (.max t)
  | 3 => some (.limit t)
  | 4 => some (.select t)
  | 5 => some .sqrt
  | 6 => some .sine
  | 7 => some .cosine
  | 8 => some .tangent
  | 9 => some .round
  | 10 => some .truncate
  | 11 => some .floor
  | 12 => some .ceiling
  | _ => none

def Instruction.image : Instruction → Image
  | .push v => ⟨0x01, v.dataType.code, v.bits⟩
  | .load i => ⟨0x02, 0, UInt32.ofNat i⟩
  | .store i => ⟨0x03, 0, UInt32.ofNat i⟩
  | .duplicate => ⟨0x04, 0, 0⟩
  | .discard => ⟨0x05, 0, 0⟩
  | .cast t => ⟨0x10, t.code, 0⟩
  | .binary op t => ⟨op.tag, t.code, 0⟩
  | .negate t => ⟨0x25, t.code, 0⟩
  | .complement t => ⟨0x33, t.code, 0⟩
  | .jump a => ⟨0x50, 0, UInt32.ofNat a⟩
  | .jumpIfFalse a => ⟨0x51, 0, UInt32.ofNat a⟩
  | .jumpIfTrue a => ⟨0x52, 0, UInt32.ofNat a⟩
  | .call f => ⟨0x60, (f.dataType?.map DataType.code).getD 0, f.number⟩
  | .nop => ⟨0x00, 0, 0⟩
  | .halt => ⟨0xFF, 0, 0⟩
  | .illegal byte => ⟨byte, 0xFF, 0⟩

def Instruction.ofTag? (tag : UInt8) (t : DataType) (argument : UInt32) : Option Instruction :=
  match tag with
  | 0x00 => some .nop
  | 0x01 => some (.push (.ofBits t argument))
  | 0x02 => some (.load argument.toNat)
  | 0x03 => some (.store argument.toNat)
  | 0x04 => some .duplicate
  | 0x05 => some .discard
  | 0x10 => some (.cast t)
  | 0x25 => some (.negate t)
  | 0x33 => some (.complement t)
  | 0x50 => some (.jump argument.toNat)
  | 0x51 => some (.jumpIfFalse argument.toNat)
  | 0x52 => some (.jumpIfTrue argument.toNat)
  | 0x60 => (Builtin.ofNumber? t argument).map .call
  | 0xFF => some .halt
  | tag => (BinaryOp.ofTag? tag).map (.binary · t)

def Image.instruction (image : Image) : Instruction :=
  match DataType.ofCode? image.kind with
  | none => .illegal image.tag
  | some t => (Instruction.ofTag? image.tag t image.argument).getD (.illegal image.tag)

end SoftPlc
