import SoftPlc.Text
import SoftPlc.Value.Builtin

set_option autoImplicit false

namespace SoftPlc

inductive Instruction where
  | push (v : Value)
  | load (index : Nat)
  | store (index : Nat)
  | duplicate
  | discard
  | cast (t : DataType)
  | binary (op : BinaryOp) (t : DataType)
  | negate (t : DataType)
  | complement (t : DataType)
  | jump (address : Nat)
  | jumpIfFalse (address : Nat)
  | jumpIfTrue (address : Nat)
  | call (f : Builtin)
  | nop
  | halt
  | illegal (byte : UInt8)
deriving DecidableEq, Repr

def BinaryOp.mnemonic : BinaryOp → String
  | .add => "ADD"
  | .subtract => "SUB"
  | .multiply => "MUL"
  | .divide => "DIV"
  | .modulo => "MOD"
  | .shiftLeft => "SHL"
  | .shiftRight => "SHR"
  | .equal => "EQ"
  | .notEqual => "NE"
  | .less => "LT"
  | .lessEqual => "LE"
  | .greater => "GT"
  | .greaterEqual => "GE"
  | .and => "AND"
  | .or => "OR"
  | .xor => "XOR"

namespace Instruction

def mnemonic : Instruction → String
  | .push v => "PUSH_" ++ v.dataType.name
  | .load _ => "LOAD_VAR"
  | .store _ => "STORE_VAR"
  | .duplicate => "DUP"
  | .discard => "POP"
  | .cast t => "CAST_" ++ t.name
  | .binary op t => op.mnemonic ++ "_" ++ t.name
  | .negate t => "NEG_" ++ t.name
  | .complement t => "NOT_" ++ t.name
  | .jump _ => "JMP"
  | .jumpIfFalse _ => "JMP_IF_FALSE"
  | .jumpIfTrue _ => "JMP_IF_TRUE"
  | .call _ => "CALL_BUILTIN"
  | .nop => "NOP"
  | .halt => "HALT"
  | .illegal _ => "ILLEGAL"

def argument? : Instruction → Option String
  | .push v => some v.render
  | .load i | .store i => some (toString i)
  | .jump a | .jumpIfFalse a | .jumpIfTrue a => some (toString a)
  | .call f => some f.render
  | .illegal byte => some ("0x" ++ Text.hex 2 byte.toNat)
  | _ => none

def render (i : Instruction) : String :=
  match i.argument? with
  | some argument => i.mnemonic ++ " " ++ argument
  | none => i.mnemonic

end Instruction

end SoftPlc
