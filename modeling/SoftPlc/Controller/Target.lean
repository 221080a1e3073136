import SoftPlc.Fault
import SoftPlc.Store.Basic
import SoftPlc.Text
import SoftPlc.Value.Basic

set_option autoImplicit false

namespace SoftPlc

inductive Target where
  | holding (address : UInt16)
  | input (address : UInt16)
  | coil (address : UInt16)
  | discrete (address : UInt16)
deriving DecidableEq, Repr

namespace Target

def address : Target → UInt16
  | .holding a | .input a | .coil a | .discrete a => a

def isBit : Target → Bool
  | .coil _ | .discrete _ => true
  | .holding _ | .input _ => false

def render : Target → String
  | .holding a => "HR#" ++ toString a.toNat
  | .input a => "IR#" ++ toString a.toNat
  | .coil a => "COIL#" ++ toString a.toNat
  | .discrete a => "DI#" ++ toString a.toNat

def parse (kind address : String) : Except Fault Target :=
  match Text.unsigned? 65535 address with
  | none => .error (.because .invalidTarget ("BAD ADDRESS " ++ address))
  | some n =>
    let a := UInt16.ofNat n
    match Text.lower kind with
    | "hr" => .ok (.holding a)
    | "ir" => .ok (.input a)
    | "coil" => .ok (.coil a)
    | "di" => .ok (.discrete a)
    | _ => .error (.because .invalidTarget ("UNKNOWN KIND " ++ kind))

def next? (a : UInt16) : Option UInt16 := if a = 65535 then none else some (a + 1)

def read (target : Target) (t : DataType) (r : Registers) : Value :=
  match target with
  | .coil a => (Value.bool (r.coilAt a)).cast t
  | .discrete a => (Value.bool (r.discreteAt a)).cast t
  | .holding a => .ofWords t (r.holdingAt a) (((next? a).map r.holdingAt).getD 0)
  | .input a => .ofWords t (r.inputAt a) (((next? a).map r.inputAt).getD 0)

def upperAddress? (v : Value) (a : UInt16) : Option UInt16 :=
  if v.dataType.registers = 2 then next? a else none

def write (target : Target) (v : Value) (r : Registers) : Registers :=
  match target with
  | .coil a => r.setCoil a v.isTrue
  | .discrete a => r.setDiscrete a v.isTrue
  | .holding a =>
    let r := r.setHolding a v.lowWord
    match upperAddress? v a with
    | some h => r.setHolding h v.highWord
    | none => r
  | .input a =>
    let r := r.setInput a v.lowWord
    match upperAddress? v a with
    | some h => r.setInput h v.highWord
    | none => r

end Target

end SoftPlc
