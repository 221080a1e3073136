set_option autoImplicit false

namespace SoftPlc

inductive DataType where
  | bool
  | int
  | dint
  | dword
  | real
deriving DecidableEq, Repr, Inhabited

namespace DataType

def name : DataType → String
  | .bool => "BOOL"
  | .int => "INT"
  | .dint => "DINT"
  | .dword => "DWORD"
  | .real => "REAL"

def all : List DataType := [.bool, .int, .dint, .dword, .real]

def rank : DataType → Nat
  | .bool => 0
  | .int => 1
  | .dint => 2
  | .dword => 3
  | .real => 4

def promote (a b : DataType) : DataType :=
  if a.rank < b.rank then b else a

def registers : DataType → UInt8
  | .bool | .int => 1
  | .dint | .dword | .real => 2

def isInteger : DataType → Bool
  | .int | .dint | .dword => true
  | .bool | .real => false

theorem promote_self (a : DataType) : a.promote a = a := by
  simp [promote]

theorem promote_comm (a b : DataType) : a.promote b = b.promote a := by
  cases a <;> cases b <;> rfl

theorem promote_assoc (a b c : DataType) :
    (a.promote b).promote c = a.promote (b.promote c) := by
  cases a <;> cases b <;> cases c <;> rfl

end DataType

inductive VariableClass where
  | ordinary
  | input
  | output
  | constant
deriving DecidableEq, Repr, Inhabited

def VariableClass.name : VariableClass → String
  | .ordinary => "Local"
  | .input => "Input"
  | .output => "Output"
  | .constant => "Constant"

end SoftPlc
