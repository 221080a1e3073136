set_option autoImplicit false

namespace SoftPlc

inductive BinaryOp where
  | add
  | subtract
  | multiply
  | divide
  | modulo
  | shiftLeft
  | shiftRight
  | equal
  | notEqual
  | less
  | lessEqual
  | greater
  | greaterEqual
  | and
  | or
  | xor
deriving DecidableEq, Repr, Inhabited

def BinaryOp.isComparison : BinaryOp → Bool
  | .equal | .notEqual | .less | .lessEqual | .greater | .greaterEqual => true
  | _ => false

def BinaryOp.isShift : BinaryOp → Bool
  | .shiftLeft | .shiftRight => true
  | _ => false

-- Whether a comparison holds of two values in the given order; values without an order
-- are unequal and nothing else.
def BinaryOp.holdsOf (op : BinaryOp) (order : Option Ordering) : Bool :=
  match op with
  | .equal => order = some .eq
  | .notEqual => order ≠ some .eq
  | .less => order = some .lt
  | .lessEqual => order = some .lt ∨ order = some .eq
  | .greater => order = some .gt
  | .greaterEqual => order = some .gt ∨ order = some .eq
  | _ => false

def BinaryOp.symbol : BinaryOp → String
  | .add => "+"
  | .subtract => "-"
  | .multiply => "*"
  | .divide => "/"
  | .modulo => "MOD"
  | .shiftLeft => "SHL"
  | .shiftRight => "SHR"
  | .equal => "="
  | .notEqual => "<>"
  | .less => "<"
  | .lessEqual => "<="
  | .greater => ">"
  | .greaterEqual => ">="
  | .and => "AND"
  | .or => "OR"
  | .xor => "XOR"

end SoftPlc
