import SoftPlc.Bytecode.Instruction
import SoftPlc.Fault

set_option autoImplicit false

namespace SoftPlc

structure PendingJump where
  address : Nat
  line : Option UInt16
  symbol : Int
deriving DecidableEq, Repr

structure Labels where
  last : Int := 0
  places : List (Int × Nat) := []
  pending : List PendingJump := []
deriving DecidableEq, Repr

namespace Labels

def fresh (labels : Labels) : Int × Labels :=
  (labels.last + 1, { labels with last := labels.last + 1 })

def place (labels : Labels) (symbol : Int) (address : Nat) : Labels :=
  { labels with places := (symbol, address) :: labels.places }

def insertPending (jump : PendingJump) : List PendingJump → List PendingJump
  | [] => [jump]
  | other :: rest =>
    if jump.address < other.address then jump :: other :: rest
    else if jump.address = other.address then jump :: rest
    else other :: insertPending jump rest

def await (labels : Labels) (address : Nat) (line : Option UInt16) (symbol : Int) : Labels :=
  { labels with pending := insertPending ⟨address, line, symbol⟩ labels.pending }

end Labels

def Instruction.retarget? (target : Nat) : Instruction → Option Instruction
  | .jump _ => some (.jump target)
  | .jumpIfFalse _ => some (.jumpIfFalse target)
  | .jumpIfTrue _ => some (.jumpIfTrue target)
  | _ => none

namespace Labels

def resolveAll (places : List (Int × Nat)) :
    List PendingJump → List Instruction → Option Fault × List Instruction
  | [], code => (none, code)
  | jump :: rest, code =>
    match places.lookup jump.symbol with
    | none =>
      (some ((Fault.because .internalError "UNDEFINED JUMP LABEL").atLine jump.line), code)
    | some target =>
      match code[jump.address]?.bind (·.retarget? target) with
      | none => (some ((Fault.because .internalError "LINK FAILURE").atLine jump.line), code)
      | some patched => resolveAll places rest (code.set jump.address patched)

def link (labels : Labels) (code : List Instruction) :
    Option Fault × List Instruction × Labels :=
  let (fault, patched) := resolveAll labels.places labels.pending code
  (fault, patched, { labels with pending := [] })

end Labels

end SoftPlc
