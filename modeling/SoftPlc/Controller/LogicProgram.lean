import SoftPlc.Bytecode.Program
import SoftPlc.Fault
import SoftPlc.Text

set_option autoImplicit false

namespace SoftPlc

structure Timing where
  count : UInt32 := 0
  last : UInt32 := 0
  least : UInt32 := 0
  greatest : UInt32 := 0
  total : UInt64 := 0
  overruns : UInt32 := 0
deriving DecidableEq, Repr, Inhabited

namespace Timing

def overran (us intervalMs : UInt32) : Bool := intervalMs < us / 1000

def record (t : Timing) (us intervalMs : UInt32) : Timing where
  count := t.count + 1
  last := us
  least := if t.count + 1 = 1 ∨ us < t.least then us else t.least
  greatest := max t.greatest us
  total := t.total + us.toUInt64
  overruns := if overran us intervalMs then t.overruns + 1 else t.overruns

def average (t : Timing) : UInt32 :=
  if t.count = 0 then 0 else (t.total / t.count.toUInt64).toUInt32

end Timing

structure Statistics where
  runs : Timing := {}
  errors : UInt32 := 0
deriving DecidableEq, Repr, Inhabited

structure LogicProgram where
  name : String
  enabled : Bool := false
  bytecode : Option Bytecode := none
  values : List Value := []
  statistics : Statistics := {}
  lastError : Option String := none
  bindingCount : UInt16 := 0
deriving DecidableEq, Repr

namespace LogicProgram

def fresh (id : Nat) : LogicProgram := { name := "Logic" ++ toString (id + 1) }

def isCompiled (p : LogicProgram) : Bool := p.bytecode.isSome

def install (p : LogicProgram) (b : Bytecode) : LogicProgram :=
  { p with bytecode := some b, values := b.initialValues }

def uninstall (p : LogicProgram) : LogicProgram := { p with bytecode := none, values := [] }

def maxError : Nat := 64

def setError (p : LogicProgram) (text : String) : LogicProgram :=
  { p with lastError := some (Text.truncate maxError text) }

def clearError (p : LogicProgram) : LogicProgram :=
  { p with statistics := { p.statistics with errors := 0 }, lastError := none }

def resetStatistics (p : LogicProgram) : LogicProgram := { p with statistics := {} }

end LogicProgram

end SoftPlc
