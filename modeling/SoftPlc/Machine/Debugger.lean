import SoftPlc.Machine.Basic

set_option autoImplicit false

namespace SoftPlc

namespace Debugger

inductive Mode where
  | off
  | paused
  | step
  | run
deriving DecidableEq, Repr

def Mode.name : Mode → String
  | .off => "OFF"
  | .paused => "PAUSED"
  | .step => "STEP"
  | .run => "RUN"

inductive Reason where
  | none
  | command
  | step
  | breakpoint
  | halt
  | fault
deriving DecidableEq, Repr

def Reason.name : Reason → String
  | .none => "none"
  | .command => "pause command"
  | .step => "single-step"
  | .breakpoint => "breakpoint"
  | .halt => "program halt"
  | .fault => "runtime error"

inductive Command where
  | pause
  | resume
  | step
  | stop
deriving DecidableEq, Repr

def Mode.after (mode : Mode) : Command → Mode
  | .pause => if mode = .paused then .paused else .step
  | .resume => .run
  | .step => .step
  | .stop => .off

structure Snapshot where
  pc : Nat
  halted : Bool
  faulted : Bool
  steps : UInt32
  vars : List Value
  stack : List Value
  message : String
deriving DecidableEq, Repr

def maxMessage : Nat := 64

def Snapshot.of (m : Machine) : Snapshot where
  pc := m.pc
  halted := m.halted
  faulted := m.fault.isSome
  steps := m.steps
  vars := m.vars
  stack := m.stack
  message := match m.fault with
    | some f => Text.truncate maxMessage f.render
    | none => ""

def maxBreakpoints : Nat := 8

inductive Outcome where
  | completed
  | faulted (f : Fault)
  | paused
deriving DecidableEq, Repr

end Debugger

structure Debugger where
  mode : Debugger.Mode := .off
  slots : List (Option Nat) := List.replicate Debugger.maxBreakpoints none
  snapshot : Option Debugger.Snapshot := none
  reason : Debugger.Reason := .none
  hitAt : Option Nat := none
  totalSteps : UInt32 := 0
  hits : UInt32 := 0
  suspended : Option Frame := none
  -- The breakpoint that the suspended run stands at and will pass when it goes on.
  passing : Option Nat := none
deriving DecidableEq, Repr

namespace Debugger

def isPaused (d : Debugger) : Bool := d.mode = .paused

def apply (d : Debugger) (command : Command) : Debugger :=
  let d := { d with mode := d.mode.after command }
  match command with
  | .pause => { d with reason := .command }
  | .resume | .step => { d with snapshot := none, reason := .none }
  | .stop => { d with snapshot := none, reason := .none, suspended := none, passing := none }

def hasBreakpoint (d : Debugger) (pc : Nat) : Bool := d.slots.contains (some pc)

def fillSlot (pc : Nat) : List (Option Nat) → Option (List (Option Nat))
  | [] => none
  | none :: rest => some (some pc :: rest)
  | slot :: rest => (fillSlot pc rest).map (slot :: ·)

def addBreakpoint (d : Debugger) (pc : Nat) : Bool × Debugger :=
  if d.hasBreakpoint pc then (true, d)
  else match fillSlot pc d.slots with
    | some slots => (true, { d with slots })
    | none => (false, d)

def clearSlot (pc : Nat) : List (Option Nat) → List (Option Nat)
  | [] => []
  | slot :: rest => if slot = some pc then none :: rest else slot :: clearSlot pc rest

def removeBreakpoint (d : Debugger) (pc : Nat) : Debugger :=
  { d with slots := clearSlot pc d.slots }

def clearBreakpoints (d : Debugger) : Debugger :=
  { d with slots := List.replicate maxBreakpoints none }

def breakpoints (d : Debugger) : List (Nat × Nat) :=
  d.slots.zipIdx.filterMap fun (slot, i) => slot.map (i, ·)

def takeSuspended (d : Debugger) : Option Frame × Debugger :=
  (d.suspended, { d with suspended := none })

def pauseAt (d : Debugger) (m : Machine) (reason : Reason) : Debugger :=
  { d with snapshot := some (.of m), reason, mode := .paused }

def suspend (d : Debugger) (m : Machine) (reason : Reason) : Debugger :=
  { d.pauseAt m reason with suspended := some m.frame }

def afterStep (d : Debugger) (m : Machine) : Debugger × Option Outcome :=
  let d := { d with totalSteps := d.totalSteps + 1 }
  if m.halted then
    (if d.mode = .step then d.pauseAt m .halt else d, some .completed)
  else match m.fault with
    | some f => (d.pauseAt m .fault, some (.faulted f))
    | none =>
      if d.mode = .step then
        (d.suspend m (if d.reason = .command then .command else .step), some .paused)
      else (d, none)

def watch (b : Bytecode) (maxSteps : UInt32) (left : Nat) (d : Debugger) (m : Machine) :
    Debugger × Machine × Outcome :=
  let passes := d.passing = some m.pc
  let d := { d with passing := none }
  if !passes && d.hasBreakpoint m.pc then
    let d := { d with hitAt := some m.pc, hits := d.hits + 1, passing := some m.pc }
    (d.suspend m .breakpoint, m, .paused)
  else match left with
    | 0 =>
      let f := Machine.outOfSteps maxSteps
      let m := { m with fault := some f }
      (d.pauseAt m .fault, m, .faulted f)
    | left + 1 =>
      let m := m.step b
      match d.afterStep m with
      | (d, some outcome) => (d, m, outcome)
      | (d, none) => watch b maxSteps left d m

def run (b : Bytecode) (maxSteps : UInt32) (d : Debugger) (m : Machine) :
    Debugger × Machine × Outcome :=
  if d.mode = .off then
    let m := m.run b maxSteps
    match m.outcome with
    | .ok () => (d, m, .completed)
    | .error f => (d, m, .faulted f)
  else watch b maxSteps (m.remaining maxSteps) d m

def nextMachine (b : Bytecode) (values : List Value) (d : Debugger) : Debugger × Machine :=
  match d.takeSuspended with
  | (some frame, d) => (d, .resume frame)
  | (none, d) => (d, .start b values)

end Debugger

end SoftPlc
