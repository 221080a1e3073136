import SoftPlc.Compile.Program
import SoftPlc.Controller.Binding
import SoftPlc.Fault
import SoftPlc.Machine.Debugger
import SoftPlc.Store.SourceArena

set_option autoImplicit false

namespace SoftPlc

inductive Interval where
  | ms10
  | ms20
  | ms25
  | ms50
  | ms75
  | ms100
deriving DecidableEq, Repr, Inhabited

namespace Interval

def milliseconds : Interval → UInt32
  | .ms10 => 10
  | .ms20 => 20
  | .ms25 => 25
  | .ms50 => 50
  | .ms75 => 75
  | .ms100 => 100

def microseconds (i : Interval) : UInt64 := i.milliseconds.toUInt64 * 1000

def all : List Interval := [.ms10, .ms20, .ms25, .ms50, .ms75, .ms100]

def ofMilliseconds (ms : UInt32) : Except Fault Interval :=
  match all.find? (·.milliseconds == ms) with
  | some i => .ok i
  | none => .error (.because .invalidInterval
      (toString ms.toNat ++ " MS; USE 10, 20, 25, 50, 75 OR 100"))

theorem ofMilliseconds_milliseconds (i : Interval) : ofMilliseconds i.milliseconds = .ok i := by
  cases i <;> rfl

def render (i : Interval) : String := toString i.milliseconds.toNat ++ "ms"

end Interval

structure Settings where
  interval : Interval := .ms10
  maxSteps : UInt32 := Machine.defaultMaxSteps
  enabled : Bool := true
  debug : Bool := false
deriving DecidableEq, Repr, Inhabited

-- A clock of microseconds: what it shows at each reading, and how often it has been read.
structure Clock where
  shows : Nat → UInt64 := fun _ => 0
  reads : Nat := 0

namespace Clock

def now (k : Clock) : UInt64 := k.shows k.reads

def next (k : Clock) : Clock := { k with reads := k.reads + 1 }

def steady (start step : UInt64) : Clock := { shows := fun n => start + UInt64.ofNat n * step }

end Clock

structure Controller where
  settings : Settings := {}
  programs : Slots LogicProgram := Vector.ofFn fun i => .fresh i
  debuggers : Slots Debugger := Vector.replicate slotCount {}
  sources : SourceArena := {}
  exports : ExportPool := {}
  bindings : Bindings := []
  cycle : Timing := {}
  lastRun : UInt64 := 0
  -- The requests to other stations that are allowed until the next cycle.
  quota : UInt32 := 0
  clock : Clock := {}

namespace Controller

abbrev Answer (α : Type) := SoftPlc.Answer Controller α

def checkId (id : Nat) : Except Fault (Fin slotCount) :=
  if h : id < slotCount then .ok ⟨id, h⟩
  else .error (.because .invalidProgramId
    (toString (id + 1) ++ "; USE 1 TO " ++ toString slotCount))

def withSlot {α : Type} (c : Controller) (id : Nat) (f : Fin slotCount → Answer α) : Answer α :=
  match checkId id with
  | .ok i => f i
  | .error fault => (.error fault, c)

def setProgram (c : Controller) (i : Fin slotCount) (p : LogicProgram) : Controller :=
  { c with programs := c.programs.put i p }

def setDebugger (c : Controller) (i : Fin slotCount) (d : Debugger) : Controller :=
  { c with debuggers := c.debuggers.put i d }

def onProgram (c : Controller) (id : Nat) (f : LogicProgram → LogicProgram) : Answer Unit :=
  c.withSlot id fun i => (.ok (), c.setProgram i (f (c.programs.get i)))

def onDebugger (c : Controller) (id : Nat) (f : Debugger → Debugger) : Answer Unit :=
  c.withSlot id fun i => (.ok (), c.setDebugger i (f (c.debuggers.get i)))

def setRunning (c : Controller) (enabled : Bool) : Controller :=
  { c with settings := { c.settings with enabled } }

def setDebug (c : Controller) (debug : Bool) : Controller :=
  { c with settings := { c.settings with debug } }

def setInterval (c : Controller) (ms : UInt32) : Answer Unit :=
  match Interval.ofMilliseconds ms with
  | .ok interval => (.ok (), { c with settings := { c.settings with interval } })
  | .error f => (.error f, c)

def isPaused (c : Controller) (id : Nat) : Bool :=
  match c.debuggers[id]? with
  | some d => d.isPaused
  | none => false

def upload (c : Controller) (id : Nat) (source : Bytes) : Answer Unit :=
  c.withSlot id fun _ =>
    let (result, sources) := c.sources.upload id source
    (result, { c with sources })

def textOf? (bytes : Bytes) : Option String := String.fromUTF8? (ByteArray.mk bytes.toArray)

def compileSource (c : Controller) (id : Nat) : Except Fault Bytecode :=
  match (c.sources.source? id).bind textOf? with
  | some source => SoftPlc.compile source
  | none => .error (.because .notCompiled "NO SOURCE UPLOADED")

-- Installs bytecode in a slot without export registers. A program whose exports find no
-- room runs without them, with the reason kept as its error.
def install (c : Controller) (i : Fin slotCount) (b : Bytecode) : Controller :=
  let fresh := ((c.programs.get i).install b).resetStatistics.clearError
  let (result, exports) := c.exports.allocate i b.exportSize
  let p := match result with
    | .ok _ => fresh
    | .error f => fresh.setError f.render
  let bindings := c.bindings.refresh i p
  { c with
    exports
    bindings
    programs := c.programs.put i { p with bindingCount := bindings.countFor i } }

-- Compiles the stored source. Success replaces the bytecode and the values; failure leaves
-- the slot without both and keeps the reason.
def compile (c : Controller) (id : Nat) : Answer Unit :=
  c.withSlot id fun i =>
    let result := c.compileSource id
    let c := { c.setDebugger i ((c.debuggers.get i).apply .stop) with
      exports := c.exports.release id }
    match result with
    | .ok b => (.ok (), c.install i b)
    | .error f => (.error f, c.setProgram i ((c.programs.get i).uninstall.setError f.render))

def setEnabled (c : Controller) (id : Nat) (enabled : Bool) : Answer Unit :=
  c.onProgram id fun p => { p with enabled }

def delete (c : Controller) (id : Nat) : Answer Unit :=
  c.withSlot id fun i =>
    (.ok (), { c with
      sources := c.sources.release id
      exports := c.exports.release id
      bindings := c.bindings.clearProgram id
      debuggers := c.debuggers.put i ((c.debuggers.get i).apply .stop).clearBreakpoints
      programs := c.programs.put i (.fresh id) })

def setBindings (c : Controller) (i : Fin slotCount) (bindings : Bindings) : Controller :=
  { c with
    bindings
    programs := c.programs.put i
      { c.programs.get i with bindingCount := bindings.countFor i } }

def bind (c : Controller) (id : Nat) (name : String) (target : Target) : Answer Unit :=
  c.withSlot id fun i =>
    match c.bindings.bind id (c.programs.get i) name target with
    | (.ok (), bindings) => (.ok (), c.setBindings i bindings)
    | (.error f, bindings) => (.error f, { c with bindings })

def unbind (c : Controller) (id : Nat) (name : String) : Answer Bool :=
  c.withSlot id fun i =>
    let bindings := c.bindings.unbind id name
    (.ok (bindings.length != c.bindings.length), c.setBindings i bindings)

def resetStatistics (c : Controller) (id : Nat) : Answer Unit :=
  c.onProgram id LogicProgram.resetStatistics

def resetAll (c : Controller) : Controller :=
  { c with programs := c.programs.map LogicProgram.resetStatistics, cycle := {} }

def compactExports (c : Controller) : Controller := { c with exports := c.exports.compact }

def compactSources (c : Controller) : Controller := { c with sources := c.sources.compact }

def command (c : Controller) (id : Nat) (cmd : Debugger.Command) : Answer Unit :=
  c.onDebugger id (·.apply cmd)

def pauseAll (c : Controller) : Controller :=
  { c with debuggers := c.debuggers.map (·.apply .pause) }

def addBreakpoint (c : Controller) (id pc : Nat) : Answer Unit :=
  c.withSlot id fun i =>
    match (c.programs.get i).bytecode with
    | none => (.error (.because .notCompiled (c.programs.get i).name), c)
    | some b =>
      if pc < b.code.length then
        let (added, d) := (c.debuggers.get i).addBreakpoint pc
        (if added then .ok () else .error (.because .invalidBreakpoint "ALL SLOTS IN USE"), c.setDebugger i d)
      else
        (.error (.because .invalidBreakpoint
          ("PC " ++ toString pc ++ " NOT IN 0.." ++ toString b.code.length)), c)

end Controller

end SoftPlc
