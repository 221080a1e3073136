import SoftPlc.Controller.Basic

set_option autoImplicit false

namespace SoftPlc.Controller

def statusBits (c : Controller) (id : Nat) : UInt16 :=
  match c.programs[id]? with
  | none => 0
  | some p =>
    let running := c.settings.enabled && p.enabled && p.isCompiled && !c.isPaused id
    (if p.enabled then 1 else 0) ||| (if p.isCompiled then 2 else 0) |||
      (if running then 4 else 0) ||| (if p.statistics.errors = 0 then 0 else 8)

def statusCells (c : Controller) (id : Nat) (p : LogicProgram) : List (UInt16 × UInt16) :=
  let i := UInt16.ofNat id
  [(200 + i, c.statusBits id),
    (204 + i, p.statistics.runs.count.toUInt16),
    (208 + i, p.statistics.errors.toUInt16),
    (212 + i, p.bindingCount),
    (216 + i, p.statistics.runs.last.toUInt16)]

def publishStatus (c : Controller) (r : Registers) : Registers :=
  (c.programs.numbered.flatMap fun (id, p) => c.statusCells id p).foldl
    (fun r (a, v) => r.setInput a v) r

-- Applies a control word: bit 0 is the wanted enable flag, bit 2 clears the error.
def controlWrite (c : Controller) (id : Nat) (word : UInt16) : Controller :=
  if h : id < slotCount then
    let p := { c.programs[id] with enabled := word &&& 1 != 0 }
    let p := if word &&& 4 != 0 ∧ p.statistics.errors ≠ 0 then p.clearError else p
    c.setProgram ⟨id, h⟩ p
  else c

inductive ProgramRun where
  | completed (us : UInt32)
  | faulted (f : Fault)
  | paused
deriving DecidableEq, Repr

structure Report where
  runs : List (Nat × ProgramRun)
  us : UInt32
  overrun : Bool
deriving DecidableEq, Repr

def Report.ran (r : Report) (id : Nat) : Bool := r.runs.any (·.1 == id)

def Report.faults (r : Report) : List Nat :=
  r.runs.filterMap fun (id, run) => match run with
    | .faulted _ => some id
    | _ => none

def readClock (c : Controller) : UInt64 × Controller := (c.clock.now, { c with clock := c.clock.next })

def since (now start : UInt64) : UInt64 := if now < start then 0 else now - start

def readInputs (c : Controller) (r : Registers) : Controller :=
  { c with programs := c.programs.mapIdx fun id p =>
      { p with values := c.bindings.readInputs id r p.values } }

def writeOutputs (c : Controller) (r : Registers) : Registers :=
  c.programs.numbered.foldl (fun r (id, p) => c.bindings.writeOutputs id p.values r) r

def complete (c : Controller) (i : Fin slotCount) (b : Bytecode) (values : List Value)
    (us : UInt32) (r : Registers) : Controller × Registers :=
  let p := c.programs.get i
  let runs := p.statistics.runs.record us c.settings.interval.milliseconds
  (c.setProgram i { p with values, statistics := { p.statistics with runs } },
    c.exports.publish i b values r)

def countFault (c : Controller) (i : Fin slotCount) (f : Fault) : Controller :=
  let p := c.programs.get i
  c.setProgram i
    ({ p with statistics := { p.statistics with errors := p.statistics.errors + 1 } }.setError
      f.render)

-- The cycle under any way to read the time: a console reads that of its machine, a controller of its own the clock that it
-- was given.
section
variable {m : Type → Type} [Monad m] (read : Controller → m (UInt64 × Controller))

def runBytecodeWith (c : Controller) (i : Fin slotCount) (b : Bytecode) (r : Registers) :
    m (ProgramRun × Controller × Registers) := do
  let (start, c) ← read c
  let (d, given) := (c.debuggers.get i).nextMachine b (c.programs.get i).values
  let (d, reached, outcome) := d.run b c.settings.maxSteps given
  let (stop, c) ← read (c.setDebugger i d)
  let us := (since stop start).toUInt32
  match outcome with
  | .completed =>
    let (c, r) := c.complete i b reached.vars us r
    return (.completed us, c, r)
  | .faulted f => return (.faulted f, c.countFault i f, r)
  | .paused => return (.paused, c, r)

-- Gives a slot its turn. Programs that are switched off or not compiled are passed over,
-- and a paused one stays where it is.
def runSlotWith (c : Controller) (i : Fin slotCount) (r : Registers) :
    m (Option ProgramRun × Controller × Registers) := do
  let p := c.programs.get i
  match p.bytecode with
  | none => return (none, c, r)
  | some b =>
    if !p.enabled then return (none, c, r)
    else if (c.debuggers.get i).isPaused then return (some .paused, c, r)
    else
      let (run, c, r) ← c.runBytecodeWith read i b r
      return (some run, c, r)

def runSlotsWith (c : Controller) (r : Registers) :
    List (Fin slotCount) → m (List (Nat × ProgramRun) × Controller × Registers)
  | [] => return ([], c, r)
  | i :: rest => do
    let (run, c, r) ← c.runSlotWith read i r
    let (runs, c, r) ← runSlotsWith c r rest
    return (run.toList.map (i.val, ·) ++ runs, c, r)

def cycleWith (c : Controller) (now : UInt64) (r : Registers) :
    m (Report × Controller × Registers) := do
  let c := { c with lastRun := now, quota := 0 }
  let (runs, c, r) ← (c.readInputs r).runSlotsWith read r (List.finRange slotCount)
  let r := c.publishStatus (c.writeOutputs r)
  let (stop, c) ← read c
  let us := (since stop now).toUInt32
  let interval := c.settings.interval.milliseconds
  return ({ runs, us, overrun := Timing.overran us interval },
    { c with cycle := c.cycle.record us interval }, r)

def tickWith (c : Controller) (r : Registers) : m (Option Report × Controller × Registers) := do
  let (now, c) ← read c
  if !c.settings.enabled then return (none, c, r)
  else if since now c.lastRun < c.settings.interval.microseconds then return (none, c, r)
  else
    let (report, c, r) ← c.cycleWith read now r
    return (some report, c, r)

end

def runBytecode (c : Controller) (i : Fin slotCount) (b : Bytecode) (r : Registers) :
    ProgramRun × Controller × Registers :=
  Id.run (c.runBytecodeWith (pure ·.readClock) i b r)

def runSlot (c : Controller) (i : Fin slotCount) (r : Registers) :
    Option ProgramRun × Controller × Registers :=
  Id.run (c.runSlotWith (pure ·.readClock) i r)

def runSlots (c : Controller) (r : Registers) (slots : List (Fin slotCount)) :
    List (Nat × ProgramRun) × Controller × Registers :=
  Id.run (c.runSlotsWith (pure ·.readClock) r slots)

def cycleAt (c : Controller) (now : UInt64) (r : Registers) : Report × Controller × Registers :=
  Id.run (c.cycleWith (pure ·.readClock) now r)

def tick (c : Controller) (r : Registers) : Option Report × Controller × Registers :=
  Id.run (c.tickWith (pure ·.readClock) r)

end SoftPlc.Controller
