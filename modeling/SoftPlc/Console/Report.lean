import SoftPlc.Console.Command
import SoftPlc.Controller.Basic
import SoftPlc.Controller.Tick
import SoftPlc.Machine.Report

set_option autoImplicit false

namespace SoftPlc.Console

def help : String :=
  String.intercalate "\n"
    ["upload <id> <file>      store and compile a source file",
      "compile <id>            compile the stored source",
      "enable|disable <id>     switch a program on or off",
      "delete <id>             free the program slot",
      "bind <id> <var> <hr|ir|coil|di> <addr>",
      "unbind <id> <var>",
      "debug on|off            log every program execution",
      "interval <ms>           10, 20, 25, 50, 75 or 100",
      "reset <id|all>          clear statistics",
      "pause|continue|step|stop <id>",
      "break <id> <pc>         clear <id> [pc]",
      "show <id> state|vars|stack|breaks|pc|code",
      "compact                 close gaps in both pools",
      "status  pool  save <file>  load <file>  quit"]

def compiledText (p : LogicProgram) : String :=
  match p.bytecode with
  | some b =>
    p.name ++ " compiled: " ++ toString b.code.length ++ " instructions, " ++
      toString b.vars.length ++ " variables" ++
      match p.lastError with
      | some e => "; " ++ e
      | none => ""
  | none => p.name ++ " not compiled"

def keptValues (b : Bytecode) (values : List Value) : String :=
  Text.lines ("=== Variables ===" :: (b.vars.zip values).map fun (entry, v) =>
    "  " ++ entry.name ++ " = " ++ v.render ++ " (" ++ entry.dataType.name ++ ")")

def showProgram (p : LogicProgram) (d : Debugger) (aspect : Aspect) : Except Fault String :=
  let notPaused := p.name ++ " is not paused"
  match aspect, p.bytecode with
  | .state, b => .ok (d.stateText b)
  | .breaks, _ => .ok d.breakpointsText
  | _, none => .error (.because .notCompiled p.name)
  | .stack, some _ => .ok (d.stackText.getD notPaused)
  | .pc, some b => .ok ((d.instructionText b).getD notPaused)
  | .code, some b => .ok (String.intercalate "\n" (d.listing b))
  | .vars, some b => .ok ((d.variablesText b).getD (keptValues b p.values))

def onOff (b : Bool) : String := if b then "on" else "off"

def ableText (b : Bool) : String := if b then "enabled" else "disabled"

def averageCycle (t : Timing) : Nat :=
  if t.count = 0 then 0 else (t.total / t.count.toUInt64).toNat

def programLines (p : LogicProgram) (d : Debugger) : List String :=
  let runs := p.statistics.runs
  let line := String.intercalate " "
    [Text.padRight 8 p.name, Text.padRight 8 (ableText p.enabled),
      Text.padRight 12 (if p.isCompiled then "compiled" else "not compiled"),
      Text.padRight 6 d.mode.name,
      "runs " ++ toString runs.count.toNat,
      "errors " ++ toString p.statistics.errors.toNat,
      "last " ++ toString runs.last.toNat ++ "us",
      "min " ++ toString runs.least.toNat ++ "us",
      "max " ++ toString runs.greatest.toNat ++ "us",
      "avg " ++ toString runs.average.toNat ++ "us",
      "overruns " ++ toString runs.overruns.toNat,
      "bindings " ++ toString p.bindingCount.toNat]
  match p.lastError with
  | some e => [line, "         last error: " ++ e]
  | none => [line]

def statusText (c : Controller) : String :=
  let cycle := c.cycle
  Text.lines
    (["Engine: " ++ ableText c.settings.enabled ++ ", interval " ++
        c.settings.interval.render ++ ", debug " ++ onOff c.settings.debug,
      "Cycles: " ++ toString cycle.count.toNat ++ " (min " ++ toString cycle.least.toNat ++
        "us, max " ++ toString cycle.greatest.toNat ++ "us, avg " ++
        toString (averageCycle cycle) ++ "us, " ++ toString cycle.overruns.toNat ++
        " overruns)"] ++
    (List.finRange slotCount).flatMap fun i => programLines (c.programs.get i) (c.debuggers.get i))

def regionLine (c : Controller) (i : Fin slotCount) : List String :=
  match c.sources.region? i with
  | some r =>
    ["  " ++ (c.programs.get i).name ++ " @" ++ toString r.offset ++ " +" ++ toString r.size]
  | none => []

def allocationLine (c : Controller) (i : Fin slotCount) : List String :=
  match c.exports.allocation? i with
  | some a =>
    ["  " ++ (c.programs.get i).name ++ " IR " ++ toString a.base.toNat ++ ".." ++
      toString (a.base + a.size.toUInt16 - 1).toNat]
  | none => []

def poolText (c : Controller) : String :=
  Text.lines
    (["Source pool: " ++ toString c.sources.used ++ " / " ++ toString SourceArena.capacity ++
        " bytes used, " ++ toString c.sources.free ++ " free, largest block " ++
        toString c.sources.largestGap] ++
    (List.finRange slotCount).flatMap (regionLine c) ++
    ["IR pool: " ++ toString c.exports.used.toNat ++ " / " ++
        toString ExportPool.capacity.toNat ++ " registers used"] ++
    (List.finRange slotCount).flatMap (allocationLine c))

structure Watch where
  faulted : Slots Bool := Vector.replicate slotCount false
deriving DecidableEq, Repr

namespace Watch

def snapshotAt (d : Debugger) : Nat := (d.snapshot.map (·.pc)).getD 0

def pauseText (c : Controller) (id : Nat) : String :=
  match c.programs[id]?, c.debuggers[id]? with
  | some p, some d =>
    match d.reason with
    | .fault =>
      p.name ++ " paused on error at PC " ++ toString (snapshotAt d) ++ ": " ++
        (d.snapshot.map (·.message)).getD ""
    | reason =>
      p.name ++ " paused at PC " ++ toString (snapshotAt d) ++ " (" ++ reason.name ++ ")"
  | _, _ => ""

def note (w : Watch) (before after : Controller) (id : Nat) (run : Controller.ProgramRun) :
    List String × Watch :=
  match run with
  | .faulted f =>
    let name := (after.programs[id]?.map (·.name)).getD ""
    let lines := if w.faulted[id]? = some true then [] else [name ++ ": " ++ f.render]
    (lines, { w with faulted := w.faulted.setIfInBounds id true })
  | .completed _ => ([], { w with faulted := w.faulted.setIfInBounds id false })
  | .paused => (if before.isPaused id then [] else [pauseText after id], w)

def noteAll (w : Watch) (before after : Controller) :
    List (Nat × Controller.ProgramRun) → List String × Watch
  | [] => ([], w)
  | (id, run) :: rest =>
    let (lines, w) := w.note before after id run
    let (others, w) := noteAll w before after rest
    (lines ++ others, w)

end Watch

end SoftPlc.Console
