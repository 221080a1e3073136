import SoftPlc.Bytecode.Program
import SoftPlc.Machine.Debugger

set_option autoImplicit false

namespace SoftPlc.Debugger

def snapshotLines (d : Debugger) (length : Option Nat) (s : Snapshot) : List String :=
  ["PC: " ++ toString s.pc ++ (match length with
    | some n => " / " ++ toString n
    | none => ""),
    "Stack Depth: " ++ toString s.stack.length ++ " / " ++ toString Machine.bound.depth,
    "Steps Executed: " ++ toString s.steps.toNat,
    "Pause Reason: " ++ d.reason.name] ++
    (match d.reason, d.hitAt with
      | .breakpoint, some pc => ["Hit Breakpoint PC: " ++ toString pc]
      | _, _ => []) ++
    (if s.faulted then ["Error: " ++ s.message] else [])

def stateText (d : Debugger) (b : Option Bytecode) : String :=
  let shown := match d.snapshot with
    | some s => d.snapshotLines (b.map (·.code.length)) s
    | none => ["(no snapshot - program not paused)"]
  Text.lines (["=== Debug State ===", "Mode: " ++ d.mode.name] ++ shown ++
    ["Breakpoints: " ++ toString d.breakpoints.length,
      "Total Steps Debugged: " ++ toString d.totalSteps.toNat,
      "Breakpoints Hit: " ++ toString d.hits.toNat])

def variableLine (name : String) (v : Value) : String :=
  "  " ++ name ++ " = " ++ match v with
    | .bool _ => v.render
    | .dword n => "0x" ++ Text.hex 8 n.toNat ++ " (DWORD)"
    | _ => v.render ++ " (" ++ v.dataType.name ++ ")"

def variablesText (d : Debugger) (b : Bytecode) : Option String :=
  d.snapshot.map fun s =>
    let line (v : Value) (i : Nat) : String :=
      variableLine (match b.vars[i]? with
        | some entry => entry.name
        | none => "VAR" ++ toString i) v
    Text.lines ("=== Variables ===" :: s.vars.zipIdx.map fun (v, i) => line v i)

def stackText (d : Debugger) : Option String :=
  d.snapshot.map fun s =>
    let line (v : Value) (i : Nat) : String :=
      "  [" ++ toString i ++ "] " ++ v.render ++ " (" ++ v.dataType.name ++ ")"
    Text.lines (("=== Stack (depth " ++ toString s.stack.length ++ ") ===") ::
      (if s.stack.isEmpty then ["  (empty)"] else []) ++
      ((Stack.toList s.stack).zipIdx.map fun (v, i) => line v i).reverse)

def breakpointsText (d : Debugger) : String :=
  Text.lines (("=== Breakpoints (" ++ toString d.breakpoints.length ++ ") ===") ::
    (if d.breakpoints.isEmpty then ["  (none)"] else []) ++
    d.breakpoints.map fun (slot, pc) =>
      "  [" ++ toString slot ++ "] PC=" ++ toString pc)

def instructionText (d : Debugger) (b : Bytecode) : Option String :=
  d.snapshot.map fun s =>
    match b.code[s.pc]? with
    | some i => "[PC=" ++ toString s.pc ++ "] " ++ i.render
    | none => "PC out of bounds (program halted)"

def listing (d : Debugger) (b : Bytecode) : List String :=
  b.listing d.hasBreakpoint (if d.isPaused then d.snapshot.map (·.pc) else none)

end SoftPlc.Debugger
