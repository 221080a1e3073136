import SoftPlc.Controller.Target
import SoftPlc.Machine.Debugger
import SoftPlc.Store.Basic
import SoftPlc.Text

set_option autoImplicit false

namespace SoftPlc.Console

inductive Aspect where
  | state
  | vars
  | stack
  | breaks
  | pc
  | code
deriving DecidableEq, Repr

inductive Command where
  | upload (id : Nat) (file : String)
  | compile (id : Nat)
  | enable (id : Nat)
  | disable (id : Nat)
  | delete (id : Nat)
  | bind (id : Nat) (name : String) (target : Target)
  | unbind (id : Nat) (name : String)
  | debug (on : Bool)
  | interval (ms : UInt32)
  | reset (id : Nat)
  | resetAll
  | debugger (id : Nat) (command : Debugger.Command)
  | break (id pc : Nat)
  | clear (id pc : Nat)
  | clearAll (id : Nat)
  | show (id : Nat) (aspect : Aspect)
  | status
  | pool
  | compact
  | save (file : String)
  | load (file : String)
  | help
deriving DecidableEq, Repr

namespace Command

def syntaxFault (message : String) : Fault := .because .syntaxError message

def maxWord : Nat := 18446744073709551615

def wordAt (words : List String) (index : Nat) (what : String) : Except Fault String :=
  match words[index]? with
  | some w => .ok w
  | none => .error (syntaxFault ("EXPECTED " ++ what))

def programId (words : List String) : Except Fault Nat := do
  let w ← wordAt words 1 "PROGRAM ID"
  match Text.unsigned? maxWord w with
  | some n =>
    if 1 ≤ n ∧ n ≤ slotCount then return n - 1
    else .error (.because .invalidProgramId (w ++ "; USE 1 TO " ++ toString slotCount))
  | none => .error (.because .invalidProgramId (w ++ "; USE 1 TO " ++ toString slotCount))

def pcOf (w : String) : Except Fault Nat :=
  match Text.unsigned? maxWord w with
  | some n => .ok n
  | none => .error (.because .invalidBreakpoint ("BAD PC " ++ w))

def onOrOff (w : String) : Except Fault Bool :=
  match Text.lower w with
  | "on" => .ok true
  | "off" => .ok false
  | other => .error (syntaxFault ("EXPECTED on OR off, GOT " ++ other))

def aspectOf (w : String) : Except Fault Aspect :=
  match Text.lower w with
  | "state" => .ok .state
  | "vars" => .ok .vars
  | "stack" => .ok .stack
  | "breaks" => .ok .breaks
  | "pc" => .ok .pc
  | "code" => .ok .code
  | other => .error (syntaxFault ("CANNOT SHOW " ++ other))

def milliseconds (w : String) : Except Fault UInt32 :=
  match Text.unsigned? 4294967295 w with
  | some n => .ok (UInt32.ofNat n)
  | none => .error (.because .invalidInterval w)

def ofWords (verb : String) (words : List String) : Except Fault Command :=
  match verb with
  | "upload" => return .upload (← programId words) (← wordAt words 2 "FILE NAME")
  | "compile" => return .compile (← programId words)
  | "enable" => return .enable (← programId words)
  | "disable" => return .disable (← programId words)
  | "delete" => return .delete (← programId words)
  | "bind" => do
    let id ← programId words
    let name ← wordAt words 2 "VARIABLE"
    let kind ← wordAt words 3 "hr, ir, coil OR di"
    let address ← wordAt words 4 "ADDRESS"
    return .bind id name (← Target.parse kind address)
  | "unbind" => return .unbind (← programId words) (← wordAt words 2 "VARIABLE")
  | "debug" => return .debug (← onOrOff (← wordAt words 1 "on OR off"))
  | "interval" => return .interval (← milliseconds (← wordAt words 1 "MILLISECONDS"))
  | "reset" =>
    match words[1]?.map Text.lower with
    | some "all" => return .resetAll
    | _ => return .reset (← programId words)
  | "pause" => return .debugger (← programId words) .pause
  | "continue" => return .debugger (← programId words) .resume
  | "step" => return .debugger (← programId words) .step
  | "stop" => return .debugger (← programId words) .stop
  | "break" => return .break (← programId words) (← pcOf (← wordAt words 2 "PC"))
  | "clear" => do
    let id ← programId words
    match words[2]? with
    | some w => return .clear id (← pcOf w)
    | none => return .clearAll id
  | "show" =>
    return .show (← programId words)
      (← aspectOf (← wordAt words 2 "state, vars, stack, breaks, pc OR code"))
  | "status" => return .status
  | "pool" => return .pool
  | "compact" => return .compact
  | "save" => return .save (← wordAt words 1 "FILE NAME")
  | "load" => return .load (← wordAt words 1 "FILE NAME")
  | "help" | "?" => return .help
  | other => .error (syntaxFault ("UNKNOWN COMMAND " ++ other))

def parse (line : String) : Except Fault Command :=
  match Text.parts line with
  | [] => .error (syntaxFault "EMPTY COMMAND")
  | verb :: rest => ofWords (Text.lower verb) (verb :: rest)

end Command

end SoftPlc.Console
