import SoftPlc.Bytecode.Image
import SoftPlc.Configuration.Reader
import SoftPlc.Console.Report
import SoftPlc.Fault

set_option autoImplicit false

namespace SoftPlc.Console

abbrev Files := List (String × Bytes)

namespace Files

def missing (name : String) : Fault :=
  .because .fileNotFound (name ++ ": No such file or directory (os error 2)")

def isNested (name : String) : Bool := name.toList.contains '/'

def read (files : Files) (name : String) : Except Fault Bytes :=
  if isNested name then .error (missing name)
  else match files.lookup name with
    | some bytes => .ok bytes
    | none => .error (missing name)

def write (files : Files) (name : String) (bytes : Bytes) : Except Fault Files :=
  if isNested name then .error (missing name)
  else .ok ((name, bytes) :: files.filter (·.1 != name))

end Files

structure Session where
  controller : Controller := {}
  files : Files := []

namespace Session

abbrev Printed := Except Fault String × Session

def failed (s : Session) (f : Fault) : Printed := (.error f, s)

def say {α : Type} (s : Session) (answer : Controller.Answer α)
    (text : α → Controller → String) : Printed :=
  let (result, controller) := answer
  (result.map (text · controller), { s with controller })

def nameOf (c : Controller) (id : Nat) : String := (c.programs[id]?.map (·.name)).getD ""

def compiled (s : Session) (id : Nat) : Printed :=
  s.say (s.controller.compile id) fun _ c =>
    (c.programs[id]?.map compiledText).getD ""

def uploadBytes (s : Session) (id : Nat) (source : Bytes) : Printed :=
  match s.controller.upload id source with
  | (.ok (), controller) => compiled { s with controller } id
  | (.error f, controller) => failed { s with controller } f

def savedText (blob : Bytes) (file : String) : String :=
  "saved " ++ toString blob.length ++ " bytes to " ++ file

def saveTo (s : Session) (file : String) : Printed :=
  let blob := s.controller.save
  match s.files.write file blob with
  | .ok files => (.ok (savedText blob file), { s with files })
  | .error f => failed s f

def clearBreakpoint (s : Session) (id pc : Nat) : Printed :=
  match Controller.checkId id with
  | .error f => failed s f
  | .ok i =>
    if (s.controller.debuggers.get i).hasBreakpoint pc then
      s.say (s.controller.onDebugger id (·.removeBreakpoint pc)) fun _ _ =>
        "breakpoint at PC " ++ toString pc ++ " cleared"
    else failed s (.because .invalidBreakpoint ("NONE AT PC " ++ toString pc))

def showAspect (s : Session) (id : Nat) (aspect : Aspect) : Printed :=
  match Controller.checkId id with
  | .error f => failed s f
  | .ok i => (showProgram (s.controller.programs.get i) (s.controller.debuggers.get i) aspect, s)

def modeText (c : Controller) (id : Nat) : String :=
  (c.debuggers[id]?.map (·.mode.name)).getD ""

def loadBytes (s : Session) (file : String) (blob : Bytes) : Printed :=
  s.say (s.controller.load blob) fun _ _ => "loaded " ++ file

def execute (s : Session) (command : Command) : Printed :=
  let c := s.controller
  match command with
  | .upload id file =>
    match s.files.read file with
    | .ok source => s.uploadBytes id source
    | .error f => failed s f
  | .compile id => s.compiled id
  | .enable id => s.say (c.setEnabled id true) fun _ c => nameOf c id ++ " enabled"
  | .disable id => s.say (c.setEnabled id false) fun _ c => nameOf c id ++ " disabled"
  | .delete id => s.say (c.delete id) fun _ c => nameOf c id ++ " deleted"
  | .bind id name target =>
    s.say (c.bind id name target) fun _ c =>
      nameOf c id ++ "." ++ Text.upper name ++ " bound to " ++ target.render
  | .unbind id name =>
    s.say (c.unbind id name) fun removed c =>
      nameOf c id ++ "." ++ Text.upper name ++
        (if removed then " unbound" else " was not bound")
  | .debug on => (.ok ("debug " ++ onOff on), { s with controller := c.setDebug on })
  | .interval ms =>
    s.say (c.setInterval ms) fun _ c => "interval " ++ c.settings.interval.render
  | .resetAll => (.ok "statistics reset", { s with controller := c.resetAll })
  | .reset id => s.say (c.resetStatistics id) fun _ c => nameOf c id ++ " statistics reset"
  | .debugger id cmd =>
    s.say (c.command id cmd) fun _ c => nameOf c id ++ " debug mode " ++ modeText c id
  | .break id pc =>
    s.say (c.addBreakpoint id pc) fun _ _ => "breakpoint at PC " ++ toString pc
  | .clear id pc => s.clearBreakpoint id pc
  | .clearAll id =>
    s.say (c.onDebugger id Debugger.clearBreakpoints) fun _ _ => "breakpoints cleared"
  | .show id aspect => s.showAspect id aspect
  | .status => (.ok (statusText c), s)
  | .pool => (.ok (poolText c), s)
  | .compact =>
    let controller := c.compactSources.compactExports
    (.ok (poolText controller), { s with controller })
  | .save file => s.saveTo file
  | .load file =>
    match s.files.read file with
    | .ok blob => s.loadBytes file blob
    | .error f => failed s f
  | .help => (.ok help, s)

end Session

end SoftPlc.Console
