import SoftPlc.Console.Execute
import SoftPlc.Console.Report

set_option autoImplicit false

namespace SoftPlc.Console

structure Desk where
  -- The moment from which time is counted, in nanoseconds.
  started : Nat
  session : Session := {}
  registers : Registers := {}
  watch : Watch := {}

def printResult : Except Fault String → IO Unit
  | .ok text => IO.println (Text.trimEnd text)
  | .error f => IO.println f.render

def readDisk (file : String) : IO (Option Bytes) := do
  try
    return some (← IO.FS.readBinFile file).toList
  catch _ => return none

def saveToDisk (s : Session) (file : String) : IO (Except Fault String) := do
  let blob := s.controller.save
  try
    IO.FS.writeBinFile file (ByteArray.mk blob.toArray)
    return .ok (Session.savedText blob file)
  catch _ => return .error (Files.missing file)

def executeOnDisk (s : Session) (command : Command) : IO Session.Printed := do
  match command with
  | .upload id file =>
    match ← readDisk file with
    | some source => return s.uploadBytes id source
    | none => return s.failed (Files.missing file)
  | .load file =>
    match ← readDisk file with
    | some blob => return s.loadBytes file blob
    | none => return s.failed (Files.missing file)
  | .save file => return (← saveToDisk s file, s)
  | command => return s.execute command

-- Not inlined, so that what is to be timed is done before the time is read.
@[noinline]
def readTime (started : Nat) (c : Controller) : IO (UInt64 × Controller) := do
  let now ← IO.monoNanosNow
  return (UInt64.ofNat ((now - started) / 1000), c)

def turn (desk : Desk) : IO Desk := do
  let before := desk.session.controller
  match ← before.tickWith (readTime desk.started) desk.registers with
  | (none, controller, registers) =>
    return { desk with session := { desk.session with controller }, registers }
  | (some report, controller, registers) =>
    let (lines, watch) := desk.watch.noteAll before controller report.runs
    for line in lines do IO.println line
    return { desk with session := { desk.session with controller }, registers, watch }

def carryOut (desk : Desk) (command : Command) : IO Desk := do
  let (result, session) ← executeOnDisk desk.session command
  printResult result
  return { desk with session }

def executeLine (desk : Desk) (line : String) : IO Desk := do
  match Command.parse line with
  | .ok command => carryOut desk command
  | .error f =>
    printResult (.error f)
    return desk

def isQuit (line : String) : Bool :=
  match (Text.parts line).map Text.lower with
  | ["quit"] | ["exit"] => true
  | _ => false

partial def rounds (input : IO.FS.Stream) (line : Task (Except IO.Error String)) (desk : Desk) :
    IO Unit := do
  let desk ← turn desk
  if ← IO.hasFinished line then
    match line.get with
    | .error _ => return
    | .ok text =>
      if text.isEmpty || isQuit text then return
      let desk ← if (Text.parts text).isEmpty then pure desk else executeLine desk text
      rounds input (← IO.asTask input.getLine) desk
  else
    IO.sleep 1
    rounds input line desk

end SoftPlc.Console

def main (args : List String) : IO Unit := do
  let desk : SoftPlc.Console.Desk := { started := ← IO.monoNanosNow }
  let desk ← match args with
    | file :: _ => SoftPlc.Console.carryOut desk (.load file)
    | [] => pure desk
  IO.println "ST LOGIC READY. TYPE help FOR COMMANDS."
  let input ← IO.getStdin
  SoftPlc.Console.rounds input (← IO.asTask input.getLine) desk
