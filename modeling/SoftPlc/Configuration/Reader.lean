import SoftPlc.Configuration.Writer

set_option autoImplicit false

namespace SoftPlc

namespace Configuration

abbrev Reader := StateT Bytes (Except Fault)

variable {α : Type}

def corrupt (message : String) : Fault := .because .configCorrupt message

def fail (message : String) : Reader α := fun _ => .error (corrupt message)

def take (count : Nat) : Reader Bytes := fun bytes =>
  if bytes.length < count then .error (corrupt "TRUNCATED")
  else .ok (bytes.take count, bytes.drop count)

def byte : Reader UInt8 := fun
  | [] => .error (corrupt "TRUNCATED")
  | b :: rest => .ok (b, rest)

def ofLittleEndian16 (a b : UInt8) : UInt16 := a.toUInt16 ||| b.toUInt16 <<< 8

def word : Reader UInt16 := fun
  | a :: b :: rest => .ok (ofLittleEndian16 a b, rest)
  | _ => .error (corrupt "TRUNCATED")

def doubleWord : Reader UInt32 := fun
  | a :: b :: c :: d :: rest => .ok (ofLittleEndian32 a b c d, rest)
  | _ => .error (corrupt "TRUNCATED")

def flag : Reader Bool := do
  match ← byte with
  | 0 => return false
  | 1 => return true
  | _ => fail "BAD FLAG"

def text : Reader String := do
  let length ← byte
  match Controller.textOf? (← take length.toNat) with
  | some s => return s
  | none => fail "BAD TEXT"

def dataType : Reader DataType := do
  match DataType.ofCode? (← byte) with
  | some t => return t
  | none => fail "BAD TYPE"

def value : Reader Value := do
  let t ← dataType
  return .ofBits t (← doubleWord)

def classOfCode? : UInt8 → Option VariableClass
  | 0 => some .ordinary
  | 1 => some .input
  | 2 => some .output
  | 3 => some .constant
  | _ => none

def variableClass : Reader VariableClass := do
  match classOfCode? (← byte) with
  | some c => return c
  | none => fail "BAD VARIABLE CLASS"

def variableEntry : Reader (Variable × Value) := do
  let name ← text
  let t ← dataType
  let variableClass ← variableClass
  let exported ← flag
  let initial ← value
  let current ← value
  return ({ name, dataType := t, variableClass, exported, initial := initial.cast t },
    current.cast t)

def instruction : Reader Instruction := do
  match Image.ofBytes? (← take 6) with
  | some image => return image.instruction
  | none => fail "TRUNCATED"

def several (reader : Reader α) : Nat → Reader (List α)
  | 0 => return []
  | count + 1 => do
    let first ← reader
    let others ← several reader count
    return first :: others

def programName : Reader (Option String) := do
  if ← flag then return some (← text) else return none

def bytecode : Reader (Bytecode × List Value) := do
  let name ← programName
  let count ← word
  if count = 0 ∨ Bytecode.maxInstructions < count.toNat then fail "BAD INSTRUCTION COUNT"
  let code ← several instruction count.toNat
  let variableCount ← byte
  if Bytecode.maxVariables < variableCount.toNat then fail "BAD VARIABLE COUNT"
  let entries ← several variableEntry variableCount.toNat
  return ({ name, code, vars := entries.map (·.1) }, entries.map (·.2))

structure Record where
  name : String
  enabled : Bool
  source : Bytes
  compiled : Option (Bytecode × List Value)
deriving DecidableEq, Repr

def record : Reader Record := do
  let name ← text
  let enabled ← flag
  let length ← word
  let source ← take length.toNat
  let compiled ← if ← flag then (do return some (← bytecode)) else pure none
  return { name, enabled, source, compiled }

structure Contents where
  interval : Interval
  enabled : Bool
  debug : Bool
  records : List Record
deriving DecidableEq, Repr

def contents : Reader Contents := do
  let interval ← match Interval.ofMilliseconds (← word).toUInt32 with
    | .ok interval => pure interval
    | .error _ => fail "BAD INTERVAL"
  let flags ← byte
  let records ← several record slotCount
  match ← get with
  | [] => return { interval, enabled := flags &&& 1 != 0, debug := flags &&& 2 != 0, records }
  | _ :: _ => fail "TRAILING BYTES"

def read (blob : Bytes) : Except Fault Contents :=
  let body := blob.take (blob.length - 4)
  if blob.length < 13 ∨ blob.take 4 ≠ magic then .error (corrupt "BAD MAGIC")
  else
    match word (body.drop 4) with
    | .error f => .error f
    | .ok (found, rest) =>
      if found ≠ version then
        .error (.because .unsupportedVersion ("SCHEMA " ++ toString found.toNat))
      else if littleEndian32 (Checksum.ofBytes body) ≠ blob.drop (blob.length - 4) then
        .error (corrupt "CRC MISMATCH")
      else (contents rest).map (·.1)

def arenaOf (a : SourceArena) : List (Nat × Record) → Except Fault SourceArena
  | [] => .ok a
  | (id, record) :: rest =>
    match a.upload id record.source with
    | (.ok (), a) => arenaOf a rest
    | (.error f, _) => .error (corrupt f.render)

def programOf (id : Nat) (record : Record) : LogicProgram :=
  let p := { LogicProgram.fresh id with name := record.name, enabled := record.enabled }
  match record.compiled with
  | none => p
  | some (b, values) => { p.install b with values }

def numbered (records : List Record) : List (Nat × Record) :=
  records.zipIdx.map fun (r, i) => (i, r)

def noteFailure (programs : Slots LogicProgram) (failure : Nat × Fault) : Slots LogicProgram :=
  programs.mapIdx fun id p => if id = failure.1 then p.setError failure.2.render else p

end Configuration

namespace Controller

-- The controller with all programs replaced by those of a blob. Bindings and everything of
-- the debuggers that concerns the old programs are dropped.
def takeOver (c : Controller) (contents : Configuration.Contents) (sources : SourceArena) :
    Controller :=
  let programs : Slots LogicProgram := Vector.ofFn fun i =>
    match contents.records[i.val]? with
    | some r => Configuration.programOf i r
    | none => .fresh i
  let (exports, failures) := ExportPool.layOut (programs.toList.map (·.bytecode))
  { c with
    settings := { c.settings with
      interval := contents.interval
      enabled := contents.enabled
      debug := contents.debug }
    sources
    exports
    bindings := []
    debuggers := c.debuggers.map fun d => (d.apply .stop).clearBreakpoints
    programs := failures.foldl Configuration.noteFailure programs }

def load (c : Controller) (blob : Bytes) : Answer Unit :=
  match Configuration.read blob with
  | .error f => (.error f, c)
  | .ok contents =>
    match Configuration.arenaOf {} (Configuration.numbered contents.records) with
    | .error f => (.error f, c)
    | .ok sources => (.ok (), c.takeOver contents sources)

end Controller

end SoftPlc
