import SoftPlc.Compile.Statement
import SoftPlc.Language.Parser
import SoftPlc.Language.Scan

set_option autoImplicit false

namespace SoftPlc.Compile

def constant : Expression → Except Fault Value
  | .integer span n => integerLiteral n span
  | .real _ x => .ok (realLiteral x)
  | .bool _ b => .ok (.bool b)
  | .negation span (.integer _ n) => integerLiteral (-n) span
  | .negation _ (.real _ x) => .ok (negatedRealLiteral x)
  | e => failAt .syntaxError e.span "INITIALIZER MUST BE A LITERAL"

def initialValue (d : Declaration) : Except Fault Value :=
  match d.initializer with
  | some e => do
    let v ← constant e
    if mixesBool v.dataType d.dataType then
      failAt .typeMismatch e.span "INITIALIZER TYPE"
    return v.cast d.dataType
  | none =>
    if d.variableClass = .constant then
      failAt .syntaxError d.span "CONSTANT NEEDS A VALUE"
    else .ok (.zero d.dataType)

def declare (before : List Variable) (d : Declaration) : Except Fault Variable := do
  if before.any (·.name == d.name) then failAt .duplicateVariable d.span d.name
  if Bytecode.maxVariables ≤ before.length then failAt .tooManyVariables d.span ""
  let initial ← initialValue d
  return { name := d.name, dataType := d.dataType, variableClass := d.variableClass
           exported := d.exported, initial }

def declareAll (before : List Variable) : List Declaration → Except Fault (List Variable)
  | [] => .ok before
  | d :: rest => do
    let v ← withLine d.line (declare before d)
    declareAll (before ++ [v]) rest

end SoftPlc.Compile

namespace SoftPlc

def SourceProgram.compile (p : SourceProgram) : Except Fault Bytecode := do
  let vars ← Compile.declareAll [] p.declarations
  let body ← Compile.block vars 0 0 p.body
  Compile.checkRoom (Compile.lastLineOf 0 p.body) (body.length + 1)
  return { name := p.name, code := body.map (·.instruction) ++ [.halt], vars }

def compile (source : String) : Except Fault Bytecode := do
  let p ← parse (scan source)
  p.compile

end SoftPlc
