import SoftPlc.Bytecode.Program
import SoftPlc.Compile.Expression
import SoftPlc.Proofs.Value.Shifts

/-!
The meaning of a parsed program, read off the tree without any code. An expression has a value
or a fault; a statement has an ending and the variables it leaves, or nothing where a loop takes
more rounds than it is given.
-/
set_option autoImplicit false

namespace SoftPlc.Evaluation

abbrev Store := List Value

def meaningless {α : Type} : Except Fault α := .error (.of .internalError)

def literal (n : Int) : Except Fault Value :=
  match Compile.narrowest? n with
  | some v => .ok v
  | none => meaningless

def call (name : String) (args : List Value) : Except Fault Value :=
  match Signature.ofName? name, args with
  | some (.numeric make _), args =>
    let t := (args.map (·.dataType)).foldl DataType.promote .int
    (make t).call (args.map (·.cast t))
  | some .select, [choice, a, b] =>
    let t := a.dataType.promote b.dataType
    (Builtin.select t).call [choice, a.cast t, b.cast t]
  | some (.real f), [a] | some (.integer f), [a] => f.call [a.cast .real]
  | some (.convert t), [a] => .ok (a.cast t)
  | _, _ => meaningless

section
variable (vars : List Variable)

def read (store : Store) (name : String) : Except Fault Value :=
  match (Variable.lookup? name vars).bind fun found => store[found.1]? with
  | some v => .ok v
  | none => meaningless

def typeOf (name : String) : DataType :=
  match Variable.lookup? name vars with
  | some (_, v) => v.dataType
  | none => .int

def assign (store : Store) (name : String) (v : Value) : Store :=
  match Variable.lookup? name vars with
  | some (i, x) => store.set i (v.cast x.dataType)
  | none => store

end

inductive Ending where
  | next
  | exit
  | leave
  | fault (f : Fault)
deriving DecidableEq, Repr

abbrev Result := Option (Ending × Store)

def andThen (result : Result) (rest : Store → Result) : Result :=
  match result with
  | some (.next, store) => rest store
  | other => other

def given {α : Type} (store : Store) (value : Except Fault α) (rest : α → Result) : Result :=
  match value with
  | .ok a => rest a
  | .error f => some (.fault f, store)

def loop (round : Store → Result) : Nat → Store → Result
  | 0, _ => none
  | rounds + 1, store =>
    match round store with
    | some (.next, store) => loop round rounds store
    | some (.exit, store) => some (.next, store)
    | other => other

def verdict : Ending × Store → Except Fault Unit × Store
  | (.fault f, store) => (.error f, store)
  | (_, store) => (.ok (), store)

-- Two points of the meaning are left open: what a shift gives whose count is no integer or becomes a proper one
-- by its conversion, and which way a loop counts whose constant step has another sign in the type of its variable.
structure Reading where
  shift : BinaryOp → Value → Value → Except Fault Value
  -- Whether a loop counts down by a constant whose step has the value given.
  down : Int → Except Fault Value → Bool
  shift_eq (op : BinaryOp) (v count : Value) (shifts : op.isShift = true) (integer : v.dataType.isInteger = true)
    (whole : count.dataType.isInteger = true)
    (settled : (count.cast v.dataType).CountsPlaces ↔ count.CountsPlaces) : shift op v count = op.apply v count
  down_eq (n : Int) (v : Value) (settled : n < 0 ↔ v.toInt < 0) : down n (.ok v) = decide (v.toInt < 0)

namespace Reading

variable (reading : Reading)

-- Both operands are converted to the promoted type, except for a shift: it works in the type of
-- its left operand.
def operate (op : BinaryOp) (l r : Value) : Except Fault Value :=
  if op.isShift then reading.shift op l r
  else
    let t := l.dataType.promote r.dataType
    op.apply (l.cast t) (r.cast t)

variable (vars : List Variable)

mutual
def expression (store : Store) : Expression → Except Fault Value
  | .integer _ n => literal n
  | .real _ x => .ok (.real (Numeric.Single.ofDouble x))
  | .bool _ b => .ok (.bool b)
  | .named _ name => read vars store name
  | .negation _ (.integer _ n) => literal (-n)
  | .negation _ e => do (← expression store e).negate
  | .complement _ e => do (← expression store e).complement
  | .binary _ op l r => do
    let left ← expression store l
    let right ← expression store r
    reading.operate op left right
  | .call _ name args => do call name (← expressions store args)

def expressions (store : Store) : List Expression → Except Fault (List Value)
  | [] => .ok []
  | e :: rest => do
    let first ← expression store e
    let others ← expressions store rest
    return first :: others
end

def stepValue (name : String) (step : Option Expression) (store : Store) : Except Fault Value :=
  match step with
  | none => .ok ((Value.int 1).cast (typeOf vars name))
  | some e => (reading.expression vars store e).map (·.cast (typeOf vars name))

def countsDown (name : String) (step : Option Expression) (store : Store) : Except Fault Bool :=
  match step.map (·.integerConstant) with
  | none => .ok false
  | some (some n) => .ok (reading.down n (reading.stepValue vars name step store))
  | some none => (reading.stepValue vars name step store).map (decide <| ·.toInt < 0)

def countRound (name : String) (limit : Value) (step : Option Expression) (body : Store → Result)
    (store : Store) : Result :=
  given store (reading.countsDown vars name step store) fun down =>
  given store (read vars store name) fun i =>
  if (if down then limit.toInt ≤ i.toInt else i.toInt ≤ limit.toInt) then
    andThen (body store) fun store =>
    given store (do (← read vars store name).add (← reading.stepValue vars name step store)) fun i =>
    some (.next, assign vars store name i)
  else some (.exit, store)

mutual
def statement (rounds : Nat) (s : Statement) (store : Store) : Result :=
  match s with
  | .assign _ _ name value =>
    given store (reading.expression vars store value) fun v => some (.next, assign vars store name v)
  | .choose _ branches otherwise => choice rounds (block rounds otherwise) branches store
  | .select _ e arms otherwise =>
    given store (reading.expression vars store e) fun v => select rounds v.toInt (block rounds otherwise) arms store
  | .count _ _ name first last step body =>
    given store (reading.expression vars store first) fun v =>
    let store := assign vars store name v
    given store (reading.expression vars store last) fun limit =>
    loop (reading.countRound vars name (limit.cast (typeOf vars name)) step (block rounds body)) rounds store
  | .while _ cond body =>
    let round (store : Store) : Result :=
      given store (reading.expression vars store cond) fun v =>
      if v.isTrue then block rounds body store else some (.exit, store)
    loop round rounds store
  | .repeat _ body cond =>
    let round (store : Store) : Result :=
      andThen (block rounds body store) fun store =>
      given store (reading.expression vars store cond) fun v =>
      if v.isTrue then some (.exit, store) else some (.next, store)
    loop round rounds store
  | .exit _ _ => some (.exit, store)
  | .leave _ => some (.leave, store)

def block (rounds : Nat) (body : List Statement) (store : Store) : Result :=
  match body with
  | [] => some (.next, store)
  | s :: rest => andThen (statement rounds s store) (block rounds rest)

def choice (rounds : Nat) (otherwise : Store → Result) (branches : List (Expression × List Statement))
    (store : Store) : Result :=
  match branches with
  | [] => otherwise store
  | (cond, body) :: rest =>
    given store (reading.expression vars store cond) fun v =>
    if v.isTrue then block rounds body store else choice rounds otherwise rest store

def select (rounds : Nat) (n : Int) (otherwise : Store → Result)
    (arms : List (List CaseLabel × List Statement)) (store : Store) : Result :=
  match arms with
  | [] => otherwise store
  | (labels, body) :: rest =>
    if labels.any (·.contains n) then block rounds body store else select rounds n otherwise rest store
end

def program (p : SourceProgram) (rounds : Nat) (store : Store) : Option (Except Fault Unit × Store) :=
  (reading.block vars rounds p.body store).map verdict

def ComesTo (p : SourceProgram) (store : Store) (result : Except Fault Unit × Store) : Prop :=
  ∃ rounds, reading.program vars p rounds store = some result

end Reading

-- The count is converted to the type of what is shifted, and the direction of a constant step is the
-- sign that it is written with.
def converting : Reading where
  shift op v count := op.apply v (count.cast v.dataType)
  down n _ := decide (n < 0)
  shift_eq op v count shifts integer whole settled := by
    rw [Value.shift_places op shifts v integer, Value.shift_places op shifts v integer]
    by_cases counts : count.CountsPlaces
    · rw [if_pos (settled.mpr counts), if_pos counts, Value.count_kept count whole v.dataType integer counts]
    · rw [if_neg (mt settled.mp counts), if_neg counts]
  down_eq n v settled := decide_eq_decide.mpr settled

theorem converting_operate (op : BinaryOp) (l r : Value) :
    converting.operate op l r =
      let t := if op.isShift then l.dataType else l.dataType.promote r.dataType
      op.apply (l.cast t) (r.cast t) := by
  unfold Reading.operate
  by_cases shifts : op.isShift = true
  · simp only [if_pos shifts, Value.cast_self]
    rfl
  · simp only [if_neg shifts]

end SoftPlc.Evaluation
