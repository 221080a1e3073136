import SoftPlc.Language.Token
import SoftPlc.Language.Tree

/-!
The grammar of the source language: the lists of tokens that stand for a program, and the tree of
each. Trees of the grammar are bare: they have no places in a text.
-/
set_option autoImplicit false

namespace SoftPlc

namespace Expression

mutual
def bare : Expression → Expression
  | .integer _ n => .integer .unknown n
  | .real _ x => .real .unknown x
  | .bool _ b => .bool .unknown b
  | .named _ name => .named .unknown name
  | .call _ name args => .call .unknown name (bareAll args)
  | .negation _ e => .negation .unknown e.bare
  | .complement _ e => .complement .unknown e.bare
  | .binary _ op l r => .binary .unknown op l.bare r.bare

def bareAll : List Expression → List Expression
  | [] => []
  | e :: rest => e.bare :: bareAll rest
end

end Expression

namespace Statement

mutual
def bare : Statement → Statement
  | .assign _ _ name value => .assign 0 .unknown name value.bare
  | .choose _ branches otherwise => .choose 0 (bareBranches branches) (bareBlock otherwise)
  | .select _ selector arms otherwise => .select 0 selector.bare (bareArms arms) (bareBlock otherwise)
  | .count _ _ name first last step body =>
    .count 0 .unknown name first.bare last.bare (step.map Expression.bare) (bareBlock body)
  | .while _ condition body => .while 0 condition.bare (bareBlock body)
  | .repeat _ body condition => .repeat 0 (bareBlock body) condition.bare
  | .exit _ _ => .exit 0 .unknown
  | .leave _ => .leave 0

def bareBlock : List Statement → List Statement
  | [] => []
  | s :: rest => s.bare :: bareBlock rest

def bareBranches : List (Expression × List Statement) → List (Expression × List Statement)
  | [] => []
  | (condition, body) :: rest => (condition.bare, bareBlock body) :: bareBranches rest

def bareArms : List (List CaseLabel × List Statement) → List (List CaseLabel × List Statement)
  | [] => []
  | (labels, body) :: rest => (labels, bareBlock body) :: bareArms rest
end

end Statement

def Declaration.bare (d : Declaration) : Declaration :=
  { d with line := 0, span := .unknown, initializer := d.initializer.map Expression.bare }

def SourceProgram.bare (p : SourceProgram) : SourceProgram where
  name := p.name
  declarations := p.declarations.map Declaration.bare
  body := Statement.bareBlock p.body

namespace Grammar

inductive Optional (t : Token) : List Token → Bool → Prop where
  | absent : Optional t [] false
  | present : Optional t [t] true

def levels : List (List BinaryOp) :=
  [[.or, .xor], [.and], [.equal, .notEqual, .less, .lessEqual, .greater, .greaterEqual],
    [.add, .subtract], [.multiply, .divide, .modulo, .shiftLeft, .shiftRight]]

mutual
-- An expression whose outer operators are of the given levels. An operator may have one of its own
-- level on its left; what stands on its right binds tighter.
inductive Level : List (List BinaryOp) → List Token → Expression → Prop where
  | unary {w : List Token} {e : Expression} (operand : Unary w e) : Level [] w e
  | tighter {ops : List BinaryOp} {rest : List (List BinaryOp)} {w : List Token} {e : Expression}
      (inner : Level rest w e) : Level (ops :: rest) w e
  | binary {ops : List BinaryOp} {rest : List (List BinaryOp)} {op : BinaryOp} {u v : List Token}
      {l r : Expression} (known : op ∈ ops) (left : Level (ops :: rest) u l) (right : Level rest v r) :
      Level (ops :: rest) (u ++ .operator op :: v) (.binary .unknown op l r)

inductive Unary : List Token → Expression → Prop where
  | negation {w : List Token} {e : Expression} (operand : Unary w e) :
      Unary (.operator .subtract :: w) (.negation .unknown e)
  | complement {w : List Token} {e : Expression} (operand : Unary w e) :
      Unary (.complement :: w) (.complement .unknown e)
  | primary {w : List Token} {e : Expression} (operand : Primary w e) : Unary w e

inductive Primary : List Token → Expression → Prop where
  | integer (n : Nat) : Primary [.integer n] (.integer .unknown n)
  | real (x : Numeric.Double) : Primary [.real x] (.real .unknown x)
  | bool (b : Bool) : Primary [.bool b] (.bool .unknown b)
  | named (name : String) : Primary [.ident name] (.named .unknown name)
  | call (name : String) : Primary [.ident name, .leftParen, .rightParen] (.call .unknown name [])
  | callWith (name : String) {w : List Token} {args : List Expression} (given : Arguments w args) :
      Primary (.ident name :: .leftParen :: (w ++ [.rightParen])) (.call .unknown name args)
  | parenthesized {w : List Token} {e : Expression} (inner : Level levels w e) :
      Primary (.leftParen :: (w ++ [.rightParen])) e

inductive Arguments : List Token → List Expression → Prop where
  | one {w : List Token} {e : Expression} (only : Level levels w e) : Arguments w [e]
  | more {u v : List Token} {e : Expression} {args : List Expression} (first : Level levels u e)
      (others : Arguments v args) : Arguments (u ++ .comma :: v) (e :: args)
end

def Expr : List Token → Expression → Prop := Level levels

inductive Number : List Token → Int → Prop where
  | plain (n : Nat) : Number [.integer n] n
  | negative (n : Nat) : Number [.operator .subtract, .integer n] (-n)

inductive Label : List Token → CaseLabel → Prop where
  | single {w : List Token} {n : Int} (number : Number w n) : Label w (.single n)
  | range {u v : List Token} {low high : Int} (first : Number u low) (last : Number v high)
      (ordered : low ≤ high) : Label (u ++ .range :: v) (.range low high)

inductive Labels : List Token → List CaseLabel → Prop where
  | one {w : List Token} {label : CaseLabel} (only : Label w label) : Labels w [label]
  | more {u v : List Token} {label : CaseLabel} {labels : List CaseLabel} (first : Label u label)
      (others : Labels v labels) : Labels (u ++ .comma :: v) (label :: labels)

inductive Led (t : Token) : List Token → Option Expression → Prop where
  | none : Led t [] none
  | some {w : List Token} {e : Expression} (value : Expr w e) : Led t (t :: w) (some e)

mutual
inductive Block : List Token → List Statement → Prop where
  | empty : Block [] []
  | stray {w : List Token} {body : List Statement} (others : Block w body) : Block (.semicolon :: w) body
  | cons {u v : List Token} {s : Statement} {body : List Statement} (first : Stmt u s)
      (others : Block v body) : Block (u ++ v) (s :: body)

inductive Stmt : List Token → Statement → Prop where
  | assign (name : String) {w : List Token} {e : Expression} (value : Expr w e) :
      Stmt (.ident name :: .assign :: (w ++ [.semicolon])) (.assign 0 .unknown name e)
  | choose {c w more other last : List Token} {e : Expression} {body otherwise : List Statement}
      {branches : List (Expression × List Statement)} {ended : Bool} (condition : Expr c e)
      (inner : Block w body) (others : Branches more branches) (rest : Otherwise other otherwise)
      (semicolon : Optional .semicolon last ended) :
      Stmt (.word .ifWord :: (c ++ .word .thenWord :: (w ++ (more ++ (other ++ .word .endIf :: last)))))
        (.choose 0 ((e, body) :: branches) otherwise)
  | select {c w other last : List Token} {e : Expression} {arms : List (List CaseLabel × List Statement)}
      {otherwise : List Statement} {ended : Bool} (selector : Expr c e) (choices : Arms w arms)
      (rest : Otherwise other otherwise) (semicolon : Optional .semicolon last ended) :
      Stmt (.word .caseWord :: (c ++ .word .ofWord :: (w ++ (other ++ .word .endCase :: last))))
        (.select 0 e arms otherwise)
  | count (name : String) {u v x w last : List Token} {low high : Expression} {step : Option Expression}
      {body : List Statement} {ended : Bool} (start : Expr u low) (stop : Expr v high)
      (steps : Led (.word .byWord) x step) (inner : Block w body) (semicolon : Optional .semicolon last ended) :
      Stmt (.word .forWord :: .ident name :: .assign :: (u ++ .word .toWord :: (v ++ (x ++
        .word .doWord :: (w ++ .word .endFor :: last))))) (.count 0 .unknown name low high step body)
  | while {c w last : List Token} {e : Expression} {body : List Statement} {ended : Bool}
      (condition : Expr c e) (inner : Block w body) (semicolon : Optional .semicolon last ended) :
      Stmt (.word .while :: (c ++ .word .doWord :: (w ++ .word .endWhile :: last))) (.while 0 e body)
  | repeat {c w last : List Token} {e : Expression} {body : List Statement} {ended : Bool}
      (inner : Block w body) (condition : Expr c e) (semicolon : Optional .semicolon last ended) :
      Stmt (.word .repeat :: (w ++ .word .until :: (c ++ .word .endRepeat :: last))) (.repeat 0 body e)
  | exit : Stmt [.word .exit, .semicolon] (.exit 0 .unknown)
  | leave : Stmt [.word .returnWord, .semicolon] (.leave 0)

inductive Branches : List Token → List (Expression × List Statement) → Prop where
  | none : Branches [] []
  | more {c w rest : List Token} {e : Expression} {body : List Statement}
      {branches : List (Expression × List Statement)} (condition : Expr c e) (inner : Block w body)
      (others : Branches rest branches) :
      Branches (.word .elsif :: (c ++ .word .thenWord :: (w ++ rest))) ((e, body) :: branches)

inductive Otherwise : List Token → List Statement → Prop where
  | nothing : Otherwise [] []
  | block {w : List Token} {body : List Statement} (inner : Block w body) : Otherwise (.word .elseWord :: w) body

inductive Arms : List Token → List (List CaseLabel × List Statement) → Prop where
  | none : Arms [] []
  | more {u w rest : List Token} {labels : List CaseLabel} {body : List Statement}
      {arms : List (List CaseLabel × List Statement)} (known : Labels u labels) (inner : Block w body)
      (others : Arms rest arms) : Arms (u ++ .colon :: (w ++ rest)) ((labels, body) :: arms)
end

inductive Names : List Token → List String → Prop where
  | one (name : String) : Names [.ident name] [name]
  | more (name : String) {w : List Token} {names : List String} (others : Names w names) :
      Names (.ident name :: .comma :: w) (name :: names)

section
variable (variableClass : VariableClass)

inductive Line : List Token → List Declaration → Prop where
  | names {u v w : List Token} {names : List String} (dataType : DataType) {exported : Bool}
      {initializer : Option Expression} (listed : Names u names) (flag : Optional (.word .exported) v exported)
      (initial : Led .assign w initializer) :
      Line (u ++ .colon :: .word (.type dataType) :: (v ++ (w ++ [.semicolon])))
        (names.map fun name =>
          { line := 0, span := .unknown, name, dataType, variableClass, exported, initializer })

inductive Lines : List Token → List Declaration → Prop where
  | none : Lines [] []
  | more {u v : List Token} {first others : List Declaration} (line : Line variableClass u first)
      (rest : Lines v others) : Lines (u ++ v) (first ++ others)

end

inductive Opening : List Token → VariableClass → Prop where
  | ordinary : Opening [.word .var] .ordinary
  | constant : Opening [.word .var, .word .constant] .constant
  | input : Opening [.word .varInput] .input
  | output : Opening [.word .varOutput] .output

inductive Blocks : List Token → List Declaration → Prop where
  | none : Blocks [] []
  | more {u v w rest : List Token} {variableClass : VariableClass} {first others : List Declaration} {ended : Bool}
      (opening : Opening u variableClass) (lines : Lines variableClass v first)
      (semicolon : Optional .semicolon w ended) (blocks : Blocks rest others) :
      Blocks (u ++ (v ++ .word .endVar :: (w ++ rest))) (first ++ others)

inductive Program : List Token → SourceProgram → Prop where
  | plain {u v w : List Token} {declarations : List Declaration} {begun : Bool} {body : List Statement}
      (declared : Blocks u declarations) (begins : Optional (.word .begin) v begun) (inner : Block w body) :
      Program (u ++ (v ++ w)) { name := none, declarations, body }
  | wrapped (name : String) {u v w last : List Token} {declarations : List Declaration} {begun ended : Bool}
      {body : List Statement} (declared : Blocks u declarations) (begins : Optional (.word .begin) v begun)
      (inner : Block w body) (semicolon : Optional .semicolon last ended) :
      Program (.word .program :: .ident name :: (u ++ (v ++ (w ++ .word .endProgram :: last))))
        { name := some name, declarations, body }

end Grammar

end SoftPlc
