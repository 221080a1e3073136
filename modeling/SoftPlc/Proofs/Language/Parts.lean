import SoftPlc.Language.Tree

set_option autoImplicit false

namespace SoftPlc

namespace Expression

mutual
def parts : Expression → List Expression
  | .call span name args => .call span name args :: partsOf args
  | .negation span e => .negation span e :: parts e
  | .complement span e => .complement span e :: parts e
  | .binary span op left right => .binary span op left right :: (parts left ++ parts right)
  | e => [e]

def partsOf : List Expression → List Expression
  | [] => []
  | e :: rest => parts e ++ partsOf rest
end

theorem parts_self (e : Expression) : e ∈ e.parts := by
  cases e <;> simp [parts]

end Expression

namespace Statement

def operands : Statement → List Expression
  | .assign _ _ _ value => [value]
  | .choose _ branches _ => branches.map (·.1)
  | .select _ selector _ _ => [selector]
  | .count _ _ _ first last step _ => first :: last :: step.toList
  | .while _ cond _ | .repeat _ _ cond => [cond]
  | .exit _ _ | .leave _ => []

def sets : Statement → Option String
  | .assign _ _ name _ | .count _ _ name _ _ _ _ => some name
  | _ => none

mutual
def nested : Statement → List Statement
  | .choose line branches otherwise =>
    .choose line branches otherwise :: (nestedOfBranches branches ++ nestedOf otherwise)
  | .select line selector arms otherwise =>
    .select line selector arms otherwise :: (nestedOfArms arms ++ nestedOf otherwise)
  | .count line span name first last step body =>
    .count line span name first last step body :: nestedOf body
  | .while line cond body => .while line cond body :: nestedOf body
  | .repeat line body cond => .repeat line body cond :: nestedOf body
  | s => [s]

def nestedOf : List Statement → List Statement
  | [] => []
  | s :: rest => nested s ++ nestedOf rest

def nestedOfBranches : List (Expression × List Statement) → List Statement
  | [] => []
  | (_, body) :: rest => nestedOf body ++ nestedOfBranches rest

def nestedOfArms : List (List CaseLabel × List Statement) → List Statement
  | [] => []
  | (_, body) :: rest => nestedOf body ++ nestedOfArms rest
end

theorem nested_self (s : Statement) : s ∈ s.nested := by
  cases s <;> simp [nested]

end Statement

namespace SourceProgram

def statements (p : SourceProgram) : List Statement := Statement.nestedOf p.body

def expressions (p : SourceProgram) : List Expression :=
  p.declarations.flatMap (fun d => d.initializer.toList.flatMap Expression.parts) ++
    p.statements.flatMap fun s => s.operands.flatMap Expression.parts

end SourceProgram

end SoftPlc
