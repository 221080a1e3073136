import SoftPlc.Compile.Statement
import SoftPlc.Proofs.Compile.Simulation
import SoftPlc.Proofs.Typing.Expressions

set_option autoImplicit false

namespace SoftPlc.Compile

def size {α : Type} (code : Except Fault (List α)) : Nat :=
  match code with
  | .ok code => code.length
  | .error _ => 0

theorem size_ok {α : Type} (code : Except Fault (List α)) (made : List α) (compiled : code = .ok made) :
    size code = made.length := by
  simp only [size, compiled]

variable (vars : List Variable)

mutual
def innerStarts (loops depth base : Nat) : Statement → List (Nat × Nat)
  | .assign .. | .exit .. | .leave _ => []
  | .choose _ branches otherwise =>
    branchStarts loops depth base (fun base => blockStarts loops depth base otherwise) branches
  | .select _ e arms otherwise =>
    let elseAt := base + size ((selector vars e).map (·.code)) + total (arms.map fun arm => testsLength arm.1) + 1
    blockStarts loops depth elseAt otherwise ++
      armStarts loops depth (elseAt + size (block vars loops elseAt otherwise) + 1) arms
  | .count _ span name first last step body =>
    match counting vars span name first last step with
    | .ok c => blockStarts (loops + 1) (depth + 1) (base + c.start.length + c.testLength) body
    | .error _ => []
  | .while _ cond body => blockStarts (loops + 1) depth (base + size (condition vars cond) + 1) body
  | .repeat _ body _ => blockStarts (loops + 1) depth base body

def blockStarts (loops depth base : Nat) : List Statement → List (Nat × Nat)
  | [] => []
  | s :: rest =>
    (base, depth) :: innerStarts loops depth base s ++
      blockStarts loops depth (base + size (statement vars loops base s)) rest

def branchStarts (loops depth base : Nat) (elseStarts : Nat → List (Nat × Nat)) :
    List (Expression × List Statement) → List (Nat × Nat)
  | [] => elseStarts base
  | (cond, body) :: rest =>
    let bodyAt := base + size (condition vars cond) + 1
    blockStarts loops depth bodyAt body ++
      branchStarts loops depth (bodyAt + size (block vars loops bodyAt body) + 1) elseStarts rest

def armStarts (loops depth base : Nat) : List (List CaseLabel × List Statement) → List (Nat × Nat)
  | [] => []
  | (_, body) :: rest =>
    blockStarts loops depth (base + 1) body ++
      armStarts loops depth (base + size (block vars loops (base + 1) body) + 2) rest
end

def starts (p : SourceProgram) : List (Nat × Nat) := blockStarts vars 0 0 0 p.body

end SoftPlc.Compile

namespace SoftPlc

section
variable (vars : List DataType) (all : List StackType) (pc : Nat) (types : StackType)

theorem fine_jump (a : Nat) (here : all[pc]? = some types) (there : all[a]? = some types) :
    Fine vars all pc (.jump a) := by
  refine ⟨types, types, here, rfl, ?_⟩
  intro next member
  rw [List.mem_singleton.mp member]
  exact there

theorem fine_branch (a : Nat) (i : Instruction) (branch : i = .jumpIfFalse a ∨ i = .jumpIfTrue a)
    (here : all[pc]? = some (.bool :: types)) (there : all[a]? = some types)
    (behind : all[pc + 1]? = some types) : Fine vars all pc i := by
  have both : ∀ next ∈ [a, pc + 1], all[next]? = some types := by
    intro next member
    simp only [List.mem_cons, List.not_mem_nil, or_false] at member
    rcases member with rfl | rfl
    · exact there
    · exact behind
  rcases branch with rfl | rfl
  · exact ⟨_, types, here, rfl, both⟩
  · exact ⟨_, types, here, rfl, both⟩

theorem fine_discard (t : DataType) (here : all[pc]? = some (t :: types))
    (behind : all[pc + 1]? = some types) : Fine vars all pc .discard := by
  refine ⟨_, types, here, rfl, ?_⟩
  intro next member
  rw [List.mem_singleton.mp member]
  exact behind

theorem fine_halt (here : all[pc]? = some types) : Fine vars all pc .halt :=
  ⟨types, types, here, rfl, by simp [Instruction.successors]⟩

end

namespace Compile

def DepthsAt (all : List StackType) (starts : List (Nat × Nat)) : Prop :=
  ∀ start ∈ starts, (all[start.1]?).map List.length = some start.2

theorem depths_append (all : List StackType) (p q : List (Nat × Nat)) (first : DepthsAt all p)
    (second : DepthsAt all q) : DepthsAt all (p ++ q) := by
  intro start member
  rcases List.mem_append.mp member with inside | inside
  · exact first start inside
  · exact second start inside

theorem depths_nil (all : List StackType) : DepthsAt all [] := by
  intro start member
  simp at member

-- The part has types on the way that go with any whole in which it may stand: the type behind
-- it, and at the exit of the loop around it, has to be the one in front.
def Typeable (vars : List DataType) (loops base : Nat) (items : List Item) (types : StackType)
    (starts : List (Nat × Nat)) : Prop :=
  ∃ between : List StackType, between.length = items.length ∧
    ∀ all turn exit, Turned turn loops exit → Located all base between →
      all[base + items.length]? = some types → (0 < loops → all[exit]? = some types) →
        all[base]? = some types ∧ TypedCode vars all base (items.map turn) ∧ DepthsAt all starts

variable (vars : List DataType) (loops base : Nat) (types : StackType)

theorem nothing_typeable : Typeable vars loops base [] types [] := by
  refine ⟨[], rfl, ?_⟩
  intro all turn exit _ _ behind _
  exact ⟨behind, typed_nil vars all base, depths_nil all⟩

theorem sequence_typeable (first others : List Item) (inFirst inOthers : List (Nat × Nat))
    (front : Typeable vars loops base first types inFirst)
    (back : Typeable vars loops (base + first.length) others types inOthers) :
    Typeable vars loops base (first ++ others) types ((base, types.length) :: inFirst ++ inOthers) := by
  obtain ⟨p, pLength, pTyped⟩ := front
  obtain ⟨q, qLength, qTyped⟩ := back
  refine ⟨p ++ q, by simp [pLength, qLength], ?_⟩
  intro all turn exit turned located behind outer
  obtain ⟨inP, inQ⟩ := (located_append all base p q).mp located
  rw [pLength] at inQ
  rw [List.length_append, ← Nat.add_assoc] at behind
  obtain ⟨middle, typedOthers, depthsOthers⟩ := qTyped all turn exit turned inQ behind outer
  obtain ⟨start, typedFirst, depthsFirst⟩ := pTyped all turn exit turned inP middle outer
  refine ⟨start, ?_, depths_append all _ _ ?_ depthsOthers⟩
  · rw [List.map_append]
    refine (typed_append vars all base _ _).mpr ⟨typedFirst, ?_⟩
    rw [List.length_map]
    exact typedOthers
  · intro place member
    rcases List.mem_cons.mp member with rfl | inside
    · rw [start, Option.map_some]
    · exact depthsFirst place inside

theorem straight_typeable (code : List Instruction) (passes : Passes vars code types types) :
    Typeable vars loops base (ops code) types [] := by
  obtain ⟨between, length, typed⟩ := passes
  refine ⟨between, by simp [ops, length], ?_⟩
  intro all turn exit turned located behind _
  rw [turned_ops turn loops exit turned]
  obtain ⟨start, typedCode⟩ := typed all base located (by simpa [ops] using behind)
  exact ⟨start, typedCode, depths_nil all⟩

theorem exit_typeable (inside : 0 < loops) : Typeable vars loops base [.exit] types [] := by
  refine ⟨[types], rfl, ?_⟩
  intro all turn exit turned located _ outer
  have here := (located_singleton all base types).mp located
  refine ⟨here, ?_, depths_nil all⟩
  rw [List.map_singleton, turned.exit inside]
  exact (typed_singleton vars all base _).mpr (fine_jump vars all base types exit here (outer inside))

theorem leave_typeable : Typeable vars loops base [.op .halt] types [] := by
  refine ⟨[types], rfl, ?_⟩
  intro all turn exit turned located _ _
  have here := (located_singleton all base types).mp located
  refine ⟨here, ?_, depths_nil all⟩
  rw [List.map_singleton, turned.op]
  exact (typed_singleton vars all base _).mpr (fine_halt vars all base types here)

end Compile

end SoftPlc
