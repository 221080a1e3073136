import SoftPlc.Proofs.Bytecode.Located
import SoftPlc.Proofs.Machine.Leads
import SoftPlc.Proofs.Typing.Instructions

set_option autoImplicit false

namespace SoftPlc

-- The instruction fits the type at its address, and what it leaves is the type at every address
-- where the program may go on.
def Fine (vars : List DataType) (all : List StackType) (pc : Nat) (i : Instruction) : Prop :=
  ∃ types left, all[pc]? = some types ∧ i.after vars types = some left ∧
    ∀ next ∈ i.successors pc, all[next]? = some left

def TypedCode (vars : List DataType) (all : List StackType) (base : Nat) (code : List Instruction) : Prop :=
  ∀ k i, code[k]? = some i → Fine vars all (base + k) i

structure WellTyped (b : Bytecode) (all : List StackType) : Prop where
  length : all.length = b.code.length
  entry : all[0]? = some []
  code : TypedCode (b.vars.map (·.dataType)) all 0 b.code

section
variable (vars : List DataType) (all : List StackType) (base : Nat)

theorem typed_nil : TypedCode vars all base [] := by
  intro k i found
  simp at found

theorem typed_cons (i : Instruction) (code : List Instruction) :
    TypedCode vars all base (i :: code) ↔ Fine vars all base i ∧ TypedCode vars all (base + 1) code := by
  constructor
  · intro typed
    refine ⟨typed 0 i rfl, ?_⟩
    intro k j found
    have fine := typed (k + 1) j (by simpa using found)
    rwa [Nat.add_assoc, Nat.add_comm 1 k]
  · intro typed k j found
    cases k with
    | zero =>
      cases found
      exact typed.1
    | succ k =>
      have fine := typed.2 k j (by simpa using found)
      rwa [Nat.add_assoc, Nat.add_comm 1 k] at fine

theorem typed_append (p q : List Instruction) :
    TypedCode vars all base (p ++ q) ↔ TypedCode vars all base p ∧ TypedCode vars all (base + p.length) q := by
  induction p generalizing base with
  | nil => simp [typed_nil]
  | cons i p ih =>
    simp only [List.cons_append, typed_cons, ih, List.length_cons, and_assoc]
    rw [Nat.add_right_comm, Nat.add_assoc]

theorem typed_singleton (i : Instruction) : TypedCode vars all base [i] ↔ Fine vars all base i := by
  simp [typed_cons, typed_nil]

end

namespace Machine

variable (b : Bytecode) (all : List StackType)

structure Conforms (m : Machine) : Prop where
  vars : m.vars.map (·.dataType) = b.vars.map (·.dataType)
  stack : m.isRunning = true → all[m.pc]? = some (m.stack.map (·.dataType))
  fault : ∀ f, m.fault = some f → f.Dynamic

theorem conforms_step (m : Machine) (typed : WellTyped b all) (conforms : Conforms b all m) :
    Conforms b all (m.step b) := by
  by_cases running : m.isRunning = true
  · have types := conforms.stack running
    have inside := (List.getElem?_eq_some_iff.mp types).1
    rw [typed.length] at inside
    have fetch := List.getElem?_eq_getElem inside
    obtain ⟨before, left, there, fits, next⟩ := typed.code m.pc _ fetch
    rw [Nat.zero_add] at there next
    cases there.symm.trans types
    rw [← conforms.vars] at fits
    have fitting := perform_fits m.vars m.stack m.pc _ left _ rfl fits
    rw [at_fetch b m m.pc m.stack m.vars _ ⟨running, rfl, rfl, rfl⟩ fetch]
    cases performed : perform m.vars m.stack b.code[m.pc] with
    | error failure =>
      rw [performed] at fitting
      refine ⟨conforms.vars, ?_, ?_⟩
      · intro still
        simp [isRunning] at still
      · intro f same
        cases same
        exact fitting.symm.imp_left And.left
    | ok effect =>
      rw [performed] at fitting
      obtain ⟨stack, vars, target⟩ := fitting
      refine ⟨vars.trans conforms.vars, ?_, conforms.fault⟩
      intro still
      rcases target with halts | target
      · simp [isRunning, halts] at still
      · rw [stack]
        exact next _ target
  · rw [step_stopped b m (by simpa using running)]
    exact conforms

theorem conforms_iterate (m : Machine) (n : Nat) (typed : WellTyped b all) (conforms : Conforms b all m) :
    Conforms b all ((step b)^[n] m) := by
  induction n generalizing m with
  | zero => exact conforms
  | succ n ih =>
    rw [Function.iterate_succ_apply]
    exact ih (m.step b) (conforms_step b all m typed conforms)

end Machine

end SoftPlc
