import SoftPlc.Proofs.Machine.Effects
import SoftPlc.Proofs.Machine.Steps

set_option autoImplicit false

namespace SoftPlc.Machine

structure At (m : Machine) (pc : Nat) (stack vars : List Value) : Prop where
  running : m.isRunning = true
  pc : m.pc = pc
  stack : m.stack = stack
  vars : m.vars = vars

structure Faulted (m : Machine) (f : Fault) (vars : List Value) : Prop where
  running : m.halted = false
  fault : m.fault = some f
  vars : m.vars = vars

structure Halted (m : Machine) (vars : List Value) : Prop where
  halted : m.halted = true
  fault : m.fault = none
  vars : m.vars = vars

def Yields (next : Nat) (stack vars : List Value) : Except Fault Value → Machine → Prop
  | .ok v, m => m.At next (v :: stack) vars
  | .error f, m => m.Faulted f vars

variable (b : Bytecode)

-- After at least so many steps the goal holds, unless the stack has overflowed.
def Leads (least : Nat) (m : Machine) (goal : Machine → Prop) : Prop :=
  ∃ n, least ≤ n ∧ (goal ((step b)^[n] m) ∨ ((step b)^[n] m).hasFault .stackOverflow)

theorem leads_now (m : Machine) (goal : Machine → Prop) (holds : goal m) : Leads b 0 m goal :=
  ⟨0, Nat.le_refl 0, .inl holds⟩

theorem leads_less (least more : Nat) (m : Machine) (goal : Machine → Prop) (less : least ≤ more)
    (leads : Leads b more m goal) : Leads b least m goal := by
  obtain ⟨n, enough, done⟩ := leads
  exact ⟨n, Nat.le_trans less enough, done⟩

theorem leads_weaken (least : Nat) (m : Machine) (goal weaker : Machine → Prop)
    (weaken : ∀ m, goal m → weaker m) (leads : Leads b least m goal) : Leads b least m weaker := by
  obtain ⟨n, enough, done⟩ := leads
  exact ⟨n, enough, done.imp (weaken _) id⟩

theorem leads_trans (first second : Nat) (m : Machine) (mid goal : Machine → Prop)
    (leads : Leads b first m mid) (rest : ∀ m, mid m → Leads b second m goal) :
    Leads b (first + second) m goal := by
  obtain ⟨n, enough, done⟩ := leads
  rcases done with reached | overflowed
  · obtain ⟨k, more, done⟩ := rest _ reached
    refine ⟨k + n, by omega, ?_⟩
    simpa only [Function.iterate_add_apply] using done
  · -- a machine that has overflowed stays so for any number of steps
    refine ⟨second + n, by omega, .inr ?_⟩
    obtain ⟨f, fault, kind⟩ := overflowed
    rw [Function.iterate_add_apply, iterate_stopped b _ (not_running_of_fault _ f fault)]
    exact ⟨f, fault, kind⟩

theorem leads_then (first second : Nat) (m : Machine) (mid goal : Machine → Prop)
    (leads : Leads b first m mid) (rest : ∀ m, mid m → Leads b second m goal) : Leads b 0 m goal :=
  leads_less b 0 (first + second) m goal (Nat.zero_le _) (leads_trans b first second m mid goal leads rest)

theorem leads_step (least : Nat) (m : Machine) (goal : Machine → Prop)
    (leads : Leads b least (m.step b) goal) : Leads b (least + 1) m goal := by
  obtain ⟨n, enough, done⟩ := leads
  exact ⟨n + 1, by omega, by simpa only [Function.iterate_succ_apply] using done⟩

theorem at_fetch (m : Machine) (pc : Nat) (stack vars : List Value) (i : Instruction)
    (here : m.At pc stack vars) (code : b.code[pc]? = some i) :
    m.step b = match perform vars stack i with
      | .error (fault, stack) => { m with steps := m.steps + 1, fault := some fault, stack }
      | .ok effect => { m with
          steps := m.steps + 1
          pc := effect.target.getD (pc + 1)
          stack := effect.stack
          vars := effect.vars
          halted := effect.halts } := by
  obtain ⟨running, rfl, rfl, rfl⟩ := here
  simp only [step, running, code]
  rfl

theorem step_effect (m : Machine) (pc : Nat) (stack vars stack' vars' : List Value) (i : Instruction)
    (target : Option Nat) (here : m.At pc stack vars) (code : b.code[pc]? = some i)
    (done : perform vars stack i = .ok { stack := stack', vars := vars', target }) :
    (m.step b).At (target.getD (pc + 1)) stack' vars' := by
  have running := (is_running_iff m).mp here.running
  rw [at_fetch b m pc stack vars i here code, done]
  exact ⟨(is_running_iff _).mpr ⟨rfl, running.2⟩, rfl, rfl, rfl⟩

theorem step_fault (m : Machine) (pc : Nat) (stack vars stack' : List Value) (i : Instruction)
    (f : Fault) (here : m.At pc stack vars) (code : b.code[pc]? = some i)
    (failed : perform vars stack i = .error (f, stack')) : (m.step b).Faulted f vars := by
  have running := (is_running_iff m).mp here.running
  rw [at_fetch b m pc stack vars i here code, failed]
  exact ⟨running.1, rfl, here.vars⟩

theorem leads_effect (m : Machine) (pc : Nat) (stack vars stack' vars' : List Value) (i : Instruction)
    (target : Option Nat) (here : m.At pc stack vars) (code : b.code[pc]? = some i)
    (done : perform vars stack i = .ok { stack := stack', vars := vars', target }) :
    Leads b 1 m (·.At (target.getD (pc + 1)) stack' vars') :=
  leads_step b 0 m _ (leads_now b _ _ (step_effect b m pc stack vars stack' vars' i target here code done))

section
variable (m : Machine) (pc : Nat) (stack vars below : List Value) (i : Instruction)
  (here : m.At pc stack vars) (code : b.code[pc]? = some i)
include here code

theorem step_with_room (v : Value) (room : below.length < bound.depth)
    (performed : perform vars stack i = do return { stack := ← pushResult (.ok v) below, vars }) :
    (m.step b).At (pc + 1) (v :: below) vars := by
  have pushed : pushResult (.ok v) below = .ok (v :: below) := if_pos room
  rw [pushed] at performed
  exact step_effect b m pc stack vars (v :: below) vars i none here code performed

theorem step_overflows (v : Value) (full : ¬ below.length < bound.depth)
    (performed : perform vars stack i = do return { stack := ← pushResult (.ok v) below, vars }) :
    (m.step b).Faulted (.because .stackOverflow bound.overflow) vars := by
  have refused : pushResult (.ok v) below = .error (.because .stackOverflow bound.overflow, below) := if_neg full
  rw [refused] at performed
  exact step_fault b m pc stack vars below i _ here code performed

end

theorem leads_result (m : Machine) (pc : Nat) (stack vars below : List Value) (i : Instruction)
    (result : Except Fault Value) (here : m.At pc stack vars) (code : b.code[pc]? = some i)
    (performed : perform vars stack i = do return { stack := ← pushResult result below, vars }) :
    Leads b 1 m (Yields (pc + 1) below vars result) := by
  cases result with
  | error f =>
    refine leads_step b 0 m _ (leads_now b _ _ ?_)
    exact step_fault b m pc stack vars below i f here code performed
  | ok v =>
    by_cases room : below.length < bound.depth
    · exact leads_step b 0 m _ (leads_now b _ _ (step_with_room b m pc stack vars below i here code v room performed))
    · have faulted := step_overflows b m pc stack vars below i here code v room performed
      exact ⟨1, Nat.le_refl 1, .inr ⟨_, faulted.fault, rfl⟩⟩

theorem leads_discard (m : Machine) (pc : Nat) (v : Value) (stack vars : List Value)
    (here : m.At pc (v :: stack) vars) (code : b.code[pc]? = some .discard) :
    Leads b 1 m (·.At (pc + 1) stack vars) :=
  leads_effect b m pc _ vars stack vars .discard none here code (perform_discard vars stack v)

theorem leads_jump (m : Machine) (pc a : Nat) (stack vars : List Value) (here : m.At pc stack vars)
    (code : b.code[pc]? = some (.jump a)) : Leads b 1 m (·.At a stack vars) :=
  leads_effect b m pc _ vars stack vars (.jump a) (some a) here code (perform_jump vars stack a)

theorem leads_jump_if_false (m : Machine) (pc a : Nat) (c : Bool) (stack vars : List Value)
    (here : m.At pc (.bool c :: stack) vars) (code : b.code[pc]? = some (.jumpIfFalse a)) :
    Leads b 1 m (·.At (if c then pc + 1 else a) stack vars) := by
  have leads := leads_effect b m pc _ vars stack vars _ _ here code (perform_jump_if_false vars stack c a)
  cases c <;> exact leads

theorem leads_jump_if_true (m : Machine) (pc a : Nat) (c : Bool) (stack vars : List Value)
    (here : m.At pc (.bool c :: stack) vars) (code : b.code[pc]? = some (.jumpIfTrue a)) :
    Leads b 1 m (·.At (if c then a else pc + 1) stack vars) := by
  have leads := leads_effect b m pc _ vars stack vars _ _ here code (perform_jump_if_true vars stack c a)
  cases c <;> exact leads

theorem leads_store (m : Machine) (pc index : Nat) (v old : Value) (stack vars : List Value)
    (here : m.At pc (v :: stack) vars) (code : b.code[pc]? = some (.store index))
    (found : vars[index]? = some old) (same : old.dataType = v.dataType) :
    Leads b 1 m (·.At (pc + 1) stack (vars.set index v)) :=
  leads_effect b m pc _ vars stack _ (.store index) none here code
    (perform_store vars stack index v old found same)

theorem leads_halt (m : Machine) (pc : Nat) (stack vars : List Value) (here : m.At pc stack vars)
    (code : b.code[pc]? = some .halt) : Leads b 1 m (·.Halted vars) := by
  refine leads_step b 0 m _ (leads_now b _ _ ?_)
  have running := (is_running_iff m).mp here.running
  rw [at_fetch b m pc stack vars .halt here code, perform_halt]
  exact ⟨rfl, running.2, rfl⟩

end SoftPlc.Machine
