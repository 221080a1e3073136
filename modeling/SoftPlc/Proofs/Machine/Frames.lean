import SoftPlc.Proofs.Compile.Variables
import SoftPlc.Proofs.Machine.Steps

set_option autoImplicit false

namespace SoftPlc.Machine

theorem pop_length (s t : List Value) (v : Value) (popped : Stack.pop s = .ok (v, t)) :
    t.length ≤ s.length := by
  cases s with
  | nil => cases popped
  | cons w s =>
    cases popped
    simp

theorem pop_typed_length (t : DataType) (s rest : List Value) (v : Value)
    (popped : popTyped t s = .ok (v, rest)) : rest.length ≤ s.length := by
  obtain ⟨⟨w, below⟩, taken, checked⟩ := (bind_ok _ _ _).mp popped
  by_cases typed : w.dataType = t
  · simp only [if_pos typed] at checked
    cases checked
    exact pop_length s rest v taken
  · simp only [if_neg typed] at checked
    cases checked

theorem pop_bool_length (s rest : List Value) (c : Bool) (popped : popBool s = .ok (c, rest)) :
    rest.length ≤ s.length := by
  obtain ⟨⟨v, below⟩, taken, checked⟩ := (bind_ok _ _ _).mp popped
  have shorter := pop_typed_length .bool s below v taken
  cases v <;> cases checked
  exact shorter

theorem push_result_ok (result : Except Fault Value) (s t : List Value) (pushed : pushResult result s = .ok t) :
    ∃ v, Stack.push bound v s = .ok t := by
  cases result with
  | ok v => exact ⟨v, pushed⟩
  | error f => cases pushed

theorem perform_leaves (vars s : List Value) (i : Instruction) (effect : Effect)
    (done : perform vars s i = .ok effect) :
    effect.vars.map (·.dataType) = vars.map (·.dataType) ∧
      ((∃ v rest, Stack.push bound v rest = .ok effect.stack) ∨ effect.stack.length ≤ s.length) := by
  cases i with
  | push v =>
    obtain ⟨t, pushed, same⟩ := (bind_ok _ _ _).mp done
    cases same
    exact ⟨rfl, .inl ⟨v, s, pushed⟩⟩
  | load index =>
    cases found : vars[index]? with
    | none => simp [perform, loadVariable, found] at done
    | some v =>
      simp only [perform, loadVariable, found] at done
      obtain ⟨t, pushed, same⟩ := (bind_ok _ _ _).mp done
      cases same
      exact ⟨rfl, .inl ⟨v, s, pushed⟩⟩
  | store index =>
    obtain ⟨⟨v, rest⟩, popped, stored⟩ := (bind_ok _ _ _).mp done
    cases found : vars[index]? with
    | none => simp [found] at stored
    | some old =>
      by_cases same : old.dataType = v.dataType
      · simp only [found, if_pos same] at stored
        cases stored
        exact ⟨types_set vars index old v found same, .inr (pop_length s rest v popped)⟩
      · simp [found, same] at stored
  | duplicate =>
    cases s with
    | nil => cases done
    | cons v rest =>
      obtain ⟨t, pushed, same⟩ := (bind_ok _ _ _).mp done
      cases same
      exact ⟨rfl, .inl ⟨v, v :: rest, pushed⟩⟩
  | discard =>
    obtain ⟨⟨v, rest⟩, popped, same⟩ := (bind_ok _ _ _).mp done
    cases same
    exact ⟨rfl, .inr (pop_length s rest v popped)⟩
  | cast t =>
    obtain ⟨⟨v, rest⟩, _, others⟩ := (bind_ok _ _ _).mp done
    obtain ⟨u, pushed, same⟩ := (bind_ok _ _ _).mp others
    cases same
    exact ⟨rfl, .inl ⟨v.cast t, rest, pushed⟩⟩
  | binary _ _ | negate _ | complement _ | call _ =>
    obtain ⟨⟨_, rest⟩, _, others⟩ := (bind_ok _ _ _).mp done
    obtain ⟨t, pushed, same⟩ := (bind_ok _ _ _).mp others
    cases same
    obtain ⟨v, pushed⟩ := push_result_ok _ rest t pushed
    exact ⟨rfl, .inl ⟨v, rest, pushed⟩⟩
  | jumpIfFalse a | jumpIfTrue a =>
    obtain ⟨⟨c, rest⟩, popped, same⟩ := (bind_ok _ _ _).mp done
    cases same
    exact ⟨rfl, .inr (pop_bool_length s rest c popped)⟩
  | jump _ | nop | halt =>
    cases done
    exact ⟨rfl, .inr (Nat.le_refl _)⟩
  | illegal _ => cases done

theorem perform_bounded (vars s : List Value) (i : Instruction) (effect : Effect)
    (done : perform vars s i = .ok effect) (room : s.length ≤ bound.depth) :
    effect.stack.length ≤ bound.depth := by
  rcases (perform_leaves vars s i effect done).2 with ⟨v, rest, pushed⟩ | shorter
  · exact (Stack.length_push bound v rest effect.stack pushed).2
  · exact Nat.le_trans shorter room

variable (b : Bytecode)

theorem step_cases (m : Machine) (running : m.isRunning = true) :
    (∃ f stack, m.step b = { m with steps := m.steps + 1, fault := some f, stack }) ∨
      ∃ i effect, perform m.vars m.stack i = .ok effect ∧ m.step b =
        { m with
          steps := m.steps + 1
          pc := effect.target.getD (m.pc + 1)
          stack := effect.stack
          vars := effect.vars
          halted := effect.halts } := by
  unfold step
  rw [if_neg (by simp [running])]
  cases b.code[m.pc]? with
  | none => exact .inl ⟨_, m.stack, rfl⟩
  | some i =>
    cases performed : perform m.vars m.stack i with
    | error failure => exact .inl ⟨failure.1, failure.2, by simp only [performed]⟩
    | ok effect => exact .inr ⟨i, effect, performed, by simp only [performed]⟩

theorem step_bounded (m : Machine) (room : m.stack.length ≤ bound.depth)
    (running : (m.step b).isRunning = true) : (m.step b).stack.length ≤ bound.depth := by
  by_cases before : m.isRunning = true
  · rcases step_cases b m before with ⟨f, stack, faulted⟩ | ⟨i, effect, performed, same⟩
    · simp [faulted, isRunning] at running
    · rw [same]
      exact perform_bounded m.vars m.stack i effect performed room
  · rw [step_stopped b m (by simpa using before)]
    exact room

theorem step_counted (m : Machine) (running : m.isRunning = true) : (m.step b).steps = m.steps + 1 := by
  rcases step_cases b m running with ⟨f, stack, same⟩ | ⟨i, effect, _, same⟩
  · rw [same]
  · rw [same]

theorem iterate_bounded (m : Machine) (n : Nat) (room : m.stack.length ≤ bound.depth)
    (running : ((step b)^[n] m).isRunning = true) :
    ((step b)^[n] m).stack.length ≤ bound.depth := by
  induction n with
  | zero => exact room
  | succ n ih =>
    have before := running_before b m n (n + 1) (Nat.le_succ n) running
    rw [Function.iterate_succ_apply'] at running ⊢
    exact step_bounded b _ (ih before) running

theorem iterate_counted (m : Machine) (n : Nat) (room : m.steps.toNat + n < 4294967296)
    (running : ((step b)^[n] m).isRunning = true) :
    ((step b)^[n] m).steps.toNat = m.steps.toNat + n := by
  induction n with
  | zero => rfl
  | succ n ih =>
    have before := running_before b m n (n + 1) (Nat.le_succ n) running
    have sofar := ih (by omega) before
    rw [Function.iterate_succ_apply', step_counted b _ before, UInt32.toNat_add, sofar]
    exact Nat.mod_eq_of_lt (by simpa [Nat.add_assoc] using room)

theorem resume_frame (m : Machine) (room : m.stack.length ≤ bound.depth)
    (running : m.isRunning = true) : resume m.frame = m := by
  obtain ⟨halted, fault⟩ := (is_running_iff m).mp running
  have fits : ¬ bound.depth < m.frame.stack.length := Nat.not_lt.mpr room
  rw [resume, if_neg fits]
  cases m
  simp only [frame] at halted fault ⊢
  rw [halted, fault]

theorem remaining_later (m : Machine) (maxSteps : UInt32) (n : Nat) (within : n ≤ m.remaining maxSteps)
    (running : ((step b)^[n] m).isRunning = true) :
    n + ((step b)^[n] m).remaining maxSteps = m.remaining maxSteps := by
  have limit : maxSteps.toNat < 4294967296 := maxSteps.toNat_lt
  have counter : m.steps.toNat < 4294967296 := m.steps.toNat_lt
  unfold remaining at within ⊢
  rw [iterate_counted b m n (by omega) running]
  omega

-- A run that goes on later has only the steps that are left of it, and ends in the same machine.
theorem run_from_later (m : Machine) (maxSteps : UInt32) (n : Nat) (within : n ≤ m.remaining maxSteps)
    (running : ((step b)^[n] m).isRunning = true) :
    ((step b)^[n] m).run b maxSteps = m.run b maxSteps := by
  have left := remaining_later b m maxSteps n within running
  rw [run_iterate, run_iterate, ← left, ← Function.iterate_add_apply, Nat.add_comm]

end SoftPlc.Machine
