import SoftPlc.Proofs.Debugger.Variables

set_option autoImplicit false

namespace SoftPlc.Machine

section
variable {α β : Type} (s : List Value)

def Drops (attempt : Attempt α) : Prop := ∀ f rest, attempt = .error (f, rest) → rest <:+ s

def Takes (attempt : Attempt (α × List Value)) : Prop :=
  Drops s attempt ∧ ∀ a rest, attempt = .ok (a, rest) → rest <:+ s

theorem drops_ok (a : α) : Drops s (.ok a) := nofun

theorem drops_error (f : Fault) (rest : List Value) (lower : rest <:+ s) :
    Drops s (.error (f, rest) : Attempt α) := by
  intro f' rest' same
  cases same
  exact lower

theorem drops_bind (first : Attempt α) (next : α → Attempt β) (drops : Drops s first)
    (later : ∀ a, first = .ok a → Drops s (next a)) : Drops s (first >>= next) := by
  cases first with
  | error e => exact fun f rest same => drops f rest (congrArg Except.error (Except.error.inj same))
  | ok a => exact later a rfl

theorem takes_bind (first : Attempt (α × List Value)) (next : α × List Value → Attempt (β × List Value))
    (takes : Takes s first) (later : ∀ a rest, rest <:+ s → Takes s (next (a, rest))) : Takes s (first >>= next) := by
  refine ⟨drops_bind s first next takes.1 fun a done => (later a.1 a.2 (takes.2 a.1 a.2 done)).1, ?_⟩
  intro b rest done
  obtain ⟨a, taken, others⟩ := (bind_ok _ _ _).mp done
  exact (later a.1 a.2 (takes.2 a.1 a.2 taken)).2 b rest others

theorem takes_ok (a : α) (rest : List Value) (lower : rest <:+ s) : Takes s (.ok (a, rest)) := by
  refine ⟨drops_ok s _, fun a' rest' same => ?_⟩
  cases same
  exact lower

theorem takes_error (f : Fault) (rest : List Value) (lower : rest <:+ s) :
    Takes s (.error (f, rest) : Attempt (α × List Value)) :=
  ⟨drops_error s f rest lower, nofun⟩

theorem takes_lower (top : List Value) (attempt : Attempt (α × List Value)) (takes : Takes s attempt)
    (lower : s <:+ top) : Takes top attempt :=
  ⟨fun f rest failed => (takes.1 f rest failed).trans lower, fun a rest done => (takes.2 a rest done).trans lower⟩

theorem pop_takes : Takes s (Stack.pop s) := by
  cases s with
  | nil => exact takes_error [] _ [] List.suffix_rfl
  | cons v rest => exact takes_ok (v :: rest) v rest (List.suffix_cons v rest)

theorem pop_typed_takes (t : DataType) : Takes s (popTyped t s) := by
  refine takes_bind s _ _ (pop_takes s) fun v rest lower => ?_
  by_cases typed : v.dataType = t
  · simp only [if_pos typed]
    exact takes_ok s v rest lower
  · simp only [if_neg typed]
    exact takes_error s _ rest lower

theorem pop_bool_takes : Takes s (popBool s) := by
  refine takes_bind s _ _ (pop_typed_takes s .bool) fun v rest lower => ?_
  cases v with
  | bool c => exact takes_ok s c rest lower
  | int _ | dint _ | dword _ | real _ => exact takes_error s _ rest lower

theorem operands_takes (op : BinaryOp) (t : DataType) : Takes s (operands op t s) := by
  have left (right : Value) (rest : List Value) (lower : rest <:+ s) :
      Takes s (do let taken ← popTyped t rest; return ((taken.1, right), taken.2)) :=
    takes_bind s _ _ (takes_lower rest s _ (pop_typed_takes rest t) lower) fun left rest lower => takes_ok s _ rest lower
  unfold operands
  by_cases compares : op.isComparison = true
  · simp only [if_pos compares]
    exact takes_bind s _ _ (pop_typed_takes s t) left
  · simp only [if_neg compares]
    exact takes_bind s _ _ (pop_takes s) left

theorem pop_many_takes (count : Nat) : Takes s (Stack.popMany count s) := by
  unfold Stack.popMany
  split
  · exact takes_error s _ s List.suffix_rfl
  · exact takes_ok s _ _ (List.drop_suffix count s)

theorem push_drops (v : Value) (rest : List Value) (lower : rest <:+ s) : Drops s (Stack.push bound v rest) := by
  unfold Stack.push
  split
  · exact drops_ok s _
  · exact drops_error s _ rest lower

theorem push_result_drops (result : Except Fault Value) (rest : List Value) (lower : rest <:+ s) :
    Drops s (pushResult result rest) := by
  cases result with
  | ok v => exact push_drops s v rest lower
  | error f => exact drops_error s f rest lower

theorem pushing_drops (vars : List Value) (pushed : Attempt (List Value)) (drops : Drops s pushed) :
    Drops s (do return ({ stack := ← pushed, vars } : Effect)) :=
  drops_bind s _ _ drops fun _ _ => drops_ok s _

end

theorem perform_drops (vars s : List Value) (i : Instruction) : Drops s (perform vars s i) := by
  cases i with
  | push v => exact pushing_drops s vars _ (push_drops s v s List.suffix_rfl)
  | load index =>
    simp only [perform, loadVariable]
    cases vars[index]? with
    | none => exact drops_error s _ s List.suffix_rfl
    | some v => exact pushing_drops s vars _ (push_drops s v s List.suffix_rfl)
  | store index =>
    have takes := pop_takes s
    refine drops_bind s _ _ takes.1 fun popped done => ?_
    obtain ⟨v, rest⟩ := popped
    have lower := takes.2 v rest done
    simp only
    cases vars[index]? with
    | none => exact drops_error s _ rest lower
    | some old =>
      by_cases same : old.dataType = v.dataType
      · simp only [if_pos same]
        exact drops_ok s _
      · simp only [if_neg same]
        exact drops_error s _ rest lower
  | duplicate =>
    cases s with
    | nil => exact drops_error [] _ [] List.suffix_rfl
    | cons v rest => exact pushing_drops _ vars _ (push_drops _ v _ List.suffix_rfl)
  | discard => exact drops_bind s _ _ (pop_takes s).1 fun _ _ => drops_ok s _
  | cast t =>
    refine drops_bind s _ _ (pop_takes s).1 fun popped done => ?_
    obtain ⟨v, rest⟩ := popped
    exact pushing_drops s vars _ (push_drops s _ rest ((pop_takes s).2 v rest done))
  | binary op t =>
    refine drops_bind s _ _ (operands_takes s op t).1 fun popped done => ?_
    obtain ⟨both, rest⟩ := popped
    exact pushing_drops s vars _ (push_result_drops s _ rest ((operands_takes s op t).2 both rest done))
  | negate t | complement t =>
    refine drops_bind s _ _ (pop_typed_takes s t).1 fun popped done => ?_
    obtain ⟨v, rest⟩ := popped
    exact pushing_drops s vars _ (push_result_drops s _ rest ((pop_typed_takes s t).2 v rest done))
  | call f =>
    refine drops_bind s _ _ (pop_many_takes s f.arity).1 fun popped done => ?_
    obtain ⟨args, rest⟩ := popped
    exact pushing_drops s vars _ (push_result_drops s _ rest ((pop_many_takes s f.arity).2 args rest done))
  | jumpIfFalse _ | jumpIfTrue _ => exact drops_bind s _ _ (pop_bool_takes s).1 fun _ _ => drops_ok s _
  | jump _ | nop | halt => exact drops_ok s _
  | illegal byte => exact drops_error s _ s List.suffix_rfl

inductive Answer where
  | goesOn
  | halted
  | faulted
deriving DecidableEq, Repr

def answer (m : Machine) : Answer :=
  if m.halted then .halted else if m.fault.isSome then .faulted else .goesOn

inductive Begun (b : Bytecode) : Machine → Prop where
  | fresh (values : List Value) : Begun b (start b values)
  | resumed (frame : Frame) : Begun b (resume frame)

variable (b : Bytecode)

def advance (m : Machine) : Answer × Machine := ((m.step b).answer, m.step b)

theorem answer_goes_on (m : Machine) : m.answer = .goesOn ↔ m.isRunning = true := by
  unfold answer isRunning
  cases m.halted <;> cases m.fault <;> simp

theorem answer_faulted (m : Machine) (faulted : m.answer = .faulted) : m.halted = false ∧ m.fault.isSome = true := by
  unfold answer at faulted
  cases halted : m.halted <;> cases fault : m.fault <;> simp [halted, fault] at faulted ⊢

theorem begun_bounded (m : Machine) (begun : Begun b m) : m.stack.length ≤ bound.depth := by
  cases begun with
  | fresh values => exact Nat.zero_le _
  | resumed frame =>
    unfold resume
    by_cases deep : bound.depth < frame.stack.length
    · rw [if_pos deep]
      exact Nat.zero_le _
    · rw [if_neg deep]
      exact Nat.not_lt.mp deep

theorem begun_unhalted (m : Machine) (begun : Begun b m) : m.halted = false := by
  cases begun with
  | fresh values => rfl
  | resumed frame =>
    unfold resume
    split <;> rfl

theorem step_within (m : Machine) (room : m.stack.length ≤ bound.depth) : (m.step b).stack.length ≤ bound.depth := by
  unfold step
  split
  · exact room
  · cases b.code[m.pc]? with
    | none => exact room
    | some i =>
      cases performed : perform m.vars m.stack i with
      | error failure =>
        simp only [performed]
        exact Nat.le_trans (perform_drops m.vars m.stack i _ _ performed).length_le room
      | ok effect =>
        simp only [performed]
        exact perform_bounded m.vars m.stack i effect performed room

theorem iterate_within (m : Machine) (n : Nat) (room : m.stack.length ≤ bound.depth) :
    ((step b)^[n] m).stack.length ≤ bound.depth := by
  induction n with
  | zero => exact room
  | succ n ih =>
    rw [Function.iterate_succ_apply']
    exact step_within b _ ih

theorem step_fails (m : Machine) (faulted : (m.step b).answer = .faulted) :
    (m.step b).pc = m.pc ∧ (m.step b).halted = m.halted ∧ (m.step b).vars = m.vars ∧ (m.step b).stack <:+ m.stack := by
  by_cases running : m.isRunning = true
  · obtain ⟨unhalted, fault⟩ := answer_faulted _ faulted
    have clear := ((is_running_iff m).mp running).2
    unfold step at unhalted fault ⊢
    rw [if_neg (by simp [running])] at unhalted fault ⊢
    cases fetched : b.code[m.pc]? with
    | none => exact ⟨rfl, rfl, rfl, List.suffix_rfl⟩
    | some i =>
      cases performed : perform m.vars m.stack i with
      | error failure =>
        simp only [performed]
        exact ⟨trivial, trivial, trivial, perform_drops m.vars m.stack i _ _ performed⟩
      | ok effect => simp [fetched, performed, clear] at fault
  · rw [step_stopped b m (by simpa using running)]
    exact ⟨rfl, rfl, rfl, List.suffix_rfl⟩

theorem advance_stopped (m : Machine) (stopped : (m.step b).answer ≠ .goesOn) (k : Nat) :
    ((step b)^[k] (m.step b)).advance b = m.advance b := by
  have still : (m.step b).isRunning = false := by
    simpa using mt (answer_goes_on _).mpr stopped
  rw [iterate_stopped b _ still, advance, step_stopped b _ still]
  rfl

-- Any code, any machine that a run may begin with, any number of steps.
theorem machine_is_safe (m : Machine) (begun : Begun b m) (n : Nat) :
    let now := (step b)^[n] m
    now.stack.length ≤ bound.depth ∧ now.vars.map (·.dataType) = m.vars.map (·.dataType) ∧
      ((now.advance b).1 = .faulted → (now.advance b).2.pc = now.pc ∧ (now.advance b).2.halted = now.halted ∧
        (now.advance b).2.vars = now.vars ∧ (now.advance b).2.stack <:+ now.stack) ∧
      ((now.advance b).1 ≠ .goesOn → ∀ k, ((step b)^[k] (now.advance b).2).advance b = now.advance b) :=
  ⟨iterate_within b m n (begun_bounded b m begun), iterate_types b m n, step_fails b _, advance_stopped b _⟩

theorem division_takes_both_operands :
    let b : Bytecode := { name := none, code := [.jump 9, .illegal 7, .binary .divide .int], vars := [] }
    let m := resume ⟨2, [.int 0, .int 7, .bool true], [.real ⟨0⟩], 5⟩
    Begun b m ∧ (m.advance b).1 = .faulted ∧ (m.advance b).2.stack = [.bool true] ∧ (m.advance b).2.pc = 2 ∧
      ∀ k, ((step b)^[k] (m.advance b).2).advance b = m.advance b := by
  intro b m
  have begun : Begun b m := .resumed _
  have faulted : (m.advance b).1 = .faulted := by decide
  obtain ⟨_, _, fails, stays⟩ := machine_is_safe b m begun 0
  exact ⟨begun, faulted, by decide, (fails faulted).1, stays (by simp [faulted])⟩

end SoftPlc.Machine
