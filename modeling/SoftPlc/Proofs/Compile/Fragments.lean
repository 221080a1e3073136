import SoftPlc.Proofs.Compile.Computing
import SoftPlc.Proofs.Machine.Frames
import SoftPlc.Proofs.Machine.Twins
import SoftPlc.Proofs.Typing.Expressions

set_option autoImplicit false

namespace SoftPlc

def Instruction.taken : Instruction → Nat
  | .cast _ | .negate _ | .complement _ => 1
  | .binary _ _ => 2
  | .call f => f.arity
  | _ => 0

theorem after_length (vars : List DataType) (i : Instruction) (types left : StackType) (computing : i.Computing)
    (fits : i.after vars types = some left) :
    i.taken ≤ types.length ∧ left.length = types.length - i.taken + 1 := by
  cases i with
  | push v =>
    cases fits
    exact ⟨Nat.zero_le _, rfl⟩
  | load index =>
    obtain ⟨t, _, rfl⟩ := Option.map_eq_some_iff.mp fits
    exact ⟨Nat.zero_le _, rfl⟩
  | cast t =>
    cases types with
    | nil => cases fits
    | cons u types =>
      cases fits
      exact ⟨Nat.succ_le_succ (Nat.zero_le _), rfl⟩
  | negate t | complement t =>
    cases types with
    | nil => cases fits
    | cons u types =>
      obtain ⟨_, same⟩ := Option.ite_none_right_eq_some.mp fits
      cases same
      exact ⟨Nat.succ_le_succ (Nat.zero_le _), rfl⟩
  | binary op t =>
    match types with
    | [] => cases fits
    | [_] => cases fits
    | _ :: _ :: types =>
      obtain ⟨_, same⟩ := Option.ite_none_right_eq_some.mp fits
      cases same
      exact ⟨Nat.succ_le_succ (Nat.succ_le_succ (Nat.zero_le _)), rfl⟩
  | call f =>
    obtain ⟨⟨_, parameters⟩, same⟩ := Option.ite_none_right_eq_some.mp fits
    cases same
    have count := congrArg List.length parameters
    rw [List.length_take, List.length_reverse, ← f.arity_parameters] at count
    refine ⟨by simp only [Instruction.taken]; omega, ?_⟩
    rw [List.length_cons, List.length_drop, Instruction.taken]
  | store _ | duplicate | discard | jump _ | jumpIfFalse _ | jumpIfTrue _ | nop | halt | illegal _ =>
    exact computing.elim

theorem computing_successors (i : Instruction) (computing : i.Computing) (pc : Nat) : i.successors pc = [pc + 1] := by
  cases i <;> first | rfl | exact computing.elim

namespace Machine

def performAll (vars : List Value) : List Instruction → List Value → Attempt (List Value)
  | [], s => .ok s
  | i :: rest, s =>
    match perform vars s i with
    | .error failure => .error failure
    | .ok effect => performAll vars rest effect.stack

def Comes (next : Nat) (vars : List Value) : Attempt (List Value) → Machine → Prop
  | .ok s, m => m.At next s vars
  | .error (f, _), m => m.Faulted f vars

theorem computing_effect (vars s : List Value) (i : Instruction) (effect : Effect) (computing : i.Computing)
    (done : perform vars s i = .ok effect) : effect = { stack := effect.stack, vars } := by
  cases perform_does vars s i effect done with
  | computes => rfl
  | stores | jumps | branchesFalse | branchesTrue | halts => exact computing.elim

theorem comes_all (b : Bytecode) (code : List Instruction) (m : Machine) (base : Nat) (s vars : List Value)
    (computing : Compile.AllComputing code) (located : Located b.code base code) (here : m.At base s vars) :
    Comes (base + code.length) vars (performAll vars code s) ((step b)^[code.length] m) := by
  induction code generalizing m base s with
  | nil => exact here
  | cons i rest ih =>
    obtain ⟨first, others⟩ := (located_cons b.code base i rest).mp located
    obtain ⟨plain, later⟩ := List.forall_mem_cons.mp computing
    rw [List.length_cons, Function.iterate_succ_apply]
    cases performed : perform vars s i with
    | error failure =>
      have faulted := step_fault b m base s vars failure.2 i failure.1 here first performed
      rw [iterate_stopped b _ (not_running_of_fault _ _ faulted.fault), performAll, performed]
      exact faulted
    | ok effect =>
      have straight := computing_effect vars s i effect plain performed
      have done := performed
      rw [straight] at done
      have next := step_effect b m base s vars effect.stack vars i none here first done
      have comes := ih (m.step b) (base + 1) effect.stack later others next
      rw [Nat.add_assoc, Nat.add_comm 1] at comes
      simpa only [performAll, performed] using comes

theorem comes_so_far (b : Bytecode) (code : List Instruction) (m : Machine) (base n : Nat) (s vars : List Value)
    (computing : Compile.AllComputing code) (located : Located b.code base code) (here : m.At base s vars)
    (within : n ≤ code.length) (running : ((step b)^[n] m).isRunning = true) : ((step b)^[n] m).pc = base + n := by
  have front : Located b.code base (code.take n) := (List.take_prefix n code).trans located
  have comes := comes_all b (code.take n) m base s vars (fun i member => computing i (List.mem_of_mem_take member))
    front here
  rw [List.length_take, Nat.min_eq_left within] at comes
  cases performed : performAll vars (code.take n) s with
  | error failure =>
    rw [performed] at comes
    exact absurd running (by simp [not_running_of_fault _ _ comes.fault])
  | ok s' =>
    rw [performed] at comes
    exact comes.pc

end Machine

namespace Compile

open Machine

-- The most values that the code of an expression has on the stack at once, where it has so many there
-- already.
def peak (held : Nat) : List Instruction → Nat
  | [] => held
  | i :: rest => max held (peak (held - i.taken + 1) rest)

def Fragment.slots (f : Fragment) : Nat := peak 0 f.code

def alone (code : List Instruction) : Bytecode := { name := none, code, vars := [] }

def Tells (s : List Value) (result : Except Fault Value) : Attempt (List Value) → Prop
  | .ok s' => ∃ v, result = .ok v ∧ s' = v :: s
  | .error (f, _) => f.kind = .stackOverflow ∨ result = .error f

section
variable (store s : List Value) (f : Fragment) (result : Except Fault Value) (computes : Computes store f result)
  (computing : AllComputing f.code) (m : Machine) (here : m.At 0 s store)
include computing here

theorem alone_ends (s' : List Value) (performed : performAll store f.code s = .ok s') :
    ((step (alone f.code))^[f.code.length] m).At f.code.length s' store ∧
      ((step (alone f.code))^[f.code.length + 1] m).hasFault .internalError := by
  have comes := comes_all (alone f.code) f.code m 0 s store computing (located_whole _) here
  rw [performed, Nat.zero_add] at comes
  have reached : ((step (alone f.code))^[f.code.length] m).At f.code.length s' store := comes
  have beyond : (alone f.code).code[((step (alone f.code))^[f.code.length] m).pc]? = none := by
    rw [reached.pc]
    exact List.getElem?_eq_none (Nat.le_refl f.code.length)
  refine ⟨reached, ?_⟩
  rw [Function.iterate_succ_apply']
  simp only [step, reached.running, beyond]
  exact ⟨_, rfl, rfl⟩

include computes

theorem fault_tells (failure : Fault × List Value) (performed : performAll store f.code s = .error failure) :
    failure.1.kind = .stackOverflow ∨ result = .error failure.1 := by
  have located := located_whole (alone f.code).code
  have faulted := comes_all (alone f.code) f.code m 0 s store computing located here
  rw [performed] at faulted
  have stopped := not_running_of_fault _ failure.1 faulted.fault
  obtain ⟨n, _, done⟩ := computes.runs (alone f.code) m 0 s located here
  have same (g : Fault) (fault : ((step (alone f.code))^[n] m).fault = some g) : g = failure.1 := by
    have found := faulted.fault
    rw [← stopped_unique _ m n f.code.length (not_running_of_fault _ g fault) stopped, fault] at found
    exact Option.some.inj found
  rcases done with yielded | ⟨g, fault, kind⟩
  · cases result with
    | error g => exact .inr (congrArg Except.error (same g yielded.fault))
    | ok v =>
      rcases Nat.lt_or_ge n f.code.length with early | late
      · have far := comes_so_far (alone f.code) f.code m 0 n s store computing located here (Nat.le_of_lt early)
          yielded.running
        rw [yielded.pc] at far
        omega
      · rw [← iterate_after_stop _ m _ n late stopped] at stopped
        cases stopped.symm.trans yielded.running
  · exact .inl (same g fault ▸ kind)

theorem end_tells (s' : List Value) (performed : performAll store f.code s = .ok s') :
    ∃ v, result = .ok v ∧ s' = v :: s := by
  have located := located_whole (alone f.code).code
  obtain ⟨reached, out, ended, internal⟩ := alone_ends store s f computing m here s' performed
  have stopped := not_running_of_fault _ out ended
  obtain ⟨n, _, done⟩ := computes.runs (alone f.code) m 0 s located here
  -- the only fault there can be is the one behind the end
  have same (g : Fault) (fault : ((step (alone f.code))^[n] m).fault = some g) : g.kind = .internalError := by
    rw [stopped_unique _ m n _ (not_running_of_fault _ g fault) stopped, ended] at fault
    rw [← Option.some.inj fault]
    exact internal
  rcases done with yielded | ⟨g, fault, kind⟩
  · cases result with
    | error g =>
      have arithmetical : g.Arithmetical := computes.delivers
      simp [Fault.Arithmetical, same g yielded.fault] at arithmetical
    | ok v =>
      have within : n ≤ f.code.length := by
        by_contra late
        cases stopped.symm.trans (running_before _ m (f.code.length + 1) n (by omega) yielded.running)
      have far := comes_so_far (alone f.code) f.code m 0 n s store computing located here within yielded.running
      obtain rfl : n = f.code.length := by
        rw [yielded.pc, Nat.zero_add, Nat.zero_add] at far
        exact far.symm
      exact ⟨v, rfl, reached.stack.symm.trans yielded.stack⟩
  · cases (same g fault).symm.trans kind

end

-- The code is known to get to its result at some time, in any program: in a program of its own it can only
-- be behind its last instruction.
theorem computes_tells (store s : List Value) (f : Fragment) (result : Except Fault Value)
    (computes : Computes store f result) (computing : AllComputing f.code) :
    Tells s result (performAll store f.code s) := by
  have here : ({ vars := store, stack := s } : Machine).At 0 s store := ⟨rfl, rfl, rfl, rfl⟩
  cases performed : performAll store f.code s with
  | error failure => exact fault_tells store s f result computes computing _ here failure performed
  | ok s' => exact end_tells store s f result computes computing _ here s' performed

theorem held_le_peak (held : Nat) (code : List Instruction) : held ≤ peak held code := by
  cases code with
  | nil => exact Nat.le_refl held
  | cons i rest => exact Nat.le_max_left held _

theorem peak_cast (code : List Instruction) (t : DataType) (held : Nat) :
    peak held (code ++ [.cast t]) ≤ max 1 (peak held code) := by
  induction code generalizing held with
  | nil => simp only [List.nil_append, peak, Instruction.taken]; omega
  | cons i rest ih =>
    have later := ih (held - i.taken + 1)
    simp only [List.cons_append, peak]
    omega

theorem typed_first (vars : List DataType) (all : List StackType) (i : Instruction) (rest : List Instruction)
    (base : Nat) (types : StackType) (computing : i.Computing) (typed : TypedCode vars all base (i :: rest))
    (here : all[base]? = some types) :
    ∃ left, i.after vars types = some left ∧ all[base + 1]? = some left ∧ TypedCode vars all (base + 1) rest ∧
      i.taken ≤ types.length ∧ left.length = types.length - i.taken + 1 := by
  obtain ⟨⟨found, left, there, fits, next⟩, others⟩ := (typed_cons vars all base i rest).mp typed
  cases there.symm.trans here
  exact ⟨left, fits, next (base + 1) (by simp [computing_successors i computing]), others,
    after_length vars i types left computing fits⟩

theorem passes_alone (vars : List DataType) (code : List Instruction) (types left : StackType)
    (passes : Passes vars code types left) : ∃ all, all[0]? = some types ∧ TypedCode vars all 0 code := by
  obtain ⟨between, length, typed⟩ := passes
  refine ⟨between ++ [left], typed (between ++ [left]) 0 ?_ ?_⟩
  · exact List.prefix_append between [left]
  · simp [← length]

section
variable (store : List Value) (all : List StackType)

theorem room_suffices (code : List Instruction) (base below held : Nat) (s : List Value) (computing : AllComputing code)
    (typed : TypedCode (store.map (·.dataType)) all base code) (types : all[base]? = some (s.map (·.dataType)))
    (least : s.length ≤ below + held) (room : below + peak held code ≤ Machine.bound.depth)
    (failure : Fault × List Value) (performed : performAll store code s = .error failure) :
    failure.1.Arithmetical := by
  induction code generalizing base held s with
  | nil => cases performed
  | cons i rest ih =>
    obtain ⟨first, later⟩ := List.forall_mem_cons.mp computing
    obtain ⟨left, fits, next, others, _, length⟩ := typed_first _ all i rest base _ first typed types
    have fitting := perform_fits store s base _ left i rfl fits
    rw [List.length_map] at length
    simp only [peak] at room
    cases done : perform store s i with
    | error failed =>
      rw [done] at fitting
      simp only [performAll, done, Except.error.injEq] at performed
      subst performed
      refine fitting.resolve_right fun ⟨_, full⟩ => ?_
      have peaked := held_le_peak (held - i.taken + 1) rest
      omega
    | ok effect =>
      rw [done] at fitting
      simp only [performAll, done] at performed
      rw [← fitting.1] at next length
      rw [List.length_map] at length
      exact ih (base + 1) (held - i.taken + 1) effect.stack later others next (by omega) (by omega) performed

-- Code that does not fail has had its slots. The types that it has on an empty stack tell that it never
-- takes a value that it has not left.
theorem room_needed (own : List StackType) (code : List Instruction) (base below : Nat) (held : StackType)
    (s s' : List Value) (computing : AllComputing code) (owned : TypedCode (store.map (·.dataType)) own base code)
    (start : own[base]? = some held) (typed : TypedCode (store.map (·.dataType)) all base code)
    (types : all[base]? = some (s.map (·.dataType))) (exactly : s.length = below + held.length)
    (room : s.length ≤ Machine.bound.depth) (performed : performAll store code s = .ok s') :
    below + peak held.length code ≤ Machine.bound.depth := by
  induction code generalizing base held s with
  | nil => exact exactly ▸ room
  | cons i rest ih =>
    obtain ⟨first, later⟩ := List.forall_mem_cons.mp computing
    obtain ⟨more, _, nextOwn, othersOwn, enough, ownLength⟩ := typed_first _ own i rest base _ first owned start
    obtain ⟨left, fits, next, others, _, length⟩ := typed_first _ all i rest base _ first typed types
    have fitting := perform_fits store s base _ left i rfl fits
    rw [List.length_map] at length
    cases done : perform store s i with
    | error failed => simp [performAll, done] at performed
    | ok effect =>
      rw [done] at fitting
      simp only [performAll, done] at performed
      rw [← fitting.1] at next length
      rw [List.length_map] at length
      have peaked := ih (base + 1) more effect.stack later othersOwn nextOwn others next (by omega)
        (perform_bounded store s i effect done room) performed
      rw [ownLength] at peaked
      simp only [peak]
      omega

end

def Settles (store stack : List Value) (code : List Instruction) (result : Except Fault Value) : Prop :=
  ∀ (b : Bytecode) (m : Machine) (base : Nat), Located b.code base code → m.At base stack store →
    Yields (base + code.length) stack store result ((step b)^[code.length] m)

theorem slots_positive (vars : List DataType) (f : Fragment) (yields : Yielding vars f) : 1 ≤ f.slots := by
  unfold Fragment.slots
  cases code : f.code with
  | nil =>
    obtain ⟨between, length, typed⟩ := yields []
    rw [code] at length typed
    obtain rfl : between = [] := List.length_eq_zero_iff.mp length
    cases (typed [[f.dataType]] 0 List.nil_prefix rfl).1
  | cons i rest =>
    have left := held_le_peak (0 - i.taken + 1) rest
    simp only [peak]
    omega

theorem slots_cast (f : Fragment) (t : DataType) : (f.castTo t).slots ≤ max 1 f.slots := by
  unfold Fragment.castTo
  split
  · exact Nat.le_max_right 1 f.slots
  · split
    · exact Nat.le_max_left 1 f.slots
    · exact peak_cast f.code t 0

section
variable (store stack : List Value) (f : Fragment) (result : Except Fault Value)
  (computes : Computes store f result) (computing : AllComputing f.code)
  (yields : Yielding (store.map (·.dataType)) f)
include computes computing yields

theorem computes_settles (room : stack.length + f.slots ≤ Machine.bound.depth) : Settles store stack f.code result := by
  intro b m base located here
  have comes := comes_all b f.code m base stack store computing located here
  have tells := computes_tells store stack f result computes computing
  cases performed : performAll store f.code stack with
  | ok s' =>
    rw [performed] at comes tells
    obtain ⟨v, rfl, rfl⟩ := tells
    exact comes
  | error failure =>
    rw [performed] at comes tells
    obtain ⟨all, start, typed⟩ := passes_alone _ _ _ _ (yields (stack.map (·.dataType)))
    have arithmetical := room_suffices store all f.code 0 stack.length 0 stack computing typed start (Nat.le_refl _)
      room failure performed
    rcases tells with overflow | rfl
    · simp [Fault.Arithmetical, overflow] at arithmetical
    · exact comes

theorem computes_overflows (v : Value) (value : result = .ok v) (bounded : stack.length ≤ Machine.bound.depth)
    (few : Machine.bound.depth < stack.length + f.slots) (b : Bytecode) (m : Machine) (base : Nat)
    (located : Located b.code base f.code) (here : m.At base stack store) :
    ((step b)^[f.code.length] m).hasFault .stackOverflow := by
  have comes := comes_all b f.code m base stack store computing located here
  have tells := computes_tells store stack f result computes computing
  cases performed : performAll store f.code stack with
  | ok s' =>
    obtain ⟨all, start, typed⟩ := passes_alone _ _ _ _ (yields (stack.map (·.dataType)))
    obtain ⟨own, origin, owned⟩ := passes_alone _ _ _ _ (yields [])
    have needed := room_needed store all own f.code 0 stack.length [] stack s' computing owned origin typed start rfl
      bounded performed
    exact absurd needed (Nat.not_le.mpr few)
  | error failure =>
    rw [performed, value] at tells
    rw [performed] at comes
    rcases tells with overflow | other
    · exact ⟨failure.1, comes.fault, overflow⟩
    · cases other

theorem conversions_settle (t : DataType) (room : stack.length + f.slots ≤ Machine.bound.depth) :
    Settles store stack (f.castTo t).code (result.map (·.cast t)) ∧
      Settles store stack (f.code ++ [.cast t]) (result.map (·.cast t)) := by
  have least := slots_positive _ f yields
  have emitted : Computes store ⟨f.code ++ [.cast t], t⟩ (result >>= fun v => .ok (v.cast t)) :=
    computes_unary store f result (.cast t) t (fun v => .ok (v.cast t)) computes (by simp)
      (fun v below _ => perform_cast store below v t) (fun v _ => v.dataType_cast t)
  have same : (result >>= fun v => .ok (v.cast t)) = result.map (·.cast t) := by cases result <;> rfl
  rw [same] at emitted
  have added : Yielding (store.map (·.dataType)) ⟨f.code ++ [.cast t], t⟩ := fun types =>
    passes_append _ _ _ types _ _ (yields types) (passes_one _ (.cast t) _ _ rfl fun _ => rfl)
  constructor
  · apply computes_settles store stack (f.castTo t) _ (computes_cast store f result t computes)
      (cast_computing f t computing) (yielding_cast _ f t yields)
    have slots := slots_cast f t
    omega
  · apply computes_settles store stack ⟨f.code ++ [Instruction.cast t], t⟩ _ emitted
      (computing_last f.code (.cast t) computing trivial) added
    have slots := peak_cast f.code t 0
    simp only [Fragment.slots] at room least ⊢
    omega

end

section
variable (vars : List Variable) (store stack : List Value) (e : Expression) (f : Fragment)
  (compiled : expression vars e = .ok f) (fits : Fits vars store)
include compiled fits

theorem fewer_slots_overflow (v : Value) (value : Evaluation.converting.expression vars store e = .ok v)
    (bounded : stack.length ≤ Machine.bound.depth) (few : Machine.bound.depth < stack.length + f.slots) (b : Bytecode)
    (m : Machine) (base : Nat) (located : Located b.code base f.code) (here : m.At base stack store) :
    ((step b)^[f.code.length] m).hasFault .stackOverflow := by
  have yields := expression_yields vars e f compiled
  rw [← fits] at yields
  exact computes_overflows store stack f _ (expression_computes vars store e f fits compiled)
    (expression_computing vars e f compiled) yields v value bounded few b m base located here

-- The evaluator converts every operand to the type it is needed in, literals like all others.
theorem fragment_computes_expression (room : stack.length + f.slots ≤ Machine.bound.depth) :
    Delivers f.dataType (Evaluation.converting.expression vars store e) ∧
      Settles store stack f.code (Evaluation.converting.expression vars store e) ∧
      ∀ t, Settles store stack (f.castTo t).code ((Evaluation.converting.expression vars store e).map (·.cast t)) ∧
        Settles store stack (f.code ++ [.cast t]) ((Evaluation.converting.expression vars store e).map (·.cast t)) := by
  have computes := expression_computes vars store e f fits compiled
  have computing := expression_computing vars e f compiled
  have yields := expression_yields vars e f compiled
  rw [← fits] at yields
  exact ⟨computes.delivers, computes_settles store stack f _ computes computing yields room,
    fun t => conversions_settle store stack f _ computes computing yields t room⟩

end

theorem choice_computes_both :
    let x : Span := default
    let vars : List Variable := [⟨"FLAG", .bool, .ordinary, false, .bool false⟩, ⟨"TOTAL", .dint, .ordinary, false, .dint 0⟩,
      ⟨"LEVEL", .int, .ordinary, false, .int 0⟩]
    let e : Expression := .call x "SEL" [.named x "FLAG", .negation x (.integer x 1),
      .binary x .divide (.named x "TOTAL") (.binary x .subtract (.integer x 2) (.named x "LEVEL"))]
    let stack : List Value := List.replicate 59 (.int 0)
    ∃ f, expression vars e = .ok f ∧ stack.length + f.slots = Machine.bound.depth ∧
      Settles [.bool true, .dint 7, .int 5] stack f.code (.ok (.dint (-2))) ∧
      Settles [.bool false, .dint 7, .int 2] stack f.code (.error (.of .divisionByZero)) := by
  intro x vars e stack
  let f : Fragment := ⟨[.load 0, .push (.dint (-1)), .load 1, .push (.int 2), .load 2, .binary .subtract .int, .cast .dint,
    .binary .divide .dint, .call (.select .dint)], .dint⟩
  have compiled : expression vars e = .ok f := rfl
  have full : stack.length + f.slots = Machine.bound.depth := by decide
  have first := fragment_computes_expression vars [.bool true, .dint 7, .int 5] stack e f compiled rfl (Nat.le_of_eq full)
  have second := fragment_computes_expression vars [.bool false, .dint 7, .int 2] stack e f compiled rfl (Nat.le_of_eq full)
  have quotient : Evaluation.converting.expression vars [.bool true, .dint 7, .int 5] e = .ok (.dint (-2)) := rfl
  have fault : Evaluation.converting.expression vars [.bool false, .dint 7, .int 2] e = .error (.of .divisionByZero) := rfl
  exact ⟨f, compiled, full, quotient ▸ first.2.1, fault ▸ second.2.1⟩

end Compile

end SoftPlc
