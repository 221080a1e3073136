import SoftPlc.Proofs.Typing.Statements

set_option autoImplicit false

namespace SoftPlc.Compile

open Machine

theorem declare_all_types (before vars : List Variable) (ds : List Declaration)
    (compiled : declareAll before ds = .ok vars) :
    vars.map (·.dataType) = before.map (·.dataType) ++ ds.map (·.dataType) := by
  induction ds generalizing before with
  | nil =>
    cases compiled
    simp
  | cons d rest ih =>
    simp only [declareAll, bind_ok, with_line_ok] at compiled
    obtain ⟨v, declared, others⟩ := compiled
    have same := (declare_ok before d v declared).2.2.1
    rw [ih (before ++ [v]) others]
    simp [same]

theorem compiled_well_typed (p : SourceProgram) (b : Bytecode) (compiled : p.compile = .ok b) :
    ∃ all, WellTyped b all ∧ DepthsAt all (starts b.vars p) := by
  obtain ⟨items, _, body, _, _, code⟩ := compile_ok p b compiled
  obtain ⟨between, length, typed⟩ := block_typeable b.vars 0 0 p.body items [] body
  have turned : Turned Item.instruction 0 0 := ⟨fun _ => rfl, fun inside => absurd inside (by omega)⟩
  have whole := located_whole (between ++ [[]])
  obtain ⟨located, last⟩ := (located_append _ _ _ _).mp whole
  rw [length] at last
  have halting := (located_singleton _ _ _).mp last
  obtain ⟨entry, typedBody, depths⟩ := typed _ Item.instruction 0 turned located halting (by omega)
  refine ⟨between ++ [[]], ⟨?_, entry, ?_⟩, depths⟩
  · simp [code, length]
  · rw [code]
    refine (typed_append _ _ 0 _ _).mpr ⟨typedBody, (typed_singleton ..).mpr ?_⟩
    rw [List.length_map]
    exact fine_halt _ _ _ [] halting

theorem start_conforms (p : SourceProgram) (b : Bytecode) (all : List StackType) (values : List Value)
    (compiled : p.compile = .ok b) (typed : WellTyped b all) : Conforms b all (start b values) := by
  refine ⟨start_fits p b values compiled, fun _ => typed.entry, ?_⟩
  intro f fault
  cases fault

-- One list of types for every address, and with it the types on the stack and in the variables of
-- every run at every moment, the faults that a run can have, and the depth in front of statements.
theorem compiled_code_is_typed (source : String) (b : Bytecode) (compiled : compile source = .ok b) :
    ∃ (p : SourceProgram) (all : List StackType), parse (scan source) = .ok p ∧ all.length = b.code.length ∧
      (∀ values n, ((step b)^[n] (start b values)).isRunning = true →
        all[((step b)^[n] (start b values)).pc]? = some (((step b)^[n] (start b values)).stack.map (·.dataType))) ∧
      (∀ values n, ((step b)^[n] (start b values)).vars.map (·.dataType) = p.declarations.map (·.dataType)) ∧
      (∀ values n f, ((step b)^[n] (start b values)).fault = some f →
        f.kind ∈ [.stackOverflow, .divisionByZero, .illegalFunctionCall]) ∧
      (∀ values maxSteps f, ((start b values).run b maxSteps).fault = some f →
        f.kind ∈ [.stackOverflow, .divisionByZero, .illegalFunctionCall, .maxStepsExceeded]) ∧
      ∀ place ∈ starts b.vars p, (all[place.1]?).map List.length = some place.2 := by
  obtain ⟨p, parsed, made⟩ := (bind_ok _ _ _).mp compiled
  obtain ⟨all, typed, depths⟩ := compiled_well_typed p b made
  have conforms (values : List Value) (n : Nat) : Conforms b all ((step b)^[n] (start b values)) :=
    conforms_iterate b all _ n typed (start_conforms p b all values made typed)
  have faults (values : List Value) (n : Nat) (f : Fault)
      (fault : ((step b)^[n] (start b values)).fault = some f) :
      f.kind ∈ [.stackOverflow, .divisionByZero, .illegalFunctionCall] := by
    rcases (conforms values n).fault f fault with overflow | division | call
    · simp [overflow]
    · simp [division]
    · simp [call]
  refine ⟨p, all, parsed, typed.length, fun values n => (conforms values n).stack, ?_, faults, ?_, depths⟩
  · intro values n
    obtain ⟨_, declared, _⟩ := compile_ok p b made
    rw [(conforms values n).vars, declare_all_types [] b.vars p.declarations declared]
    rfl
  · intro values maxSteps f fault
    rw [run_iterate, cutOff] at fault
    split at fault
    · cases fault
      simp [outOfSteps, Fault.because]
    · have kinds := faults values _ f fault
      simp only [List.mem_cons, List.not_mem_nil, or_false] at kinds ⊢
      rcases kinds with kind | kind | kind <;> simp [kind]

theorem counting_case_is_typed :
    let source := "VAR i : INT; r : REAL; END_VAR FOR i := 1 TO 9 DO CASE i OF 2..3: r := SQRT(r + i); 5: EXIT; END_CASE END_FOR"
    ∃ b, compile source = .ok b ∧ ∀ values n, ¬ ((step b)^[n] (start b values)).hasFault .typeMismatch := by
  intro source
  obtain ⟨b, compiled, _⟩ : ∃ b, compile source = .ok b ∧ True := accepted_with _ _ (by decide +kernel)
  obtain ⟨_, _, _, _, _, _, faults, _⟩ := compiled_code_is_typed source b compiled
  refine ⟨b, compiled, fun values n => ?_⟩
  rintro ⟨f, fault, kind⟩
  have possible := faults values n f fault
  simp [kind] at possible

-- The loop is at the start, the CASE behind the test of the loop, and its arms behind the tests of
-- their labels.
example :
    let source := "VAR i : INT; s : INT; END_VAR FOR i := 1 TO 9 DO CASE i OF 2..3: s := i; 5: EXIT; END_CASE END_FOR"
    let found := do
      let p ← parse (scan source)
      return starts (← declareAll [] p.declarations) p
    found.toOption = some [(0, 0), (7, 1), (23, 1), (27, 1)] := by
  decide +kernel

end SoftPlc.Compile
