import SoftPlc.Proofs.Compile.Statements

set_option autoImplicit false

namespace SoftPlc.Compile

open Machine Evaluation

def Concluded : Option (Except Fault Unit × Store) → Machine → Prop
  | none, m => m.isRunning = true
  | some (.ok _, store), m => m.Halted store
  | some (.error f, store), m => m.Faulted f store

theorem concluded_stopped (result : Except Fault Unit × Store) (m : Machine)
    (concluded : Concluded (some result) m) : m.isRunning = false := by
  obtain ⟨outcome, store⟩ := result
  cases outcome with
  | ok u => exact not_running_of_halted m concluded.halted
  | error f => exact not_running_of_fault m f concluded.fault

theorem concluded_ok (result : Except Fault Unit × Store) (m : Machine) (store : Store)
    (concluded : Concluded (some result) m) : result = (.ok (), store) ↔ m.halted = true ∧ m.vars = store := by
  obtain ⟨outcome, left⟩ := result
  cases outcome with
  | ok u => simp [concluded.halted, concluded.vars]
  | error f => simp [concluded.running]

theorem concluded_error (result : Except Fault Unit × Store) (m : Machine) (f : Fault) (store : Store)
    (concluded : Concluded (some result) m) : result = (.error f, store) ↔ m.fault = some f ∧ m.vars = store := by
  obtain ⟨outcome, left⟩ := result
  cases outcome with
  | ok u => simp [concluded.fault]
  | error g => simp [concluded.fault, concluded.vars]

theorem program_leads (p : SourceProgram) (b : Bytecode) (values : List Value) (rounds : Nat)
    (compiled : p.compile = .ok b) :
    Leads b (match converting.program b.vars p rounds (start b values).vars with | none => rounds | some _ => 0)
      (start b values) (Concluded (converting.program b.vars p rounds (start b values).vars)) := by
  obtain ⟨items, _, body, _, _, code⟩ := compile_ok p b compiled
  have simulates := block_simulates b.vars rounds 0 0 p.body items body
  have turned : Turned Item.instruction 0 0 := ⟨fun _ => rfl, fun inside => absurd inside (by omega)⟩
  have whole := located_whole b.code
  rw [code] at whole
  obtain ⟨located, halting⟩ := (located_append _ _ _ _).mp whole
  rw [← code, List.length_map] at halting
  rw [← code] at located
  have leads := simulates b Item.instruction 0 [] (start b values).vars (start b values) turned located
    ⟨⟨rfl, rfl, rfl, rfl⟩, start_fits p b values compiled⟩
  unfold Reading.program
  match ended : converting.block b.vars rounds p.body (start b values).vars with
  | none =>
    rw [ended] at leads
    exact leads
  | some (.next, store) =>
    rw [ended] at leads
    refine leads_then b 0 1 _ _ _ leads ?_
    intro m here
    exact leads_halt b m _ [] store here.1 ((located_singleton _ _ _).mp halting)
  | some (.exit, store) =>
    rw [ended] at leads
    exact leads_weaken b 0 _ _ _ (fun m ends => absurd ends.1 (by omega)) leads
  | some (.leave, store) =>
    rw [ended] at leads
    exact leads
  | some (.fault f, store) =>
    rw [ended] at leads
    exact leads

theorem verdict_concluded (p : SourceProgram) (b : Bytecode) (values : List Value) (n : Nat)
    (result : Except Fault Unit × Store) (compiled : p.compile = .ok b)
    (stopped : ((step b)^[n] (start b values)).isRunning = false)
    (room : ¬ ((step b)^[n] (start b values)).hasFault .stackOverflow)
    (comes : converting.ComesTo b.vars p (start b values).vars result) :
    Concluded (some result) ((step b)^[n] (start b values)) := by
  obtain ⟨rounds, verdict⟩ := comes
  have leads := program_leads p b values rounds compiled
  rw [verdict] at leads
  obtain ⟨k, _, done⟩ := leads
  have same (there : ((step b)^[k] (start b values)).isRunning = false) :
      (step b)^[k] (start b values) = (step b)^[n] (start b values) :=
    stopped_unique b (start b values) k n there stopped
  rcases done with concluded | ⟨f, fault, kind⟩
  · rw [← same (concluded_stopped result _ concluded)]
    exact concluded
  · rw [← same (not_running_of_fault _ f fault)] at room
    exact absurd ⟨f, fault, kind⟩ room

-- A machine that stops within `n` steps goes round no loop more often than that.
theorem verdict_exists (p : SourceProgram) (b : Bytecode) (values : List Value) (n : Nat)
    (compiled : p.compile = .ok b) (stopped : ((step b)^[n] (start b values)).isRunning = false)
    (room : ¬ ((step b)^[n] (start b values)).hasFault .stackOverflow) :
    ∃ result, converting.ComesTo b.vars p (start b values).vars result := by
  have leads := program_leads p b values (n + 1) compiled
  cases verdict : converting.program b.vars p (n + 1) (start b values).vars with
  | some result => exact ⟨result, n + 1, verdict⟩
  | none =>
    rw [verdict] at leads
    obtain ⟨k, enough, done⟩ := leads
    change n + 1 ≤ k at enough
    have same := iterate_after_stop b (start b values) n k (by omega) stopped
    rw [same] at done
    rcases done with running | overflowed
    · exact absurd (stopped.symm.trans running) (by decide)
    · exact absurd overflowed room

-- For every accepted source and every store that a run is given: unless the stack or the steps
-- give out, the program evaluates to a verdict exactly when the machine stops with it.
theorem compiled_run_concludes (source : String) (b : Bytecode) (values : List Value) (maxSteps : UInt32)
    (compiled : compile source = .ok b)
    (room : ¬ ((start b values).run b maxSteps).hasFault .stackOverflow)
    (within : ¬ ((start b values).run b maxSteps).hasFault .maxStepsExceeded) :
    ∃ p, parse (scan source) = .ok p ∧
      (∀ store, converting.ComesTo b.vars p (start b values).vars (.ok (), store) ↔
        ((start b values).run b maxSteps).halted = true ∧ ((start b values).run b maxSteps).vars = store) ∧
      ∀ f store, converting.ComesTo b.vars p (start b values).vars (.error f, store) ↔
        ((start b values).run b maxSteps).fault = some f ∧ ((start b values).run b maxSteps).vars = store := by
  obtain ⟨p, parsed, made⟩ := (bind_ok _ _ _).mp compiled
  obtain ⟨same, stopped⟩ := run_within b maxSteps (start b values) within
  rw [same] at room ⊢
  let n := (start b values).remaining maxSteps
  have concludes (result : Except Fault Unit × Store) (comes : converting.ComesTo b.vars p (start b values).vars result) :=
    verdict_concluded p b values n result made stopped room comes
  obtain ⟨verdict, comes⟩ := verdict_exists p b values n made stopped room
  have concluded := concludes verdict comes
  refine ⟨p, parsed, fun store => ⟨fun comes => ?_, fun ended => ?_⟩, fun f store => ⟨fun comes => ?_, fun ended => ?_⟩⟩
  · exact (concluded_ok _ _ store (concludes _ comes)).mp rfl
  · rw [← (concluded_ok verdict _ store concluded).mpr ended]
    exact comes
  · exact (concluded_error _ _ f store (concludes _ comes)).mp rfl
  · rw [← (concluded_error verdict _ f store concluded).mpr ended]
    exact comes

-- One reading of what is left open, and with it every run that the stack and the steps last for, of every
-- accepted source on every store: the program comes to a verdict exactly when the machine stops with it.
theorem compiled_run_agrees :
    ∃ reading : Reading, ∀ (source : String) (b : Bytecode) (values : List Value) (maxSteps : UInt32),
      compile source = .ok b →
      ¬ ((start b values).run b maxSteps).hasFault .stackOverflow →
      ¬ ((start b values).run b maxSteps).hasFault .maxStepsExceeded →
      ∃ p, parse (scan source) = .ok p ∧
        (∀ store, reading.ComesTo b.vars p (start b values).vars (.ok (), store) ↔
          ((start b values).run b maxSteps).halted = true ∧ ((start b values).run b maxSteps).vars = store) ∧
        ∀ f store, reading.ComesTo b.vars p (start b values).vars (.error f, store) ↔
          ((start b values).run b maxSteps).fault = some f ∧ ((start b values).run b maxSteps).vars = store := by
  exact ⟨converting, compiled_run_concludes⟩

theorem counting_case_run_agrees :
    let source := "VAR i : INT; s : INT; END_VAR FOR i := 1 TO 9 DO CASE i OF 2..3: s := s + i; 5: EXIT; END_CASE END_FOR"
    ∃ b, compile source = .ok b ∧ ¬ ((start b []).run b 10000).hasFault .stackOverflow ∧
      ¬ ((start b []).run b 10000).hasFault .maxStepsExceeded ∧
      ∃ (reading : Reading) (p : SourceProgram), reading.ComesTo b.vars p [.int 0, .int 0] (.ok (), [.int 5, .int 5]) := by
  intro source
  obtain ⟨b, compiled, room, within, initial, halted, left⟩ :
      ∃ b, compile source = .ok b ∧ ¬ ((start b []).run b 10000).hasFault .stackOverflow ∧
        ¬ ((start b []).run b 10000).hasFault .maxStepsExceeded ∧
        (start b []).vars = [.int 0, .int 0] ∧ ((start b []).run b 10000).halted = true ∧
        ((start b []).run b 10000).vars = [.int 5, .int 5] :=
    accepted_with _ _ (by decide +kernel)
  obtain ⟨reading, agrees⟩ := compiled_run_agrees
  obtain ⟨p, _, finishes, _⟩ := agrees source b [] 10000 compiled room within
  rw [initial] at finishes
  exact ⟨b, compiled, room, within, reading, p, (finishes _).mpr ⟨halted, left⟩⟩

-- A shift works in the type of its left operand: in the promoted type this one gives 1048576.
theorem shift_works_in_left_type :
    (∃ b, compile "VAR a : INT := 1; b : DINT := 20; c : DINT; END_VAR c := a SHL b;" = .ok b ∧
      ((start b []).run b 10000).halted = true ∧
      ((start b []).run b 10000).vars = [.int 1, .dint 20, .dint 0]) ∧
    BinaryOp.shiftLeft.apply ((Value.int 1).cast (DataType.int.promote .dint))
      ((Value.dint 20).cast (DataType.int.promote .dint)) = .ok (.dint 1048576) :=
  ⟨accepted_with _ _ (by decide +kernel), rfl⟩

end SoftPlc.Compile
