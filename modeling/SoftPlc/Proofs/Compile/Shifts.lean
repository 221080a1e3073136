import SoftPlc.Proofs.Compile.Agreement
import SoftPlc.Proofs.Compile.Within
import SoftPlc.Proofs.Value.Shifts

set_option autoImplicit false

namespace SoftPlc.Compile

open Machine Evaluation Value

theorem constant_parts (e : Expression) (v : Value) (compiled : constant e = .ok v) (span : Span) (op : BinaryOp)
    (left right : Expression) : .binary span op left right ∉ e.parts := by
  intro member
  unfold constant at compiled
  split at compiled <;> first
    | simp [Expression.parts] at member
    | cases compiled

theorem declare_all_constants (before vars : List Variable) (ds : List Declaration)
    (compiled : declareAll before ds = .ok vars) (d : Declaration) (member : d ∈ ds) (e : Expression)
    (initial : d.initializer = some e) : ∃ v, constant e = .ok v := by
  induction ds generalizing before with
  | nil => cases member
  | cons first rest ih =>
    simp only [declareAll, bind_ok, with_line_ok] at compiled
    obtain ⟨v, declared, others⟩ := compiled
    rcases List.mem_cons.mp member with rfl | later
    · simp only [declare, bind_ok, refuse_ok] at declared
      obtain ⟨_, _, w, value, _⟩ := declared
      simp only [initialValue, initial, bind_ok] at value
      obtain ⟨literal, made, _⟩ := value
      exact ⟨literal, made⟩
    · exact ih (before ++ [v]) others later

theorem operator_located (p : SourceProgram) (b : Bytecode) (compiled : p.compile = .ok b) (span : Span) (op : BinaryOp)
    (left right : Expression) (member : .binary span op left right ∈ p.expressions) :
    ∃ f place, expression b.vars (.binary span op left right) = .ok f ∧ Located b.code place f.code := by
  obtain ⟨items, declared, body, _, _, code⟩ := compile_ok p b compiled
  rcases List.mem_append.mp member with initial | inside
  · obtain ⟨d, listed, within⟩ := List.mem_flatMap.mp initial
    obtain ⟨e, given, part⟩ := List.mem_flatMap.mp within
    obtain ⟨v, literal⟩ := declare_all_constants [] b.vars p.declarations declared d listed e (Option.mem_toList.mp given)
    exact absurd part (constant_parts e v literal span op left right)
  · obtain ⟨s, listed, within⟩ := List.mem_flatMap.mp inside
    obtain ⟨e, given, part⟩ := List.mem_flatMap.mp within
    obtain ⟨loops, base, own, made, outer⟩ := nested_within_block b.vars 0 0 p.body items body s listed
    obtain ⟨whole, wholeOk, parts⟩ := operand_evaluated b.vars loops base s own made e given
    obtain ⟨f, fragment, held⟩ := operator_within b.vars span op left right e whole wholeOk part
    obtain ⟨l, r, _, _, binaryOk⟩ := binary_expression_ok b.vars span op left right f fragment
    have lies := outer f.code (parts f.code _ (operator_mem span op l r f binaryOk) (by simp) held)
    have turned : Turned Item.instruction 0 0 := ⟨fun _ => rfl, fun inside => absurd inside (by omega)⟩
    have final := lies.map Item.instruction
    rw [turned_ops Item.instruction 0 0 turned] at final
    obtain ⟨place, located⟩ := located_of_part b.code f.code (code ▸ final.trans (List.prefix_append _ _).isInfix)
    exact ⟨f, place, fragment, located⟩

theorem check_shift (op : BinaryOp) (shift : op.isShift = true) (t : DataType) (span : Span)
    (checked : checkOperands op t span = .ok ()) : t.isInteger = true := by
  cases op <;> cases shift <;> cases t <;> first | rfl | cases checked

-- Of every shift of an accepted program: only the left operand is an integer for certain, and the
-- count that is looked at is the one that the conversion to its type has left. Where that type is
-- as wide as the count's, or the count is a proper one, it is the count itself.
theorem shift_checks_converted_count (source : String) (p : SourceProgram) (b : Bytecode)
    (compiled : compile source = .ok b) (parsed : parse (scan source) = .ok p) (span : Span) (op : BinaryOp)
    (shift : op.isShift = true) (left right : Expression) (member : .binary span op left right ∈ p.expressions) :
    ∃ l r f place, expression b.vars left = .ok l ∧ expression b.vars right = .ok r ∧
      expression b.vars (.binary span op left right) = .ok f ∧ Located b.code place f.code ∧
      l.dataType.isInteger = true ∧ r.dataType ≠ .bool ∧ f.dataType = l.dataType ∧
      ∀ base stack store m v n, Located b.code base f.code → Stands b.vars base stack store m →
        converting.expression b.vars store left = .ok v → converting.expression b.vars store right = .ok n →
        let count := n.cast l.dataType
        (count.CountsPlaces →
          Leads b 1 m (·.At (base + f.code.length) (shifted op v count.toInt.toNat :: stack) store)) ∧
        (¬ count.CountsPlaces → Leads b 1 m (·.Faulted badCount store)) ∧
        (r.dataType.isInteger = true → n.CountsPlaces → count.toInt = n.toInt) ∧
        (r.dataType.isInteger = true → r.dataType.registers ≤ l.dataType.registers →
          (count.CountsPlaces ↔ n.CountsPlaces)) := by
  obtain ⟨q, parsed', made⟩ := (bind_ok _ _ _).mp compiled
  cases parsed.symm.trans parsed'
  obtain ⟨f, place, fragment, located⟩ := operator_located p b made span op left right member
  obtain ⟨l, r, leftOk, rightOk, binaryOk⟩ := binary_expression_ok b.vars span op left right f fragment
  obtain ⟨unmixed, checked, _, typed⟩ := binary_ok span op l r f binaryOk
  have own : operatorType op l.dataType r.dataType = l.dataType := if_pos shift
  rw [own] at checked typed
  have integer := check_shift op shift l.dataType span checked
  have number : r.dataType ≠ .bool := by
    intro bool
    rw [bool] at unmixed
    revert unmixed integer
    cases l.dataType <;> decide
  have plain : op.isComparison = false := by
    cases op <;> cases shift <;> rfl
  rw [plain] at typed
  refine ⟨l, r, f, place, leftOk, rightOk, fragment, located, integer, number, typed, ?_⟩
  intro base stack store m v n here stands leftValue rightValue count
  have leftTyped : v.dataType = l.dataType := by
    have delivers := (expression_computes b.vars store left l stands.2 leftOk).delivers
    rwa [leftValue] at delivers
  have rightTyped : n.dataType = r.dataType := by
    have delivers := (expression_computes b.vars store right r stands.2 rightOk).delivers
    rwa [rightValue] at delivers
  have runs := (expression_computes b.vars store _ f stands.2 fragment).runs b m base stack here stands.1
  have value : converting.expression b.vars store (.binary span op left right) =
      if count.CountsPlaces then .ok (shifted op v count.toInt.toNat) else .error badCount := by
    rw [Reading.expression, leftValue, rightValue]
    change converting.operate op v n = _
    rw [Reading.operate, if_pos shift]
    change op.apply v (n.cast v.dataType) = _
    rw [leftTyped]
    exact shift_places op shift v (leftTyped ▸ integer) count
  rw [value] at runs
  refine ⟨fun counts => ?_, fun refused => ?_, fun whole counts => ?_, fun whole wide => ?_⟩
  · rwa [if_pos counts] at runs
  · rwa [if_neg refused] at runs
  · exact count_kept n (rightTyped ▸ whole) l.dataType integer counts
  · exact counts_wide n (rightTyped ▸ whole) l.dataType integer (rightTyped ▸ wide)

theorem shift_by_converted_count :
    ∃ b, compile "VAR a : INT := 1; b : DINT := 3; c : INT; END_VAR c := a SHL b;" = .ok b ∧
      Leads b 1 (start b []) (·.At 4 [.int 8] [.int 1, .dint 3, .int 0]) := by
  obtain ⟨b, compiled, table, code⟩ := accepted_with
    "VAR a : INT := 1; b : DINT := 3; c : INT; END_VAR c := a SHL b;"
    (fun b => b.vars = [⟨"A", .int, .ordinary, false, .int 1⟩, ⟨"B", .dint, .ordinary, false, .dint 3⟩,
        ⟨"C", .int, .ordinary, false, .int 0⟩] ∧
      b.code = [.load 0, .load 1, .cast .int, .binary .shiftLeft .int, .store 2, .halt])
    (by decide +kernel)
  have shape : (parse (scan "VAR a : INT := 1; b : DINT := 3; c : INT; END_VAR c := a SHL b;")).toOption.any
      (fun p => p.expressions.any fun e => match e with
        | .binary _ .shiftLeft (.named _ x) (.named _ y) => x == "A" && y == "B"
        | _ => false) = true := by
    decide +kernel
  obtain ⟨p, parsed, _⟩ := (bind_ok _ _ _).mp compiled
  rw [parsed] at shape
  obtain ⟨e, member, form⟩ := List.any_eq_true.mp shape
  split at form
  · rename_i span first x second y
    obtain ⟨rfl, rfl⟩ : x = "A" ∧ y = "B" := by simpa using form
    obtain ⟨l, r, f, place, leftOk, _, fragment, _, _, _, _, evaluated⟩ := shift_checks_converted_count _ p b compiled
      parsed span .shiftLeft rfl (.named first "A") (.named second "B") member
    rw [table] at leftOk fragment
    cases leftOk
    cases fragment
    have located : Located b.code 0 [.load 0, .load 1, .cast .int, .binary .shiftLeft .int] := by
      rw [code]
      exact ⟨[.store 2, .halt], rfl⟩
    have begun : (start b []).vars = [.int 1, .dint 3, .int 0] := by
      rw [start, Bytecode.initialValues, table]
      rfl
    have here : Stands b.vars 0 [] [.int 1, .dint 3, .int 0] (start b []) := by
      refine ⟨⟨rfl, rfl, rfl, begun⟩, ?_⟩
      rw [table]
      rfl
    rw [table] at evaluated here
    have shifts := (evaluated 0 [] [.int 1, .dint 3, .int 0] (start b []) (.int 1) (.dint 3) located here rfl rfl).1
    exact ⟨b, compiled, shifts (by decide)⟩
  · cases form

-- 65536 places are none once they are counted in an INT, and the shift has a result. A count need not
-- be an integer at all.
theorem count_wraps_before_check :
    ¬ (Value.dint 65536).CountsPlaces ∧
    (∃ b, compile "VAR a : INT := 1; b : DINT := 65536; c : INT := 7; END_VAR c := a SHL b;" = .ok b ∧
      ((start b []).run b 10000).halted = true ∧
      ((start b []).run b 10000).vars = [.int 1, .dint 65536, .int 1]) ∧
    ∃ b, compile "VAR a : INT := 1; x : REAL := 2.5; END_VAR a := a SHL x;" = .ok b ∧
      b.vars.map (·.dataType) = [.int, .real] ∧ ((start b []).run b 10000).halted = true :=
  ⟨by decide, accepted_with _ _ (by decide +kernel), accepted_with _ _ (by decide +kernel)⟩

end SoftPlc.Compile
