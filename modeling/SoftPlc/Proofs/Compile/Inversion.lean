import SoftPlc.Compile.Program

set_option autoImplicit false

namespace SoftPlc.Compile

theorem with_line_ok {α : Type} (line : UInt16) (x : Except Fault α) (r : α) :
    withLine line x = .ok r ↔ x = .ok r := by
  cases x with
  | error f =>
    constructor
    · intro found
      cases found
    · intro found
      cases found
  | ok a => exact Iff.rfl

theorem fail_at_ok {α : Type} (kind : Fault.Kind) (span : Span) (message : String) (r : α) :
    failAt kind span message = .ok r ↔ False := by
  simp [failAt]

theorem refuse_ok {α : Type} (refused : Prop) [Decidable refused] (kind : Fault.Kind) (span : Span)
    (message : String) (rest : Unit → Except Fault α) (r : α) :
    (if refused then (failAt kind span message : Except Fault Unit) >>= rest else rest ()) = .ok r ↔
      ¬ refused ∧ rest () = .ok r := by
  by_cases h : refused <;> simp [h, bind_ok, fail_at_ok]

variable (vars : List Variable)

theorem lookup_ok (name : String) (span : Span) (found : Nat × Variable)
    (compiled : lookup vars name span = .ok found) : Variable.lookup? name vars = some found := by
  unfold lookup at compiled
  split at compiled
  · cases compiled
    assumption
  · simp [failAt] at compiled

theorem literal_ok (n : Int) (span : Span) (v : Value) (compiled : integerLiteral n span = .ok v) :
    narrowest? n = some v := by
  unfold integerLiteral at compiled
  split at compiled
  · cases compiled
    assumption
  · simp [failAt] at compiled

theorem binary_ok (span : Span) (op : BinaryOp) (left right f : Fragment)
    (compiled : binary span op left right = .ok f) :
    mixesBool left.dataType right.dataType = false ∧
      checkOperands op (operatorType op left.dataType right.dataType) span = .ok () ∧
      f.code = (left.castTo (operatorType op left.dataType right.dataType)).code ++
        (right.castTo (operatorType op left.dataType right.dataType)).code ++
        [.binary op (operatorType op left.dataType right.dataType)] ∧
      f.dataType =
        if op.isComparison then .bool else operatorType op left.dataType right.dataType := by
  simp only [binary, bind_ok, refuse_ok] at compiled
  obtain ⟨unmixed, _, checked, done⟩ := compiled
  cases done
  exact ⟨by simpa using unmixed, checked, rfl, rfl⟩

theorem negation_ok (span : Span) (operand f : Fragment) (compiled : negation span operand = .ok f) :
    operand.dataType ≠ .bool ∧ f = { operand with code := operand.code ++ [.negate operand.dataType] } := by
  unfold negation at compiled
  split at compiled
  · simp [failAt] at compiled
  · cases compiled
    exact ⟨by assumption, rfl⟩

theorem complement_ok (span : Span) (operand f : Fragment) (compiled : complement span operand = .ok f) :
    operand.dataType ≠ .real ∧
      f = { operand with code := operand.code ++ [.complement operand.dataType] } := by
  unfold complement at compiled
  split at compiled
  · simp [failAt] at compiled
  · cases compiled
    exact ⟨by assumption, rfl⟩

theorem signature_ok (span : Span) (name : String) (count : Nat) (s : Signature)
    (compiled : signatureFor span name count = .ok s) :
    Signature.ofName? name = some s ∧ count = s.arity := by
  unfold signatureFor at compiled
  split at compiled
  · simp [failAt] at compiled
  · split at compiled
    · simp [failAt] at compiled
    · cases compiled
      rename_i found bounded
      exact ⟨found, by omega⟩

theorem expressions_cons_ok (e : Expression) (rest : List Expression) (fragments : List Fragment)
    (compiled : expressions vars (e :: rest) = .ok fragments) :
    ∃ first others, expression vars e = .ok first ∧ expressions vars rest = .ok others ∧
      fragments = first :: others := by
  simp only [expressions, bind_ok] at compiled
  obtain ⟨first, firstOk, others, othersOk, done⟩ := compiled
  cases done
  exact ⟨first, others, firstOk, othersOk, rfl⟩

theorem expressions_length (args : List Expression) (fs : List Fragment) (compiled : expressions vars args = .ok fs) :
    fs.length = args.length := by
  induction args generalizing fs with
  | nil =>
    cases compiled
    rfl
  | cons e rest ih =>
    obtain ⟨first, others, _, othersOk, rfl⟩ := expressions_cons_ok vars e rest fs compiled
    exact congrArg Nat.succ (ih others othersOk)

theorem condition_ok (e : Expression) (code : List Instruction)
    (compiled : condition vars e = .ok code) :
    ∃ f, expression vars e = .ok f ∧ f.dataType = .bool ∧ code = f.code := by
  simp only [condition, bind_ok, refuse_ok] at compiled
  obtain ⟨f, fragment, typed, done⟩ := compiled
  cases done
  exact ⟨f, fragment, by simpa using typed, rfl⟩

theorem target_ok (name : String) (span : Span) (index : Nat) (t : DataType)
    (compiled : target vars name span = .ok (index, t)) :
    ∃ v, Variable.lookup? name vars = some (index, v) ∧ v.variableClass ≠ .constant ∧ t = v.dataType := by
  simp only [target, bind_ok, refuse_ok] at compiled
  obtain ⟨⟨i, v⟩, found, open_, done⟩ := compiled
  cases done
  exact ⟨v, lookup_ok vars name span _ found, open_, rfl⟩

theorem bound_ok (t : DataType) (e : Expression) (code : List Instruction)
    (compiled : bound vars t e = .ok code) :
    ∃ f, expression vars e = .ok f ∧ f.dataType ≠ .bool ∧ code = (f.castTo t).code := by
  simp only [bound, bind_ok, refuse_ok] at compiled
  obtain ⟨f, fragment, typed, done⟩ := compiled
  cases done
  exact ⟨f, fragment, typed, rfl⟩

theorem selector_ok (e : Expression) (f : Fragment) (compiled : selector vars e = .ok f) :
    expression vars e = .ok f ∧ f.dataType.isInteger = true := by
  simp only [selector, bind_ok, refuse_ok] at compiled
  obtain ⟨g, fragment, typed, done⟩ := compiled
  cases done
  exact ⟨fragment, by simpa using typed⟩

theorem counting_ok (span : Span) (name : String) (first last : Expression) (step : Option Expression)
    (c : Counting) (compiled : counting vars span name first last step = .ok c) :
    target vars name span = .ok (c.index, c.dataType) ∧ c.dataType.isInteger = true ∧
      bound vars c.dataType first = .ok c.first ∧ bound vars c.dataType last = .ok c.last ∧
      match step with
      | none => c.step = [.push ((Value.int 1).cast c.dataType)] ∧ c.down = some false
      | some e => bound vars c.dataType e = .ok c.step ∧ c.down = e.integerConstant.map (fun n => decide (n < 0)) := by
  simp only [counting, bind_ok, refuse_ok] at compiled
  obtain ⟨⟨index, t⟩, found, typed, firstCode, firstOk, lastCode, lastOk, stepped⟩ := compiled
  have integer : t.isInteger = true := by simpa using typed
  cases step with
  | none =>
    cases stepped
    exact ⟨found, integer, firstOk, lastOk, rfl, rfl⟩
  | some e =>
    simp only [bind_ok] at stepped
    obtain ⟨stepCode, stepOk, done⟩ := stepped
    cases done
    exact ⟨found, integer, firstOk, lastOk, stepOk, rfl⟩

theorem assignment_ok (span : Span) (name : String) (value : Expression) (code : List Instruction)
    (compiled : assignment vars span name value = .ok code) :
    ∃ index t f, target vars name span = .ok (index, t) ∧ expression vars value = .ok f ∧
      mixesBool f.dataType t = false ∧ code = (f.castTo t).code ++ [.store index] := by
  simp only [assignment, bind_ok, refuse_ok] at compiled
  obtain ⟨⟨index, t⟩, found, f, fragment, unmixed, done⟩ := compiled
  cases done
  exact ⟨index, t, f, found, fragment, by simpa using unmixed, rfl⟩

theorem label_test_ok (line : UInt16) (span : Span) (t : DataType) (base : Nat) (label : CaseLabel)
    (test : LabelTest) (compiled : labelTest line span t base label = .ok test) :
    test.label = label ∧
      match label with
      | .single n => labelValue n t span = .ok test.low
      | .range low high => labelValue low t span = .ok test.low ∧ labelValue high t span = .ok test.high := by
  cases label with
  | single n =>
    simp only [labelTest, bind_ok] at compiled
    obtain ⟨_, _, v, value, _, _, done⟩ := compiled
    cases done
    exact ⟨rfl, value⟩
  | range low high =>
    simp only [labelTest, bind_ok] at compiled
    obtain ⟨_, _, l, lowOk, _, _, h, highOk, _, _, done⟩ := compiled
    cases done
    exact ⟨rfl, lowOk, highOk⟩

theorem label_tests_cons_ok (line : UInt16) (span : Span) (t : DataType) (base : Nat)
    (label : CaseLabel) (rest : List CaseLabel) (tests : List LabelTest)
    (compiled : labelTests line span t base (label :: rest) = .ok tests) :
    ∃ first others, labelTest line span t base label = .ok first ∧
      labelTests line span t (base + testLength label) rest = .ok others ∧
      tests = first :: others := by
  simp only [labelTests, bind_ok] at compiled
  obtain ⟨first, firstOk, others, othersOk, done⟩ := compiled
  cases done
  exact ⟨first, others, firstOk, othersOk, rfl⟩

theorem arm_tests_cons_ok (line : UInt16) (span : Span) (t : DataType) (base : Nat)
    (labels : List CaseLabel) (body : List Statement) (rest : List (List CaseLabel × List Statement))
    (tests : List (List LabelTest))
    (compiled : armTests line span t base ((labels, body) :: rest) = .ok tests) :
    ∃ first others, labelTests line span t base labels = .ok first ∧
      armTests line span t (base + testsLength labels) rest = .ok others ∧
      tests = first :: others := by
  simp only [armTests, bind_ok] at compiled
  obtain ⟨first, firstOk, others, othersOk, done⟩ := compiled
  cases done
  exact ⟨first, others, firstOk, othersOk, rfl⟩

-- These equations are made once here. The proofs below would otherwise wait for them together.
attribute [local simp] statement

theorem assign_statement_ok (loops base : Nat) (line : UInt16) (span : Span) (name : String)
    (value : Expression) (items : List Item)
    (compiled : statement vars loops base (.assign line span name value) = .ok items) :
    ∃ code, assignment vars span name value = .ok code ∧ items = ops code := by
  simp only [statement, with_line_ok, bind_ok] at compiled
  obtain ⟨code, codeOk, _, _, done⟩ := compiled
  cases done
  exact ⟨code, codeOk, rfl⟩

theorem choose_statement_ok (loops base : Nat) (line : UInt16)
    (branches : List (Expression × List Statement)) (otherwise : List Statement) (items : List Item)
    (compiled : statement vars loops base (.choose line branches otherwise) = .ok items) :
    choice vars loops base line (fun base => block vars loops base otherwise) branches = .ok items := by
  simpa only [statement, with_line_ok] using compiled

theorem select_statement_ok (loops base : Nat) (line : UInt16) (e : Expression)
    (arms : List (List CaseLabel × List Statement)) (otherwise : List Statement) (items : List Item)
    (compiled : statement vars loops base (.select line e arms otherwise) = .ok items) :
    ∃ f tests elseCode bodies elseAt, selector vars e = .ok f ∧
      armTests line e.span f.dataType (base + f.code.length) arms = .ok tests ∧
      elseAt = base + f.code.length + total (arms.map fun arm => testsLength arm.1) + 1 ∧
      block vars loops elseAt otherwise = .ok elseCode ∧
      armBodies vars loops (elseAt + elseCode.length + 1) (lastLineOf line otherwise) arms = .ok bodies ∧
      items = caseCode base f tests elseCode bodies := by
  simp only [statement, with_line_ok, bind_ok] at compiled
  obtain ⟨f, fOk, _, _, tests, testsOk, _, _, elseCode, elseOk, _, _, bodies, bodiesOk, done⟩ := compiled
  cases done
  exact ⟨f, tests, elseCode, bodies, _, fOk, testsOk, rfl, elseOk, bodiesOk, rfl⟩

theorem count_statement_ok (loops base : Nat) (line : UInt16) (span : Span) (name : String)
    (first last : Expression) (step : Option Expression) (body : List Statement) (items : List Item)
    (compiled : statement vars loops base (.count line span name first last step body) = .ok items) :
    ∃ c code top bodyAt exit, counting vars span name first last step = .ok c ∧
      top = base + c.start.length ∧ bodyAt = top + c.testLength ∧
      block vars (loops + 1) bodyAt body = .ok code ∧
      exit = bodyAt + code.length + (c.finish top).length - 1 ∧
      items = ops c.start ++ ops (c.test top exit) ++ code.map (·.leaveTo exit) ++ ops (c.finish top) := by
  simp only [statement, with_line_ok, bind_ok] at compiled
  obtain ⟨c, cOk, _, _, _, _, code, codeOk, _, _, done⟩ := compiled
  cases done
  exact ⟨c, code, _, _, _, cOk, rfl, rfl, codeOk, rfl, rfl⟩

theorem while_statement_ok (loops base : Nat) (line : UInt16) (cond : Expression) (body : List Statement)
    (items : List Item) (compiled : statement vars loops base (.while line cond body) = .ok items) :
    ∃ test code exit, condition vars cond = .ok test ∧
      block vars (loops + 1) (base + test.length + 1) body = .ok code ∧
      exit = base + test.length + 1 + code.length + 1 ∧
      items = ops test ++ [.op (.jumpIfFalse exit)] ++ code.map (·.leaveTo exit) ++ [.op (.jump base)] := by
  simp only [statement, with_line_ok, bind_ok] at compiled
  obtain ⟨test, testOk, _, _, _, _, code, codeOk, _, _, done⟩ := compiled
  cases done
  exact ⟨test, code, _, testOk, codeOk, rfl, rfl⟩

theorem repeat_statement_ok (loops base : Nat) (line : UInt16) (body : List Statement)
    (cond : Expression) (items : List Item)
    (compiled : statement vars loops base (.repeat line body cond) = .ok items) :
    ∃ code test exit, block vars (loops + 1) base body = .ok code ∧ condition vars cond = .ok test ∧
      exit = base + code.length + test.length + 1 ∧
      items = code.map (·.leaveTo exit) ++ ops test ++ [.op (.jumpIfFalse base)] := by
  simp only [statement, with_line_ok, bind_ok] at compiled
  obtain ⟨_, _, code, codeOk, test, testOk, _, _, done⟩ := compiled
  cases done
  exact ⟨code, test, _, codeOk, testOk, rfl, rfl⟩

theorem exit_statement_ok (loops base : Nat) (line : UInt16) (span : Span) (items : List Item)
    (compiled : statement vars loops base (.exit line span) = .ok items) :
    0 < loops ∧ items = [.exit] := by
  simp only [statement, with_line_ok, bind_ok, refuse_ok] at compiled
  obtain ⟨inside, _, _, done⟩ := compiled
  cases done
  exact ⟨Nat.pos_of_ne_zero inside, rfl⟩

theorem leave_statement_ok (loops base : Nat) (line : UInt16) (items : List Item)
    (compiled : statement vars loops base (.leave line) = .ok items) : items = [.op .halt] := by
  simp only [statement, with_line_ok, bind_ok] at compiled
  obtain ⟨_, _, done⟩ := compiled
  cases done
  rfl

theorem block_cons_ok (loops base : Nat) (s : Statement) (rest : List Statement) (items : List Item)
    (compiled : block vars loops base (s :: rest) = .ok items) :
    ∃ first others, statement vars loops base s = .ok first ∧
      block vars loops (base + first.length) rest = .ok others ∧ items = first ++ others := by
  simp only [block, bind_ok] at compiled
  obtain ⟨first, firstOk, others, othersOk, done⟩ := compiled
  cases done
  exact ⟨first, others, firstOk, othersOk, rfl⟩

theorem choice_cons_ok (loops base : Nat) (line : UInt16) (elseCode : Nat → Except Fault (List Item))
    (cond : Expression) (body : List Statement) (rest : List (Expression × List Statement))
    (items : List Item)
    (compiled : choice vars loops base line elseCode ((cond, body) :: rest) = .ok items) :
    ∃ test code others next, condition vars cond = .ok test ∧
      block vars loops (base + test.length + 1) body = .ok code ∧
      next = base + test.length + 1 + code.length + 1 ∧
      choice vars loops next (lastLineOf line body) elseCode rest = .ok others ∧
      items = ops test ++ [.op (.jumpIfFalse next)] ++ code ++
        [.op (.jump (next + others.length))] ++ others := by
  simp only [choice, bind_ok] at compiled
  obtain ⟨test, testOk, _, _, code, codeOk, _, _, others, othersOk, done⟩ := compiled
  cases done
  exact ⟨test, code, others, _, testOk, codeOk, rfl, othersOk, rfl⟩

theorem arm_bodies_cons_ok (loops base : Nat) (line : UInt16) (labels : List CaseLabel)
    (body : List Statement) (rest : List (List CaseLabel × List Statement)) (bodies : List (List Item))
    (compiled : armBodies vars loops base line ((labels, body) :: rest) = .ok bodies) :
    ∃ code others, block vars loops (base + 1) body = .ok code ∧
      armBodies vars loops (base + code.length + 2) (lastLineOf line body) rest = .ok others ∧
      bodies = code :: others := by
  simp only [armBodies, bind_ok] at compiled
  obtain ⟨_, _, code, codeOk, _, _, others, othersOk, done⟩ := compiled
  cases done
  exact ⟨code, others, codeOk, othersOk, rfl⟩

theorem arm_bodies_length (loops base : Nat) (line : UInt16) (arms : List (List CaseLabel × List Statement))
    (codes : List (List Item)) (compiled : armBodies vars loops base line arms = .ok codes) :
    codes.length = arms.length := by
  induction arms generalizing base line codes with
  | nil =>
    cases compiled
    rfl
  | cons arm rest ih =>
    obtain ⟨labels, body⟩ := arm
    obtain ⟨code, others, _, othersOk, rfl⟩ := arm_bodies_cons_ok vars loops base line labels body rest codes compiled
    exact congrArg Nat.succ (ih _ _ others othersOk)

theorem accepted_with (source : String) (fact : Bytecode → Prop) [DecidablePred fact]
    (checked : ((compile source).toOption.any fun b => decide (fact b)) = true) :
    ∃ b, compile source = .ok b ∧ fact b := by
  cases compiled : compile source with
  | error f => simp [compiled, Except.toOption] at checked
  | ok b => exact ⟨b, rfl, by simpa [compiled, Except.toOption] using checked⟩

end SoftPlc.Compile
