import SoftPlc.Proofs.Compile.Counting
import SoftPlc.Proofs.Typing.Parts

set_option autoImplicit false

namespace SoftPlc.Compile

variable (table : List Variable) (vars : List DataType) (loops base : Nat) (types : StackType)

theorem condition_passes (cond : Expression) (code : List Instruction)
    (compiled : condition table cond = .ok code) :
    Passes (table.map (·.dataType)) code types (.bool :: types) := by
  obtain ⟨f, fragment, bool, rfl⟩ := condition_ok table cond code compiled
  have passes := expression_yields table cond f fragment types
  rw [bool] at passes
  exact passes

theorem body_typed (all : List StackType) (turn : Item → Instruction) (outer exit : Nat) (code : List Item)
    (between : List StackType) (inside : List (Nat × Nat)) (turned : Turned turn loops outer)
    (typed : ∀ all turn exit, Turned turn (loops + 1) exit → Located all base between →
      all[base + code.length]? = some types → (0 < loops + 1 → all[exit]? = some types) →
        all[base]? = some types ∧ TypedCode vars all base (code.map turn) ∧ DepthsAt all inside)
    (located : Located all base between) (behind : all[base + code.length]? = some types)
    (left : all[exit]? = some types) :
    all[base]? = some types ∧ TypedCode vars all base ((code.map (·.leaveTo exit)).map turn) ∧
      DepthsAt all inside := by
  rw [List.map_map]
  exact typed all _ exit (turned_leave turn loops outer exit turned) located behind (fun _ => left)

theorem while_typeable (cond : Expression) (test : List Instruction) (code items : List Item) (exit : Nat)
    (inside : List (Nat × Nat)) (compiled : condition table cond = .ok test)
    (body : Typeable (table.map (·.dataType)) (loops + 1) (base + test.length + 1) code types inside)
    (behind : exit = base + test.length + 1 + code.length + 1)
    (laid : items = ops test ++ [.op (.jumpIfFalse exit)] ++ code.map (·.leaveTo exit) ++ [.op (.jump base)]) :
    Typeable (table.map (·.dataType)) loops base items types inside := by
  obtain ⟨p, pLength, testing⟩ := condition_passes table types cond test compiled
  obtain ⟨q, qLength, running⟩ := body
  refine ⟨p ++ ([.bool :: types] ++ (q ++ [types])), by simp [laid, ops, pLength, qLength], ?_⟩
  intro all turn outer turned located left _
  have stop : base + items.length = exit := by
    simp [laid, ops, behind]
    omega
  rw [stop] at left
  obtain ⟨inTest, located⟩ := (located_append _ _ _ _).mp located
  obtain ⟨atBranch, located⟩ := (located_append _ _ _ _).mp located
  obtain ⟨inBody, atJump⟩ := (located_append _ _ _ _).mp located
  simp only [pLength, qLength, List.length_singleton, located_singleton] at atBranch inBody atJump
  obtain ⟨atBody, typedBody, depths⟩ := body_typed _ loops _ types all turn outer exit code q inside turned running
    inBody atJump left
  obtain ⟨atTest, typedTest⟩ := testing all base inTest atBranch
  refine ⟨atTest, ?_, depths⟩
  simp only [laid, List.map_append, turned_ops turn loops outer turned, List.map_singleton, turned.op,
    typed_append, typed_singleton, List.length_append, List.length_map, List.length_singleton, ← Nat.add_assoc]
  refine ⟨⟨⟨typedTest, ?_⟩, typedBody⟩, ?_⟩
  · exact fine_branch _ all _ types exit _ (.inl rfl) atBranch left atBody
  · exact fine_jump _ all _ types base atJump atTest

theorem repeat_typeable (cond : Expression) (test : List Instruction) (code items : List Item) (exit : Nat)
    (inside : List (Nat × Nat)) (compiled : condition table cond = .ok test)
    (body : Typeable (table.map (·.dataType)) (loops + 1) base code types inside)
    (behind : exit = base + code.length + test.length + 1)
    (laid : items = code.map (·.leaveTo exit) ++ ops test ++ [.op (.jumpIfFalse base)]) :
    Typeable (table.map (·.dataType)) loops base items types inside := by
  obtain ⟨p, pLength, testing⟩ := condition_passes table types cond test compiled
  obtain ⟨q, qLength, running⟩ := body
  refine ⟨q ++ (p ++ [.bool :: types]), by simp [laid, ops, pLength, qLength], ?_⟩
  intro all turn outer turned located left _
  have stop : base + items.length = exit := by
    simp [laid, ops, behind]
    omega
  rw [stop] at left
  obtain ⟨inBody, located⟩ := (located_append _ _ _ _).mp located
  obtain ⟨inTest, atBranch⟩ := (located_append _ _ _ _).mp located
  simp only [pLength, qLength, located_singleton] at inTest atBranch
  obtain ⟨atTest, typedTest⟩ := testing all _ inTest atBranch
  obtain ⟨atBody, typedBody, depths⟩ := body_typed _ loops _ types all turn outer exit code q inside turned running
    inBody atTest left
  refine ⟨atBody, ?_, depths⟩
  simp only [laid, List.map_append, turned_ops turn loops outer turned, List.map_singleton, turned.op,
    typed_append, typed_singleton, List.length_append, List.length_map, ← Nat.add_assoc]
  refine ⟨⟨typedBody, typedTest⟩, ?_⟩
  exact fine_branch _ all _ types base _ (.inl rfl) atBranch atBody (behind ▸ left)

structure CountPasses (vars : List DataType) (c : Counting) : Prop where
  index : vars[c.index]? = some c.dataType
  integer : c.dataType.isInteger = true
  first : ∀ types, Passes vars c.first types (c.dataType :: types)
  last : ∀ types, Passes vars c.last types (c.dataType :: types)
  step : ∀ types, Passes vars c.step types (c.dataType :: types)

theorem bound_passes (t : DataType) (e : Expression) (code : List Instruction)
    (compiled : bound table t e = .ok code) :
    Passes (table.map (·.dataType)) code types (t :: types) := by
  obtain ⟨f, fragment, _, rfl⟩ := bound_ok table t e code compiled
  have passes := yielding_cast _ f t (expression_yields table e f fragment) types
  rw [Fragment.dataType_castTo] at passes
  exact passes

theorem counting_passes (span : Span) (name : String) (first last : Expression) (step : Option Expression)
    (c : Counting) (compiled : counting table span name first last step = .ok c) :
    CountPasses (table.map (·.dataType)) c := by
  obtain ⟨found, integer, firstOk, lastOk, stepped⟩ := counting_ok table span name first last step c compiled
  obtain ⟨v, named, _, typed⟩ := target_ok table name span c.index c.dataType found
  refine ⟨?_, integer, fun types => bound_passes table types _ first _ firstOk,
    fun types => bound_passes table types _ last _ lastOk, ?_⟩
  · rw [List.getElem?_map, lookup_index table name c.index v named, typed, Option.map_some]
  · intro types
    cases step with
    | none =>
      rw [stepped.1]
      exact passes_one _ _ types _ (by simp [Instruction.after]) (fun _ => rfl)
    | some e => exact bound_passes table types _ e _ stepped.1

theorem start_passes (c : Counting) (passes : CountPasses vars c) :
    Passes vars c.start types (c.dataType :: types) := by
  have stores : Passes vars [.store c.index] (c.dataType :: types) types :=
    passes_one vars _ _ types (if_pos passes.index) (fun _ => rfl)
  have stored := passes_append vars _ _ types _ _ (passes.first types) stores
  exact passes_append vars _ _ types _ _ stored (passes.last types)

theorem comparison_passes (op : BinaryOp) (t : DataType) (i : Instruction) (compares : op.isComparison = true)
    (pushes : ∀ types, Passes vars [i] types (t :: types)) :
    Passes vars [.duplicate, i, .binary op t] (t :: types) (.bool :: t :: types) := by
  have copies : Passes vars [.duplicate] (t :: types) (t :: t :: types) :=
    passes_one vars _ _ _ rfl (fun _ => rfl)
  have compared : Passes vars [.binary op t] (t :: t :: t :: types) (.bool :: t :: types) := by
    refine passes_one vars _ _ _ ?_ (fun _ => rfl)
    have takes : op.takes t = true := by
      cases op <;> first | rfl | cases compares
    have result : op.resultType t = .bool := if_pos compares
    rw [← result]
    exact if_pos ⟨rfl, rfl, takes⟩
  have both := passes_append vars _ _ _ _ _ copies (pushes (t :: t :: types))
  exact passes_append vars _ _ _ _ _ both compared

theorem compare_typed (c : Counting) (passes : CountPasses vars c) (op : BinaryOp) (compares : op.isComparison = true) :
    ∃ between : List StackType, between.length = 4 ∧
      ∀ all pc exit, Located all pc between → all[pc + 4]? = some (c.dataType :: types) →
        all[exit]? = some (c.dataType :: types) →
          all[pc]? = some (c.dataType :: types) ∧ TypedCode vars all pc (c.compare op exit) := by
  obtain ⟨p, pLength, comparing⟩ := comparison_passes vars types op c.dataType (.load c.index) compares
    (fun types => passes_one vars _ types _ (by simp only [Instruction.after, passes.index, Option.map_some])
      (fun _ => rfl))
  refine ⟨p ++ [.bool :: c.dataType :: types], by simp [pLength], ?_⟩
  intro all pc exit located behind left
  obtain ⟨inComparison, atBranch⟩ := (located_append _ _ _ _).mp located
  simp only [pLength, located_singleton] at atBranch
  obtain ⟨start, typed⟩ := comparing all pc inComparison atBranch
  refine ⟨start, (typed_append vars all pc [_, _, _] [_]).mpr ⟨typed, ?_⟩⟩
  rw [typed_singleton]
  exact fine_branch vars all _ _ exit _ (.inl rfl) atBranch left behind

theorem sign_passes (c : Counting) (passes : CountPasses vars c) :
    Passes vars (c.step ++ [.push (.zero c.dataType)] ++ [.binary .less c.dataType]) types (.bool :: types) := by
  have zero : Passes vars [.push (.zero c.dataType)] (c.dataType :: types) (c.dataType :: c.dataType :: types) :=
    passes_one vars _ _ _ (by simp [Instruction.after]) (fun _ => rfl)
  have less : Passes vars [.binary .less c.dataType] (c.dataType :: c.dataType :: types) (.bool :: types) :=
    passes_one vars _ _ _ (if_pos ⟨rfl, rfl, rfl⟩) (fun _ => rfl)
  exact passes_append vars _ _ types _ _ (passes_append vars _ _ types _ _ (passes.step types) zero) less

theorem test_typed (c : Counting) (passes : CountPasses vars c) :
    ∃ between : List StackType, between.length = c.testLength ∧
      ∀ all top exit, Located all top between → all[top + c.testLength]? = some (c.dataType :: types) →
        all[exit]? = some (c.dataType :: types) →
          all[top]? = some (c.dataType :: types) ∧ TypedCode vars all top (c.test top exit) := by
  cases known : c.down with
  | some down =>
    obtain ⟨p, pLength, comparing⟩ := compare_typed vars types c passes (dueWhen down) (by cases down <;> rfl)
    have length := (test_known c 0 0 down known).2
    refine ⟨p, by rw [pLength, length], ?_⟩
    intro all top exit located behind left
    rw [(test_known c top exit down known).1]
    exact comparing all top exit located (by rw [← length]; exact behind) left
  | none =>
    obtain ⟨s, sLength, signing⟩ := sign_passes vars (c.dataType :: types) c passes
    obtain ⟨p, pLength, upward⟩ := compare_typed vars types c passes (dueWhen false) rfl
    obtain ⟨q, qLength, downward⟩ := compare_typed vars types c passes (dueWhen true) rfl
    have length := (test_unknown c 0 0 known).2
    simp only [List.length_append, List.length_singleton] at sLength
    refine ⟨s ++ ([.bool :: c.dataType :: types] ++ (p ++ ([c.dataType :: types] ++ q))),
      by simp [sLength, pLength, qLength, length], ?_⟩
    intro all top exit located behind left
    obtain ⟨inSign, located⟩ := (located_append _ _ _ _).mp located
    obtain ⟨atBranch, located⟩ := (located_append _ _ _ _).mp located
    obtain ⟨inUp, located⟩ := (located_append _ _ _ _).mp located
    obtain ⟨atSkip, inDown⟩ := (located_append _ _ _ _).mp located
    simp only [sLength, pLength, List.length_singleton, located_singleton] at atBranch inUp atSkip inDown
    have downAt : top + (c.step.length + 1 + 1) + 1 + 4 + 1 = top + c.testLength - 4 := by omega
    have body : top + c.testLength - 4 + 4 = top + c.testLength := by omega
    rw [downAt] at inDown
    obtain ⟨atDown, typedDown⟩ := downward all _ exit inDown (by rw [body]; exact behind) left
    obtain ⟨atUp, typedUp⟩ := upward all _ exit inUp atSkip left
    have signLength : (c.step ++ [.push (.zero c.dataType)] ++ [.binary .less c.dataType] :
        List Instruction).length = c.step.length + 1 + 1 := by
      simp only [List.length_append, List.length_singleton]
    obtain ⟨start, typedSign⟩ := signing all top inSign (by rw [signLength]; exact atBranch)
    refine ⟨start, ?_⟩
    rw [(test_unknown c top exit known).1]
    refine (typed_append vars all top _ _).mpr ⟨typedSign, ?_⟩
    rw [signLength]
    refine (typed_append vars all _ _ _).mpr ⟨(typed_singleton vars all _ _).mpr ?_, ?_⟩
    · exact fine_branch vars all _ _ _ _ (.inr rfl) atBranch atDown atUp
    refine (typed_append vars all _ _ _).mpr ⟨typedUp, ?_⟩
    refine (typed_append vars all _ _ _).mpr ⟨(typed_singleton vars all _ _).mpr ?_, ?_⟩
    · exact fine_jump vars all _ _ _ atSkip behind
    rw [← downAt] at typedDown
    exact typedDown

theorem finish_typed (c : Counting) (passes : CountPasses vars c) :
    ∃ between : List StackType, between.length = (c.finish 0).length ∧
      ∀ all place top, Located all place between → all[place + (c.finish top).length]? = some types →
        all[place]? = some (c.dataType :: types) ∧
          all[place + (c.finish top).length - 1]? = some (c.dataType :: types) ∧
            (all[top]? = some (c.dataType :: types) → TypedCode vars all place (c.finish top)) := by
  have loads : Passes vars [.load c.index] (c.dataType :: types) (c.dataType :: c.dataType :: types) :=
    passes_one vars _ _ _ (by simp only [Instruction.after, passes.index, Option.map_some]) (fun _ => rfl)
  have number : c.dataType ≠ .bool := by
    intro bool
    have integer := passes.integer
    rw [bool] at integer
    cases integer
  have adds : Passes vars [.binary .add c.dataType] (c.dataType :: c.dataType :: c.dataType :: types)
      (c.dataType :: c.dataType :: types) :=
    passes_one vars _ _ _ (if_pos ⟨rfl, rfl, by simpa [BinaryOp.takes] using number⟩) (fun _ => rfl)
  have stores : Passes vars [.store c.index] (c.dataType :: c.dataType :: types) (c.dataType :: types) :=
    passes_one vars _ _ _ (if_pos passes.index) (fun _ => rfl)
  have stepped := passes_append vars _ _ _ _ _ loads (passes.step _)
  obtain ⟨p, pLength, summing⟩ := passes_append vars _ _ _ _ _ (passes_append vars _ _ _ _ _ stepped adds) stores
  have sumLength : ([.load c.index] ++ c.step ++ [.binary .add c.dataType] ++ [.store c.index] :
      List Instruction).length = c.step.length + 3 := by
    simp
  rw [sumLength] at pLength
  refine ⟨p ++ ([c.dataType :: types] ++ [c.dataType :: types]), by simp [pLength, Counting.finish], ?_⟩
  intro all place top located behind
  have total (top : Nat) : (c.finish top).length = c.step.length + 5 := by
    simp [Counting.finish]
  obtain ⟨inSum, located⟩ := (located_append _ _ _ _).mp located
  obtain ⟨atJump, atExit⟩ := (located_append _ _ _ _).mp located
  simp only [pLength, List.length_singleton, located_singleton] at atJump atExit
  obtain ⟨start, typedSum⟩ := summing all place inSum (by rw [sumLength]; exact atJump)
  rw [total] at behind ⊢
  refine ⟨start, atExit, ?_⟩
  intro atTop
  have code : c.finish top = ([.load c.index] ++ c.step ++ [.binary .add c.dataType] ++ [.store c.index]) ++
      ([.jump top] ++ [.discard]) := by
    simp [Counting.finish]
  rw [code]
  refine (typed_append vars all place _ _).mpr ⟨typedSum, ?_⟩
  rw [sumLength]
  refine (typed_append vars all _ _ _).mpr ⟨(typed_singleton vars all _ _).mpr ?_, (typed_singleton vars all _ _).mpr ?_⟩
  · exact fine_jump vars all _ _ top atJump atTop
  · exact fine_discard vars all _ types c.dataType atExit behind

theorem count_typeable (c : Counting) (code items : List Item) (top bodyAt exit : Nat)
    (inside : List (Nat × Nat)) (passes : CountPasses vars c) (topAt : top = base + c.start.length)
    (inner : bodyAt = top + c.testLength)
    (body : Typeable vars (loops + 1) bodyAt code (c.dataType :: types) inside)
    (behind : exit = bodyAt + code.length + (c.finish top).length - 1)
    (laid : items = ops c.start ++ ops (c.test top exit) ++ code.map (·.leaveTo exit) ++ ops (c.finish top)) :
    Typeable vars loops base items types inside := by
  obtain ⟨p, pLength, starting⟩ := start_passes vars types c passes
  obtain ⟨s, sLength, testing⟩ := test_typed vars types c passes
  obtain ⟨q, qLength, running⟩ := body
  obtain ⟨r, rLength, finishing⟩ := finish_typed vars types c passes
  have finishLength : (c.finish top).length = (c.finish 0).length := by simp [Counting.finish]
  have total : items.length = c.start.length + c.testLength + code.length + (c.finish top).length := by
    simp only [laid, ops, List.length_append, List.length_map, test_length]
  refine ⟨p ++ (s ++ (q ++ r)), by simp only [total, pLength, sLength, qLength, rLength, finishLength,
    List.length_append, Nat.add_assoc], ?_⟩
  intro all turn outer turned located left _
  obtain ⟨inStart, located⟩ := (located_append _ _ _ _).mp located
  obtain ⟨inTest, located⟩ := (located_append _ _ _ _).mp located
  obtain ⟨inBody, inFinish⟩ := (located_append _ _ _ _).mp located
  rw [pLength, ← topAt] at inTest inBody inFinish
  rw [sLength, ← inner] at inBody inFinish
  rw [qLength] at inFinish
  have stop : base + items.length = bodyAt + code.length + (c.finish top).length := by
    rw [total, inner, topAt]
    omega
  rw [stop] at left
  obtain ⟨atFinish, atExit, typedFinish⟩ := finishing all _ top inFinish left
  rw [← behind] at atExit
  obtain ⟨atBody, typedBody, depths⟩ := body_typed vars loops bodyAt _ all turn outer exit code q inside turned
    running inBody atFinish atExit
  obtain ⟨atTop, typedTest⟩ := testing all top exit inTest (inner ▸ atBody) atExit
  obtain ⟨start, typedStart⟩ := starting all base inStart (topAt ▸ atTop)
  refine ⟨start, ?_, depths⟩
  simp only [laid, List.map_append, turned_ops turn loops outer turned, typed_append, List.length_append,
    List.length_map, test_length, ← Nat.add_assoc]
  rw [← topAt, ← inner]
  exact ⟨⟨⟨typedStart, typedTest⟩, typedBody⟩, typedFinish atTop⟩

end SoftPlc.Compile
