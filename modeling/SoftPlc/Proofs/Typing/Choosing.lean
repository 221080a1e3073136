import SoftPlc.Proofs.Compile.Choosing
import SoftPlc.Proofs.Typing.Loops

set_option autoImplicit false

namespace SoftPlc.Compile

variable (table : List Variable) (vars : List DataType) (loops base : Nat) (types : StackType)

theorem branch_typeable (cond : Expression) (test : List Instruction) (code others items : List Item)
    (next : Nat) (inBody inOthers : List (Nat × Nat)) (compiled : condition table cond = .ok test)
    (body : Typeable (table.map (·.dataType)) loops (base + test.length + 1) code types inBody)
    (otherwise : Typeable (table.map (·.dataType)) loops next others types inOthers)
    (behind : next = base + test.length + 1 + code.length + 1)
    (laid : items = ops test ++ [.op (.jumpIfFalse next)] ++ code ++
      [.op (.jump (next + others.length))] ++ others) :
    Typeable (table.map (·.dataType)) loops base items types (inBody ++ inOthers) := by
  obtain ⟨p, pLength, testing⟩ := condition_passes table types cond test compiled
  obtain ⟨q, qLength, running⟩ := body
  obtain ⟨r, rLength, following⟩ := otherwise
  refine ⟨p ++ ([.bool :: types] ++ (q ++ ([types] ++ r))), by simp [laid, ops, pLength, qLength, rLength], ?_⟩
  intro all turn exit turned located left outer
  have stop : base + items.length = next + others.length := by
    simp [laid, ops, behind]
    omega
  rw [stop] at left
  obtain ⟨inTest, located⟩ := (located_append _ _ _ _).mp located
  obtain ⟨atBranch, located⟩ := (located_append _ _ _ _).mp located
  obtain ⟨inCode, located⟩ := (located_append _ _ _ _).mp located
  obtain ⟨atJump, inRest⟩ := (located_append _ _ _ _).mp located
  simp only [pLength, qLength, List.length_singleton, located_singleton, ← behind] at atBranch inCode atJump inRest
  obtain ⟨atBody, typedBody, depthsBody⟩ := running all turn exit turned inCode atJump outer
  obtain ⟨atNext, typedRest, depthsRest⟩ := following all turn exit turned inRest left outer
  obtain ⟨atTest, typedTest⟩ := testing all base inTest atBranch
  refine ⟨atTest, ?_, depths_append all _ _ depthsBody depthsRest⟩
  simp only [laid, List.map_append, turned_ops turn loops exit turned, List.map_singleton, turned.op,
    typed_append, typed_singleton, List.length_append, List.length_map, List.length_singleton, ← Nat.add_assoc]
  rw [← behind]
  refine ⟨⟨⟨⟨typedTest, ?_⟩, typedBody⟩, ?_⟩, typedRest⟩
  · exact fine_branch _ all _ types next _ (.inl rfl) atBranch atNext atBody
  · exact fine_jump _ all _ types _ atJump left

section
variable (t : DataType)

theorem push_passes (v : Value) (typed : v.dataType = t) : Passes vars [.push v] types (t :: types) :=
  passes_one vars _ types _ (by rw [Instruction.after, typed]) (fun _ => rfl)

theorem label_test_typed (line : UInt16) (span : Span) (place : Nat) (label : CaseLabel) (test : LabelTest)
    (compiled : labelTest line span t place label = .ok test) (integer : t.isInteger = true) :
    ∃ between : List StackType, between.length = testLength label ∧
      ∀ all base arm, Located all base between → all[base + testLength label]? = some (t :: types) →
        all[arm]? = some (t :: types) →
          all[base]? = some (t :: types) ∧ TypedCode vars all base (test.code t base arm) := by
  obtain ⟨rfl, values⟩ := label_test_ok line span t place label test compiled
  obtain ⟨label, low, high⟩ := test
  cases label with
  | single n =>
    have typed := (label_value_ok n t span low integer values).1
    obtain ⟨p, pLength, comparing⟩ := comparison_passes vars types .equal t (.push low) rfl
      (fun types => push_passes vars types t low typed)
    refine ⟨p ++ [.bool :: t :: types], by simp [pLength, testLength], ?_⟩
    intro all base arm located behind there
    obtain ⟨inComparison, atBranch⟩ := (located_append _ _ _ _).mp located
    simp only [pLength, located_singleton] at atBranch
    obtain ⟨start, typedCode⟩ := comparing all base inComparison atBranch
    refine ⟨start, (typed_append vars all base [_, _, _] [_]).mpr ⟨typedCode, (typed_singleton ..).mpr ?_⟩⟩
    exact fine_branch vars all _ _ arm _ (.inr rfl) atBranch there behind
  | range first last =>
    have lowTyped := (label_value_ok first t span low integer values.1).1
    have highTyped := (label_value_ok last t span high integer values.2).1
    obtain ⟨p, pLength, lower⟩ := comparison_passes vars types .greaterEqual t (.push low) rfl
      (fun types => push_passes vars types t low lowTyped)
    obtain ⟨q, qLength, upper⟩ := comparison_passes vars types .lessEqual t (.push high) rfl
      (fun types => push_passes vars types t high highTyped)
    refine ⟨p ++ ([.bool :: t :: types] ++ (q ++ [.bool :: t :: types])),
      by simp [pLength, qLength, testLength], ?_⟩
    intro all base arm located behind there
    obtain ⟨inLower, located⟩ := (located_append _ _ _ _).mp located
    obtain ⟨atLeave, located⟩ := (located_append _ _ _ _).mp located
    obtain ⟨inUpper, atEnter⟩ := (located_append _ _ _ _).mp located
    simp only [pLength, qLength, List.length_singleton, located_singleton] at atLeave inUpper atEnter
    obtain ⟨start, typedLower⟩ := lower all base inLower atLeave
    obtain ⟨middle, typedUpper⟩ := upper all _ inUpper atEnter
    refine ⟨start, (typed_append vars all base [_, _, _] [_, _, _, _, _]).mpr ⟨typedLower, ?_⟩⟩
    refine (typed_append vars all _ [_] [_, _, _, _]).mpr ⟨(typed_singleton ..).mpr ?_, ?_⟩
    · exact fine_branch vars all _ _ _ _ (.inl rfl) atLeave behind middle
    refine (typed_append vars all _ [_, _, _] [_]).mpr ⟨typedUpper, (typed_singleton ..).mpr ?_⟩
    exact fine_branch vars all _ _ arm _ (.inr rfl) atEnter there behind

theorem label_tests_typed (line : UInt16) (span : Span) (place : Nat) (labels : List CaseLabel)
    (tests : List LabelTest) (compiled : labelTests line span t place labels = .ok tests)
    (integer : t.isInteger = true) :
    ∃ between : List StackType, between.length = testsLength labels ∧
      ∀ all base arm, Located all base between → all[base + testsLength labels]? = some (t :: types) →
        all[arm]? = some (t :: types) →
          all[base]? = some (t :: types) ∧ TypedCode vars all base (testsCode t arm base tests) := by
  induction labels generalizing place tests with
  | nil =>
    cases compiled
    refine ⟨[], rfl, ?_⟩
    intro all base arm _ behind _
    exact ⟨behind, typed_nil vars all base⟩
  | cons label rest ih =>
    obtain ⟨test, others, testOk, othersOk, rfl⟩ := label_tests_cons_ok line span t place label rest tests compiled
    obtain ⟨p, pLength, first⟩ := label_test_typed vars types t line span place label test testOk integer
    obtain ⟨q, qLength, following⟩ := ih _ others othersOk
    have same := (label_test_ok line span t place label test testOk).1
    have parts : testsLength (label :: rest) = testLength label + testsLength rest := by
      simp [testsLength]
    refine ⟨p ++ q, by rw [List.length_append, pLength, qLength, parts], ?_⟩
    intro all base arm located behind there
    obtain ⟨inFirst, inRest⟩ := (located_append _ _ _ _).mp located
    rw [pLength] at inRest
    rw [parts, ← Nat.add_assoc] at behind
    obtain ⟨middle, typedRest⟩ := following all _ arm inRest behind there
    obtain ⟨start, typedFirst⟩ := first all base arm inFirst middle there
    refine ⟨start, (typed_append vars all base _ _).mpr ⟨typedFirst, ?_⟩⟩
    rw [test_code_length, same]
    exact typedRest

theorem arm_tests_typed (line : UInt16) (span : Span) (place : Nat)
    (arms : List (List CaseLabel × List Statement)) (tests : List (List LabelTest))
    (compiled : armTests line span t place arms = .ok tests) (integer : t.isInteger = true) :
    ∃ between : List StackType, between.length = total (arms.map fun arm => testsLength arm.1) ∧
      ∀ all base (places : List Nat), places.length = arms.length → Located all base between →
        all[base + total (arms.map fun arm => testsLength arm.1)]? = some (t :: types) →
          (∀ place ∈ places, all[place]? = some (t :: types)) →
            all[base]? = some (t :: types) ∧ TypedCode vars all base (armTestsCode t base tests places) := by
  induction arms generalizing place tests with
  | nil =>
    cases compiled
    refine ⟨[], rfl, ?_⟩
    intro all base places _ _ behind _
    exact ⟨behind, typed_nil vars all base⟩
  | cons arm rest ih =>
    obtain ⟨labels, body⟩ := arm
    obtain ⟨first, others, firstOk, othersOk, rfl⟩ :=
      arm_tests_cons_ok line span t place labels body rest tests compiled
    obtain ⟨p, pLength, testing⟩ := label_tests_typed vars types t line span place labels first firstOk integer
    obtain ⟨q, qLength, following⟩ := ih _ others othersOk
    refine ⟨p ++ q, by simp [pLength, qLength], ?_⟩
    intro all base places count located behind there
    cases places with
    | nil => cases count
    | cons place places =>
    obtain ⟨inFirst, inRest⟩ := (located_append _ _ _ _).mp located
    rw [pLength] at inRest
    rw [List.map_cons, total_cons, ← Nat.add_assoc] at behind
    obtain ⟨middle, typedRest⟩ := following all _ places (Nat.succ.inj count) inRest behind
      (fun place member => there place (List.mem_cons_of_mem _ member))
    obtain ⟨start, typedFirst⟩ := testing all base place inFirst middle (there place List.mem_cons_self)
    refine ⟨start, (typed_append vars all base _ _).mpr ⟨typedFirst, ?_⟩⟩
    rw [tests_code_length, label_tests_labels line span t _ labels first firstOk]
    exact typedRest

end

inductive ArmsTypeable (vars : List DataType) (loops : Nat) (types : StackType) :
    Nat → List (List Item) → List (Nat × Nat) → Prop where
  | nil (base : Nat) : ArmsTypeable vars loops types base [] []
  | cons (base : Nat) (code : List Item) (codes : List (List Item)) (own others : List (Nat × Nat)) :
      Typeable vars loops (base + 1) code types own →
        ArmsTypeable vars loops types (base + code.length + 2) codes others →
          ArmsTypeable vars loops types base (code :: codes) (own ++ others)

theorem arm_typed (t : DataType) (code : List Item) (inside : List (Nat × Nat))
    (body : Typeable vars loops (base + 1) code types inside) :
    ∃ between : List StackType, between.length = code.length + 2 ∧
      ∀ all turn exit stop, Turned turn loops exit → Located all base between →
        all[stop]? = some types → (0 < loops → all[exit]? = some types) →
          all[base]? = some (t :: types) ∧ TypedCode vars all base ((armCode stop code).map turn) ∧
            DepthsAt all inside := by
  obtain ⟨q, qLength, running⟩ := body
  refine ⟨[t :: types] ++ (q ++ [types]), by simp [qLength], ?_⟩
  intro all turn exit stop turned located there outer
  obtain ⟨atDiscard, located⟩ := (located_append _ _ _ _).mp located
  obtain ⟨inBody, atJump⟩ := (located_append _ _ _ _).mp located
  simp only [qLength, List.length_singleton, located_singleton] at atDiscard inBody atJump
  obtain ⟨atBody, typedBody, depths⟩ := running all turn exit turned inBody atJump outer
  refine ⟨atDiscard, ?_, depths⟩
  simp only [armCode, List.map_append, List.map_singleton, turned.op, typed_append, typed_singleton,
    List.length_append, List.length_map, List.length_singleton, ← Nat.add_assoc]
  refine ⟨⟨?_, typedBody⟩, ?_⟩
  · exact fine_discard vars all base types t atDiscard atBody
  · exact fine_jump vars all _ types stop atJump there

theorem arms_typed (t : DataType) (codes : List (List Item)) (inside : List (Nat × Nat))
    (bodies : ArmsTypeable vars loops types base codes inside) :
    ∃ between : List StackType, between.length = total (codes.map (·.length + 2)) ∧
      ∀ all turn exit stop, Turned turn loops exit → Located all base between →
        all[stop]? = some types → (0 < loops → all[exit]? = some types) →
          (∀ place ∈ addresses base (codes.map (·.length + 2)), all[place]? = some (t :: types)) ∧
            TypedCode vars all base ((codes.map (armCode stop)).flatten.map turn) ∧ DepthsAt all inside := by
  induction bodies with
  | nil base =>
    refine ⟨[], rfl, ?_⟩
    intro all turn exit stop _ _ _ _
    exact ⟨by simp [addresses], typed_nil vars all base, depths_nil all⟩
  | cons base code codes own others body _ ih =>
    obtain ⟨p, pLength, first⟩ := arm_typed vars loops base types t code own body
    obtain ⟨q, qLength, following⟩ := ih
    refine ⟨p ++ q, by simp [pLength, qLength], ?_⟩
    intro all turn exit stop turned located there outer
    obtain ⟨inFirst, inRest⟩ := (located_append _ _ _ _).mp located
    rw [pLength, ← Nat.add_assoc] at inRest
    obtain ⟨atFirst, typedFirst, depthsFirst⟩ := first all turn exit stop turned inFirst there outer
    obtain ⟨atRest, typedRest, depthsRest⟩ := following all turn exit stop turned inRest there outer
    refine ⟨?_, ?_, depths_append all own others depthsFirst depthsRest⟩
    · intro place member
      rw [List.map_cons, addresses, ← Nat.add_assoc] at member
      rcases List.mem_cons.mp member with rfl | inside
      · exact atFirst
      · exact atRest place inside
    · rw [List.map_cons, List.flatten_cons, List.map_append]
      have length : ((armCode stop code).map turn).length = code.length + 2 := by
        rw [List.length_map, arm_code_length]
      refine (typed_append vars all base _ _).mpr ⟨typedFirst, ?_⟩
      rw [length, ← Nat.add_assoc]
      exact typedRest

theorem select_typeable (line : UInt16) (e : Expression) (f : Fragment)
    (arms : List (List CaseLabel × List Statement)) (tests : List (List LabelTest))
    (elseCode items : List Item) (codes : List (List Item)) (elseAt : Nat) (inElse inArms : List (Nat × Nat))
    (compiled : selector table e = .ok f)
    (tested : armTests line e.span f.dataType (base + f.code.length) arms = .ok tests)
    (place : elseAt = base + f.code.length + total (arms.map fun arm => testsLength arm.1) + 1)
    (count : codes.length = arms.length)
    (elseTypeable : Typeable (table.map (·.dataType)) loops elseAt elseCode types inElse)
    (bodies : ArmsTypeable (table.map (·.dataType)) loops types (elseAt + elseCode.length + 1) codes inArms)
    (laid : items = caseCode base f tests elseCode codes) :
    Typeable (table.map (·.dataType)) loops base items types (inElse ++ inArms) := by
  obtain ⟨fragment, integer⟩ := selector_ok table e f compiled
  obtain ⟨p, pLength, selecting⟩ := expression_yields table e f fragment types
  obtain ⟨q, qLength, testing⟩ := arm_tests_typed (table.map (·.dataType)) types f.dataType line e.span _ arms tests
    tested integer
  obtain ⟨r, rLength, falling⟩ := arm_typed (table.map (·.dataType)) loops
    (base + f.code.length + total (arms.map fun arm => testsLength arm.1)) types f.dataType elseCode inElse
    (place ▸ elseTypeable)
  obtain ⟨s, sLength, inside⟩ := arms_typed (table.map (·.dataType)) loops _ types f.dataType codes inArms bodies
  let armsAt := elseAt + elseCode.length + 1
  let stop := armsAt + total (codes.map (·.length + 2))
  have layout := case_layout base line e.span f arms tests elseCode items codes elseAt armsAt stop tested
    count place rfl rfl laid
  have whole := layout.whole
  refine ⟨p ++ (q ++ (r ++ s)), by simp only [List.length_append, pLength, qLength, rLength, sLength]; omega, ?_⟩
  intro all turn exit turned located left outer
  rw [layout.whole] at left
  obtain ⟨inSelector, located⟩ := (located_append _ _ _ _).mp located
  obtain ⟨inTests, located⟩ := (located_append _ _ _ _).mp located
  obtain ⟨inFalling, inBodies⟩ := (located_append _ _ _ _).mp located
  rw [pLength] at inTests inFalling inBodies
  rw [qLength] at inFalling inBodies
  have armsPlace : base + f.code.length + total (arms.map fun arm => testsLength arm.1) + r.length = armsAt := by
    omega
  rw [armsPlace] at inBodies
  obtain ⟨atElse, typedElse, depthsElse⟩ := falling all turn exit stop turned inFalling left outer
  obtain ⟨atArms, typedArms, depthsArms⟩ := inside all turn exit stop turned inBodies left outer
  obtain ⟨atTests, typedTests⟩ := testing all _ (addresses armsAt (codes.map (·.length + 2)))
    (by rw [addresses_length, List.length_map, count]) inTests atElse atArms
  obtain ⟨start, typedSelector⟩ := selecting all base inSelector atTests
  refine ⟨start, ?_, depths_append all _ _ depthsElse depthsArms⟩
  rw [layout.parts]
  simp only [List.map_append, turned_ops turn loops exit turned]
  refine (typed_append _ all _ _ _).mpr ⟨typedSelector, (typed_append _ all _ _ _).mpr ⟨typedTests, ?_⟩⟩
  rw [layout.tests]
  refine (typed_append _ all _ _ _).mpr ⟨typedElse, ?_⟩
  have length : ((armCode stop elseCode).map turn).length = r.length := by
    simp [armCode, rLength]
  rw [length, armsPlace]
  exact typedArms

end SoftPlc.Compile
