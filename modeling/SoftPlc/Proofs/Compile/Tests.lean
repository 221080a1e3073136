import SoftPlc.Proofs.Compile.Endings
import SoftPlc.Proofs.Value.Integers

set_option autoImplicit false

namespace SoftPlc.Compile

open Machine Evaluation

theorem label_value_ok (n : Int) (t : DataType) (span : Span) (v : Value) (integer : t.isInteger = true)
    (compiled : labelValue n t span = .ok v) : v.dataType = t ∧ v.toInt = n := by
  cases t with
  | bool | real => cases integer
  | int =>
    by_cases range : -32768 ≤ n ∧ n < 32768
    · simp only [labelValue, if_pos range] at compiled
      cases compiled
      exact ⟨rfl, Value.to_int_held .int integer n range⟩
    · simp [labelValue, range, failAt] at compiled
  | dint =>
    by_cases range : -2147483648 ≤ n ∧ n < 2147483648
    · simp only [labelValue, if_pos range] at compiled
      cases compiled
      exact ⟨rfl, Value.to_int_held .dint integer n range⟩
    · simp [labelValue, range, failAt] at compiled
  | dword =>
    by_cases range : 0 ≤ n ∧ n < 4294967296
    · simp only [labelValue, if_pos range] at compiled
      cases compiled
      exact ⟨rfl, Value.to_int_held .dword integer n range⟩
    · simp [labelValue, range, failAt] at compiled

variable (b : Bytecode)

theorem leads_compare (m : Machine) (base : Nat) (op : BinaryOp) (i : Instruction) (v w : Value)
    (stack store : List Value) (located : Located b.code base [.duplicate, i, .binary op v.dataType])
    (here : m.At base (v :: stack) store)
    (pushes : ∀ s, perform store s i = do return { stack := ← pushResult (.ok w) s, vars := store })
    (same : w.dataType = v.dataType) (integer : v.dataType.isInteger = true)
    (compares : op.isComparison = true) :
    Leads b 0 m (·.At (base + 3) (.bool (op.holdsOf (some (compare v.toInt w.toInt))) :: v :: stack) store) := by
  simp only [located_cons] at located
  obtain ⟨first, second, third, _⟩ := located
  have copied := leads_result b m base _ store (v :: stack) .duplicate (.ok v) here first
    (perform_duplicate store stack v)
  refine leads_then b 1 0 m _ _ copied ?_
  intro m₁ at₁
  have pushed := leads_result b m₁ _ _ store _ i (.ok w) at₁ second (pushes _)
  refine leads_then b 1 1 m₁ _ _ pushed ?_
  intro m₂ at₂
  have compared := leads_result b m₂ _ _ store (v :: stack) (.binary op v.dataType) _ at₂ third
    (perform_binary store (v :: stack) op v w v.dataType rfl (fun _ => same))
  rw [BinaryOp.apply_integers op v w same integer compares] at compared
  exact compared

theorem single_test_leads (m : Machine) (base arm : Nat) (v w : Value) (stack store : List Value)
    (located : Located b.code base
      [.duplicate, .push w, .binary .equal v.dataType, .jumpIfTrue arm])
    (here : m.At base (v :: stack) store) (same : w.dataType = v.dataType)
    (integer : v.dataType.isInteger = true) :
    Leads b 0 m (·.At (if v.toInt = w.toInt then arm else base + 4) (v :: stack) store) := by
  obtain ⟨front, back⟩ := (located_append b.code base [_, _, _] [.jumpIfTrue arm]).mp located
  have compared := leads_compare b m base .equal (.push w) v w stack store front here
    (fun s => perform_push store s w) same integer rfl
  refine leads_then b 0 1 m _ _ compared ?_
  intro m' here'
  rw [BinaryOp.holds_equal] at here'
  have jumped := leads_jump_if_true b m' _ arm _ _ store here' ((located_singleton _ _ _).mp back)
  simpa only [decide_eq_true_eq] using jumped

theorem range_test_leads (m : Machine) (base arm : Nat) (v low high : Value) (stack store : List Value)
    (located : Located b.code base
      [.duplicate, .push low, .binary .greaterEqual v.dataType, .jumpIfFalse (base + 8),
        .duplicate, .push high, .binary .lessEqual v.dataType, .jumpIfTrue arm])
    (here : m.At base (v :: stack) store) (lowSame : low.dataType = v.dataType)
    (highSame : high.dataType = v.dataType) (integer : v.dataType.isInteger = true) :
    Leads b 0 m (·.At (if low.toInt ≤ v.toInt ∧ v.toInt ≤ high.toInt then arm else base + 8)
      (v :: stack) store) := by
  obtain ⟨front, back⟩ := (located_append b.code base [_, _, _, _] [_, _, _, _]).mp located
  obtain ⟨lower, leaves⟩ := (located_append b.code base [_, _, _] [_]).mp front
  obtain ⟨upper, enters⟩ := (located_append b.code (base + 4) [_, _, _] [_]).mp back
  have compared := leads_compare b m base .greaterEqual (.push low) v low stack store lower here
    (fun s => perform_push store s low) lowSame integer rfl
  refine leads_then b 0 0 m _ _ compared ?_
  intro m₁ at₁
  rw [BinaryOp.holds_greater_equal] at at₁
  have jumped := leads_jump_if_false b m₁ _ _ _ _ store at₁ ((located_singleton _ _ _).mp leaves)
  refine leads_then b 1 0 m₁ _ _ jumped ?_
  intro m₂ at₂
  by_cases above : low.toInt ≤ v.toInt
  · have next : m₂.At (base + 4) (v :: stack) store := by simpa [above] using at₂
    have compared := leads_compare b m₂ (base + 4) .lessEqual (.push high) v high stack store upper next
      (fun s => perform_push store s high) highSame integer rfl
    refine leads_then b 0 1 m₂ _ _ compared ?_
    intro m₃ at₃
    rw [BinaryOp.holds_less_equal] at at₃
    have jumped := leads_jump_if_true b m₃ _ arm _ _ store at₃ ((located_singleton _ _ _).mp enters)
    simpa [above] using jumped
  · refine leads_now b m₂ _ ?_
    simpa [above] using at₂

theorem label_test_leads (line : UInt16) (span : Span) (label : CaseLabel) (test : LabelTest)
    (m : Machine) (base place arm : Nat) (v : Value) (stack store : List Value)
    (compiled : labelTest line span v.dataType place label = .ok test)
    (located : Located b.code base (test.code v.dataType base arm)) (here : m.At base (v :: stack) store)
    (integer : v.dataType.isInteger = true) :
    Leads b 0 m (·.At (if label.contains v.toInt then arm else base + testLength label)
      (v :: stack) store) := by
  obtain ⟨rfl, values⟩ := label_test_ok line span v.dataType place label test compiled
  obtain ⟨label, low, high⟩ := test
  cases label with
  | single n =>
    obtain ⟨same, rfl⟩ := label_value_ok n v.dataType span low integer values
    have leads := single_test_leads b m base arm v low stack store located here same integer
    simpa [CaseLabel.contains, testLength, eq_comm] using leads
  | range first last =>
    obtain ⟨lowSame, rfl⟩ := label_value_ok first v.dataType span low integer values.1
    obtain ⟨highSame, rfl⟩ := label_value_ok last v.dataType span high integer values.2
    have leads := range_test_leads b m base arm v low high stack store located here lowSame highSame integer
    simpa [CaseLabel.contains, testLength] using leads

theorem test_code_length (test : LabelTest) (t : DataType) (base arm : Nat) :
    (test.code t base arm).length = testLength test.label := by
  obtain ⟨label, low, high⟩ := test
  cases label <;> rfl

theorem tests_code_length (t : DataType) (arm base : Nat) (tests : List LabelTest) :
    (testsCode t arm base tests).length = testsLength (tests.map (·.label)) := by
  induction tests generalizing base with
  | nil => rfl
  | cons test rest ih => simp [testsCode, testsLength, test_code_length, ih]

theorem label_tests_lead (line : UInt16) (span : Span) (labels : List CaseLabel) (tests : List LabelTest)
    (m : Machine) (base place arm : Nat) (v : Value) (stack store : List Value)
    (compiled : labelTests line span v.dataType place labels = .ok tests)
    (located : Located b.code base (testsCode v.dataType arm base tests))
    (here : m.At base (v :: stack) store) (integer : v.dataType.isInteger = true) :
    Leads b 0 m (·.At (if labels.any (·.contains v.toInt) then arm else base + testsLength labels)
      (v :: stack) store) := by
  induction labels generalizing tests m base place with
  | nil => exact leads_now b m _ here
  | cons label rest ih =>
    obtain ⟨test, others, testOk, othersOk, rfl⟩ :=
      label_tests_cons_ok line span v.dataType place label rest tests compiled
    obtain ⟨front, back⟩ := (located_append b.code base _ _).mp located
    rw [test_code_length] at back
    have same := (label_test_ok line span v.dataType place label test testOk).1
    rw [same] at back
    have first := label_test_leads b line span label test m base place arm v stack store testOk front here integer
    refine leads_then b 0 0 m _ _ first ?_
    intro m' here'
    by_cases found : label.contains v.toInt = true
    · refine leads_now b m' _ ?_
      simpa [found] using here'
    · have next : m'.At (base + testLength label) (v :: stack) store := by simpa [found] using here'
      have rest := ih others m' _ _ othersOk back next
      simpa [found, testsLength, Nat.add_assoc] using rest

theorem label_tests_labels (line : UInt16) (span : Span) (t : DataType) (place : Nat)
    (labels : List CaseLabel) (tests : List LabelTest)
    (compiled : labelTests line span t place labels = .ok tests) : tests.map (·.label) = labels := by
  induction labels generalizing tests place with
  | nil =>
    cases compiled
    rfl
  | cons label rest ih =>
    obtain ⟨test, others, testOk, othersOk, rfl⟩ :=
      label_tests_cons_ok line span t place label rest tests compiled
    have same := (label_test_ok line span t place label test testOk).1
    rw [List.map_cons, same, ih _ others othersOk]

theorem arm_tests_labels (line : UInt16) (span : Span) (t : DataType) (place : Nat)
    (arms : List (List CaseLabel × List Statement)) (tests : List (List LabelTest))
    (compiled : armTests line span t place arms = .ok tests) :
    tests.map (·.map (·.label)) = arms.map (·.1) := by
  induction arms generalizing tests place with
  | nil =>
    cases compiled
    rfl
  | cons arm rest ih =>
    obtain ⟨labels, body⟩ := arm
    obtain ⟨first, others, firstOk, othersOk, rfl⟩ :=
      arm_tests_cons_ok line span t place labels body rest tests compiled
    simp only [List.map_cons, label_tests_labels line span t place labels first firstOk, ih _ others othersOk]

theorem arm_tests_total (line : UInt16) (span : Span) (t : DataType) (place : Nat)
    (arms : List (List CaseLabel × List Statement)) (tests : List (List LabelTest))
    (compiled : armTests line span t place arms = .ok tests) :
    total (tests.map fun arm => testsLength (arm.map (·.label))) = total (arms.map fun arm => testsLength arm.1) := by
  have labels := arm_tests_labels line span t place arms tests compiled
  have mapped := congrArg (fun labels => total (labels.map testsLength)) labels
  simpa only [List.map_map, Function.comp_def] using mapped

theorem addresses_length (base : Nat) (lengths : List Nat) : (addresses base lengths).length = lengths.length := by
  induction lengths generalizing base with
  | nil => rfl
  | cons length rest ih => exact congrArg Nat.succ (ih (base + length))

theorem arm_tests_code_length (t : DataType) (base : Nat) (tests : List (List LabelTest)) (arms : List Nat)
    (same : tests.length = arms.length) :
    (armTestsCode t base tests arms).length = total (tests.map fun arm => testsLength (arm.map (·.label))) := by
  induction tests generalizing base arms with
  | nil => cases arms <;> rfl
  | cons first rest ih =>
    cases arms with
    | nil => cases same
    | cons arm arms =>
      simp only [armTestsCode, List.length_append, tests_code_length, List.map_cons, total_cons,
        ih _ arms (Nat.succ.inj same)]

end SoftPlc.Compile
