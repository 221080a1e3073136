import SoftPlc.Proofs.Compile.Simulation

set_option autoImplicit false

namespace SoftPlc.Compile

open Machine Evaluation

variable (vars : List Variable) (loops base rounds : Nat)

theorem branch_simulates (cond : Expression) (test : List Instruction) (code others items : List Item)
    (next : Nat) (meaning rest : Store → Result) (compiled : condition vars cond = .ok test)
    (body : Simulates vars loops (base + test.length + 1) rounds code meaning)
    (otherwise : Simulates vars loops next rounds others rest)
    (behind : next = base + test.length + 1 + code.length + 1)
    (laid : items = ops test ++ [.op (.jumpIfFalse next)] ++ code ++
      [.op (.jump (next + others.length))] ++ others) :
    Simulates vars loops base rounds items (fun store =>
      given store (converting.expression vars store cond) fun v =>
      if v.isTrue then meaning store else rest store) := by
  intro b turn exit stack store m turned located here
  have stop : base + items.length = next + others.length := by
    simp [laid, ops, behind]
    omega
  simp only [laid, List.map_append, turned_ops turn loops exit turned, List.map_singleton, turned.op,
    List.append_assoc] at located
  obtain ⟨testing, located⟩ := (located_append _ _ _ _).mp located
  obtain ⟨leaving, located⟩ := (located_append _ _ _ _).mp located
  obtain ⟨inside, located⟩ := (located_append _ _ _ _).mp located
  obtain ⟨jumping, following⟩ := (located_append _ _ _ _).mp located
  simp only [List.length_map, List.length_singleton] at jumping following
  rw [← behind] at following
  rw [stop]
  refine condition_leads vars base rounds b 0 cond test stack store m _ _ _ compiled testing here ?_ (by omega)
  intro c m₁ at₁
  have branched := leads_jump_if_false b m₁ _ next c stack store at₁ ((located_singleton _ _ _).mp leaving)
  refine leads_less b _ (1 + _) m₁ _ (Nat.le_add_left _ 1) (leads_trans b 1 _ m₁ _ _ branched ?_)
  intro m₂ at₂
  cases c with
  | false => exact otherwise b turn exit stack store m₂ turned following ⟨at₂, here.2⟩
  | true =>
    exact leads_part_jump vars rounds b _ _ stack _ _ m₂
      (body b turn exit stack store m₂ turned inside ⟨at₂, here.2⟩) ((located_singleton _ _ _).mp jumping)

def armCode (stop : Nat) (body : List Item) : List Item := [.op .discard] ++ body ++ [.op (.jump stop)]

theorem arm_code_length (stop : Nat) (body : List Item) : (armCode stop body).length = body.length + 2 := by
  simp [armCode]

theorem arms_code_length (stop : Nat) (bodies : List (List Item)) :
    (bodies.map (armCode stop)).flatten.length = total (bodies.map (·.length + 2)) := by
  induction bodies with
  | nil => rfl
  | cons body rest ih =>
    rw [List.map_cons, List.flatten_cons, List.length_append, arm_code_length, ih, List.map_cons, total_cons]

theorem arm_leads (b : Bytecode) (turn : Item → Instruction) (exit stop : Nat) (code : List Item)
    (v : Value) (stack store : List Value) (m : Machine) (meaning : Store → Result)
    (turned : Turned turn loops exit) (body : Simulates vars loops (base + 1) rounds code meaning)
    (located : Located b.code base ((armCode stop code).map turn))
    (fits : Fits vars store) (here : m.At base (v :: stack) store) :
    Leads b (least 0 rounds (meaning store)) m
      (Ends (Stands vars stop stack) (Exits vars loops exit stack) (meaning store)) := by
  simp only [armCode, List.map_append, List.map_singleton, turned.op, List.append_assoc] at located
  obtain ⟨discarding, located⟩ := (located_append _ _ _ _).mp located
  obtain ⟨inside, jumping⟩ := (located_append _ _ _ _).mp located
  simp only [List.length_map, List.length_singleton] at inside jumping
  have discarded := leads_discard b m base v stack store here ((located_singleton _ _ _).mp discarding)
  refine leads_less b _ (1 + _) m _ (Nat.le_add_left _ 1) (leads_trans b 1 _ m _ _ discarded ?_)
  intro m₁ at₁
  exact leads_part_jump vars rounds b _ stop stack _ _ m₁
    (body b turn exit stack store m₁ turned inside ⟨at₁, fits⟩) ((located_singleton _ _ _).mp jumping)

def ArmsSimulate (vars : List Variable) (loops rounds : Nat) :
    Nat → List (List CaseLabel × List Statement) → List (List Item) → Prop
  | _, [], [] => True
  | base, (_, body) :: arms, code :: codes =>
    Simulates vars loops (base + 1) rounds code (converting.block vars rounds body) ∧
      ArmsSimulate vars loops rounds (base + code.length + 2) arms codes
  | _, _, _ => False

theorem arms_simulate_length (arms : List (List CaseLabel × List Statement)) (codes : List (List Item))
    (bodies : ArmsSimulate vars loops rounds base arms codes) : codes.length = arms.length := by
  induction arms generalizing base codes with
  | nil =>
    cases codes with
    | nil => rfl
    | cons code codes => exact bodies.elim
  | cons arm arms ih =>
    cases codes with
    | nil => exact bodies.elim
    | cons code codes => exact congrArg Nat.succ (ih _ codes bodies.2)

theorem select_leads (b : Bytecode) (turn : Item → Instruction) (line : UInt16) (span : Span)
    (exit stop : Nat) (v : Value) (stack store : List Value) (otherwise : Store → Result)
    (turned : Turned turn loops exit) (fits : Fits vars store) (integer : v.dataType.isInteger = true)
    (arms : List (List CaseLabel × List Statement)) (tests : List (List LabelTest))
    (codes : List (List Item)) (testsAt armsAt place : Nat) (m : Machine)
    (compiled : armTests line span v.dataType place arms = .ok tests)
    (bodies : ArmsSimulate vars loops rounds armsAt arms codes)
    (testing : Located b.code testsAt
      (armTestsCode v.dataType testsAt tests (addresses armsAt (codes.map (·.length + 2)))))
    (inside : Located b.code armsAt ((codes.map (armCode stop)).flatten.map turn))
    (here : m.At testsAt (v :: stack) store)
    (falls : ∀ m, m.At (testsAt + total (arms.map fun arm => testsLength arm.1)) (v :: stack) store →
      Leads b (least 0 rounds (otherwise store)) m
        (Ends (Stands vars stop stack) (Exits vars loops exit stack) (otherwise store))) :
    let result := converting.select vars rounds v.toInt otherwise arms store
    Leads b (least 0 rounds result) m (Ends (Stands vars stop stack) (Exits vars loops exit stack) result) := by
  induction arms generalizing tests codes testsAt armsAt place m with
  | nil =>
    simp only [Reading.select]
    exact falls m here
  | cons arm arms ih =>
    obtain ⟨labels, body⟩ := arm
    cases codes with
    | nil => exact bodies.elim
    | cons code codes =>
    obtain ⟨first, others, firstOk, othersOk, rfl⟩ :=
      arm_tests_cons_ok line span v.dataType place labels body arms tests compiled
    obtain ⟨bodySimulates, bodies⟩ := bodies
    simp only [List.map_cons, addresses, armTestsCode] at testing
    obtain ⟨front, back⟩ := (located_append _ _ _ _).mp testing
    rw [tests_code_length, label_tests_labels line span v.dataType place labels first firstOk] at back
    simp only [List.map_cons, List.flatten_cons, List.map_append] at inside
    obtain ⟨own, following⟩ := (located_append _ _ _ _).mp inside
    have length : ((armCode stop code).map turn).length = code.length + 2 := by
      rw [List.length_map, arm_code_length]
    rw [length] at following
    have tested := label_tests_lead b line span labels first m testsAt place armsAt v stack store firstOk front
      here integer
    refine leads_less b _ (0 + _) m _ (Nat.le_add_left _ 0) (leads_trans b 0 _ m _ _ tested ?_)
    intro m₁ at₁
    simp only [Reading.select]
    by_cases found : labels.any (·.contains v.toInt) = true
    · rw [if_pos found] at at₁ ⊢
      exact arm_leads vars loops armsAt rounds b turn exit stop code v stack store m₁ _ turned bodySimulates
        own fits at₁
    · rw [if_neg found] at at₁ ⊢
      apply ih others codes _ _ _ m₁ othersOk bodies back following at₁
      intro m₂ at₂
      apply falls m₂
      simpa [Nat.add_assoc] using at₂

structure CaseLayout (base : Nat) (f : Fragment) (arms : List (List CaseLabel × List Statement))
    (tests : List (List LabelTest)) (elseCode : List Item) (codes : List (List Item)) (armsAt stop : Nat)
    (items : List Item) : Prop where
  parts : items = ops f.code ++
    (ops (armTestsCode f.dataType (base + f.code.length) tests (addresses armsAt (codes.map (·.length + 2)))) ++
      (armCode stop elseCode ++ (codes.map (armCode stop)).flatten))
  tests : (armTestsCode f.dataType (base + f.code.length) tests
    (addresses armsAt (codes.map (·.length + 2)))).length = total (arms.map fun arm => testsLength arm.1)
  whole : base + items.length = stop

theorem case_layout (line : UInt16) (span : Span) (f : Fragment) (arms : List (List CaseLabel × List Statement))
    (tests : List (List LabelTest)) (elseCode items : List Item) (codes : List (List Item))
    (elseAt armsAt stop : Nat)
    (tested : armTests line span f.dataType (base + f.code.length) arms = .ok tests)
    (count : codes.length = arms.length)
    (place : elseAt = base + f.code.length + total (arms.map fun arm => testsLength arm.1) + 1)
    (armsPlace : armsAt = elseAt + elseCode.length + 1)
    (behind : stop = armsAt + total (codes.map (·.length + 2)))
    (laid : items = caseCode base f tests elseCode codes) :
    CaseLayout base f arms tests elseCode codes armsAt stop items := by
  have labels := arm_tests_labels line span f.dataType _ arms tests tested
  have sameTests : tests.length = codes.length := by
    have lengths := congrArg List.length labels
    simp only [List.length_map] at lengths
    rw [lengths, count]
  have sums := arm_tests_total line span f.dataType _ arms tests tested
  have parts : items = ops f.code ++
      (ops (armTestsCode f.dataType (base + f.code.length) tests (addresses armsAt (codes.map (·.length + 2)))) ++
        (armCode stop elseCode ++ (codes.map (armCode stop)).flatten)) := by
    have same : base + f.code.length + total (tests.map fun arm => testsLength (arm.map (·.label))) +
        elseCode.length + 2 = armsAt := by omega
    simp only [laid, caseCode, same, behind, List.append_assoc, armCode]
    rfl
  have testLength : (armTestsCode f.dataType (base + f.code.length) tests
      (addresses armsAt (codes.map (·.length + 2)))).length = total (arms.map fun arm => testsLength arm.1) := by
    rw [← sums]
    exact arm_tests_code_length f.dataType _ tests _ (by simp [addresses_length, sameTests])
  have armsLength := arms_code_length stop codes
  refine ⟨parts, testLength, ?_⟩
  simp only [parts, ops, List.length_append, List.length_map, testLength, armsLength, armCode,
    List.length_singleton]
  omega

theorem select_simulates (line : UInt16) (e : Expression) (f : Fragment)
    (arms : List (List CaseLabel × List Statement)) (tests : List (List LabelTest))
    (elseCode items : List Item) (codes : List (List Item)) (elseAt : Nat) (otherwise : Store → Result)
    (compiled : selector vars e = .ok f)
    (tested : armTests line e.span f.dataType (base + f.code.length) arms = .ok tests)
    (place : elseAt = base + f.code.length + total (arms.map fun arm => testsLength arm.1) + 1)
    (elseSimulates : Simulates vars loops elseAt rounds elseCode otherwise)
    (bodies : ArmsSimulate vars loops rounds (elseAt + elseCode.length + 1) arms codes)
    (laid : items = caseCode base f tests elseCode codes) :
    Simulates vars loops base rounds items (fun store =>
      given store (converting.expression vars store e) fun v =>
      converting.select vars rounds v.toInt otherwise arms store) := by
  intro b turn exit stack store m turned located here
  obtain ⟨fragment, integer⟩ := selector_ok vars e f compiled
  let armsAt := elseAt + elseCode.length + 1
  let stop := armsAt + total (codes.map (·.length + 2))
  have layout := case_layout base line e.span f arms tests elseCode items codes elseAt armsAt stop tested
    (arms_simulate_length vars loops _ rounds arms codes bodies) place rfl rfl laid
  rw [layout.parts] at located
  simp only [List.map_append, turned_ops turn loops exit turned] at located
  obtain ⟨selecting, located⟩ := (located_append _ _ _ _).mp located
  obtain ⟨testing, located⟩ := (located_append _ _ _ _).mp located
  obtain ⟨falling, inside⟩ := (located_append _ _ _ _).mp located
  simp only [List.length_map, layout.tests] at falling inside
  have armsPlace : base + f.code.length + total (arms.map fun arm => testsLength arm.1) +
      (armCode stop elseCode).length = armsAt := by
    simp only [armCode, List.length_append, List.length_singleton]
    omega
  rw [armsPlace] at inside
  rw [layout.whole]
  refine expression_leads vars base rounds b 0 e f stack store m _ _ _ fragment selecting here ?_ (by omega)
  intro v m₁ typed at₁
  rw [← typed] at integer tested
  apply select_leads vars loops rounds b turn line e.span exit stop v stack store otherwise turned here.2 integer
    arms tests codes _ armsAt _ m₁ tested bodies (by rw [typed]; exact testing) inside at₁
  intro m₂ at₂
  rw [place] at elseSimulates
  exact arm_leads vars loops _ rounds b turn exit stop elseCode v stack store m₂ otherwise turned elseSimulates
    falling here.2 at₂

end SoftPlc.Compile
