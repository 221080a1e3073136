import SoftPlc.Proofs.Compile.Moved
import SoftPlc.Proofs.Compile.Rounds
import SoftPlc.Proofs.Compile.Stores
import SoftPlc.Proofs.Machine.Sights

set_option autoImplicit false

namespace SoftPlc.Compile

open Machine Evaluation Instruction

-- The two loops in their programs. The literal's test takes 4 instructions and the other one 13, the
-- bodies are equally long, and so are the ways back.
structure Versions (b b' : Bytecode) (c : Counting) (index : Nat) (k : Value) (down : Bool)
    (base base' top top' body : Nat) : Prop where
  topAt : top = base + c.start.length
  topAt' : top' = base' + c.start.length
  starts : Located b.code base c.start
  starts' : Located b'.code base' c.start
  straight : ∀ i ∈ c.start, i.Straight ∧ i ≠ .store index
  test : Located b.code top (c.compare (dueWhen down) (top + 4 + (body + 5)))
  sign : Located b'.code top' [.load index, .push (.zero c.dataType), .binary .less c.dataType, .jumpIfTrue (top' + 9)]
  up : Located b'.code (top' + 4) (c.compare (dueWhen false) (top' + 13 + (body + 5)))
  skip : b'.code[top' + 8]? = some (.jump (top' + 13))
  falls : Located b'.code (top' + 9) (c.compare (dueWhen true) (top' + 13 + (body + 5)))
  inside : ∀ d < body, ∃ i i', b.code[top + 4 + d]? = some i ∧ b'.code[top' + 13 + d]? = some i' ∧
    Moves (top + 4) (top' + 13) (body + 5) i i' ∧ i ≠ .store index
  finish : Located b.code (top + 4 + body)
    [.load c.index, .push k, .binary .add c.dataType, .store c.index, .jump top, .discard]
  finish' : Located b'.code (top' + 13 + body)
    [.load c.index, .load index, .binary .add c.dataType, .store c.index, .jump top', .discard]
  apart : c.index ≠ index
  typed : k.dataType = c.dataType
  integer : c.dataType.isInteger = true
  direction : decide (k.toInt < 0) = down

structure Keeping (c : Counting) (index : Nat) (k : Value) (vars : List Value) : Prop where
  step : vars[index]? = some k
  counter : c.index < vars.length

def comparedAt (down : Bool) (top : Nat) : Nat := top + (if down then 9 else 4)

inductive Together (c : Counting) (index : Nat) (k : Value) (down : Bool) (base base' top top' body : Nat) :
    Machine → Machine → Prop where
  | stopped (m m' : Machine) : StoppedAlike m m' → Together c index k down base base' top top' body m m'
  | starting (d : Nat) (stack vars : List Value) (m m' : Machine) : d ≤ c.start.length →
      StandAlike (base + d) (base' + d) stack vars m m' → Keeping c index k vars →
      Together c index k down base base' top top' body m m'
  | comparing (d : Nat) (stack vars : List Value) (m m' : Machine) : 0 < d → d < 4 →
      StandAlike (top + d) (comparedAt down top' + d) stack vars m m' → Keeping c index k vars →
      Together c index k down base base' top top' body m m'
  | inside (d : Nat) (stack vars : List Value) (m m' : Machine) : d ≤ body + 6 →
      StandAlike (top + 4 + d) (top' + 13 + d) stack vars m m' → Keeping c index k vars →
      Together c index k down base base' top top' body m m'

section
variable (b b' : Bytecode) (c : Counting) (index : Nat) (k : Value) (down : Bool) (base base' top top' body : Nat)
  (versions : Versions b b' c index k down base base' top top' body)

def literalLoop (top body : Nat) : Circuit := ⟨top, top + 4, top + 4 + (body + 6)⟩

def variableLoop (top body : Nat) : Circuit := ⟨top, top + 13, top + 13 + (body + 6)⟩

theorem keeping_later (vars stack : List Value) (i : Instruction) (e : Effect) (keeping : Keeping c index k vars)
    (done : perform vars stack i = .ok e) (other : i ≠ .store index) : Keeping c index k e.vars :=
  ⟨perform_keeps vars stack i e done index k other keeping.step, by
    rw [perform_length vars stack i e done]
    exact keeping.counter⟩

include versions

theorem together_entered (m m' : Machine) (together : Together c index k down base base' top top' body m m') :
    (if m.isRunning = true ∧ m.pc = top + 4 then [m.vars] else []) =
      if m'.isRunning = true ∧ m'.pc = top' + 13 then [m'.vars] else [] := by
  cases together with
  | stopped _ _ alike =>
    rw [if_neg (by simp [alike.stopped]), if_neg (by simp [alike.stopped_other m m'])]
  | starting d stack vars _ _ within stand _ =>
    have first := versions.topAt
    have second := versions.topAt'
    rw [if_neg (by rw [stand.1.pc]; omega), if_neg (by rw [stand.2.pc]; omega)]
  | comparing d stack vars _ _ some within stand _ =>
    rw [if_neg (by rw [stand.1.pc]; omega), if_neg (by rw [stand.2.pc, comparedAt]; split <;> omega)]
  | inside d stack vars _ _ within stand _ =>
    rw [stand.1.pc, stand.2.pc, stand.1.vars, stand.2.vars, stand.1.running, stand.2.running]
    by_cases first : d = 0
    · rw [if_pos ⟨rfl, by omega⟩, if_pos ⟨rfl, by omega⟩]
    · rw [if_neg (fun entered => first (by have := entered.2; omega)),
        if_neg (fun entered => first (by have := entered.2; omega))]

theorem advance_tests (n n' : Nat) (m m' m₁ m₁' : Machine)
    (tests : Tests b (literalLoop top body) (n + 1) m m₁) (tests' : Tests b' (variableLoop top' body) (n' + 1) m' m₁')
    (together : Together c index k down base base' top top' body m₁ m₁') :
    Advances b (literalLoop top body) b' (variableLoop top' body)
      (Together c index k down base base' top top' body) m m' := by
  obtain ⟨silent, reached, entered⟩ := tests_seen b (literalLoop top body) n m m₁ (Nat.le_add_right _ _) tests
  obtain ⟨silent', reached', entered'⟩ := tests_seen b' (variableLoop top' body) n' m' m₁' (Nat.le_add_right _ _) tests'
  refine ⟨n + 1, n' + 1, Nat.succ_pos n, Nat.succ_pos n', silent, silent', ?_, ?_⟩
  · rw [entered, entered']
    exact together_entered b b' c index k down base base' top top' body versions m₁ m₁' together
  · rw [reached, reached']
    exact together

omit versions in
theorem advance_step (m m' : Machine) (running : m.isRunning = true) (running' : m'.isRunning = true)
    (place : m.pc < top ∨ top + 4 ≤ m.pc ∧ m.pc ≠ top + 4 + (body + 6))
    (place' : m'.pc < top' ∨ top' + 13 ≤ m'.pc ∧ m'.pc ≠ top' + 13 + (body + 6))
    (together : Together c index k down base base' top top' body (m.step b) (m'.step b')) :
    Advances b (literalLoop top body) b' (variableLoop top' body)
      (Together c index k down base base' top top' body) m m' := by
  obtain ⟨silent, reached, entered⟩ := step_seen b (literalLoop top body) m running
    (by simp only [literalLoop]; omega) (by simp only [literalLoop]; omega)
  obtain ⟨silent', reached', entered'⟩ := step_seen b' (variableLoop top' body) m' running'
    (by simp only [variableLoop]; omega) (by simp only [variableLoop]; omega)
  refine ⟨1, 1, Nat.one_pos, Nat.one_pos, silent, silent', entered.trans entered'.symm, ?_⟩
  rw [reached, reached']
  exact together

theorem advance_starting (d : Nat) (stack vars : List Value) (m m' : Machine) (early : d < c.start.length)
    (stand : StandAlike (base + d) (base' + d) stack vars m m') (keeping : Keeping c index k vars) :
    Advances b (literalLoop top body) b' (variableLoop top' body)
      (Together c index k down base base' top top' body) m m' := by
  have first := versions.topAt
  have second := versions.topAt'
  have code := located_get b.code base c.start versions.starts d early
  have code' := located_get b'.code base' c.start versions.starts' d early
  obtain ⟨straight, other⟩ := versions.straight _ (List.getElem_mem early)
  refine advance_step b b' c index k down base base' top top' body m m' stand.1.running stand.2.running
    (.inl (by rw [stand.1.pc]; omega)) (.inl (by rw [stand.2.pc]; omega)) ?_
  rcases step_alike b b' m m' _ _ base base' 0 stack vars _ _ stand code code'
      (straight_agrees vars stack base base' 0 _ straight) with alike | ⟨e, done, next | ⟨far, near, jumped⟩⟩
  · exact .stopped _ _ alike
  · exact .starting (d + 1) _ _ _ _ early next (keeping_later c index k vars stack _ e keeping done other)
  · exact .starting far _ _ _ _ (by omega) jumped (keeping_later c index k vars stack _ e keeping done other)

omit versions in
theorem inside_goes (d : Nat) (stack vars : List Value) (m m' : Machine) (early : d < body + 6) (i i' : Instruction)
    (stand : StandAlike (top + 4 + d) (top' + 13 + d) stack vars m m') (keeping : Keeping c index k vars)
    (code : b.code[top + 4 + d]? = some i) (code' : b'.code[top' + 13 + d]? = some i') (other : i ≠ .store index)
    (agrees : Agrees (top + 4) (top' + 13) (body + 5) (perform vars stack i) (perform vars stack i')) :
    Together c index k down base base' top top' body (m.step b) (m'.step b') := by
  rcases step_alike b b' m m' _ _ _ _ _ stack vars i i' stand code code' agrees with
    alike | ⟨e, done, next | ⟨far, near, jumped⟩⟩
  · exact .stopped _ _ alike
  · exact .inside (d + 1) _ _ _ _ early next (keeping_later c index k vars stack i e keeping done other)
  · exact .inside far _ _ _ _ (by omega) jumped (keeping_later c index k vars stack i e keeping done other)

theorem advance_inside (d : Nat) (stack vars : List Value) (m m' : Machine) (early : d < body + 6)
    (stand : StandAlike (top + 4 + d) (top' + 13 + d) stack vars m m') (keeping : Keeping c index k vars) :
    Advances b (literalLoop top body) b' (variableLoop top' body)
      (Together c index k down base base' top top' body) m m' := by
  refine advance_step b b' c index k down base base' top top' body m m' stand.1.running stand.2.running
    (.inr (by rw [stand.1.pc]; omega)) (.inr (by rw [stand.2.pc]; omega)) ?_
  have goes := inside_goes b b' c index k down base base' top top' body d stack vars m m' early
  by_cases within : d < body
  · obtain ⟨i, i', code, code', moves, other⟩ := versions.inside d within
    exact goes i i' stand keeping code code' other (moves_agree vars stack _ _ _ i i' moves)
  · obtain ⟨r, rfl⟩ := Nat.exists_eq_add_of_le (Nat.le_of_not_lt within)
    have code := located_get b.code _ _ versions.finish r (by simp only [List.length_cons, List.length_nil]; omega)
    have code' := located_get b'.code _ _ versions.finish' r (by simp only [List.length_cons, List.length_nil]; omega)
    rw [Nat.add_assoc] at code code'
    have straight (i : Instruction) (s : i.Straight) := straight_agrees vars stack (top + 4) (top' + 13) (body + 5) i s
    -- the way back, one instruction after the other
    match r with
    | 0 => exact goes _ _ stand keeping code code' (by simp) (straight _ trivial)
    | 1 =>
      have same : perform vars stack (.load index) = perform vars stack (.push k) := by
        rw [perform_load vars stack index k keeping.step, perform_push]
      refine goes _ _ stand keeping code code' (by simp) ?_
      change Agrees _ _ _ (perform vars stack (.push k)) (perform vars stack (.load index))
      rw [same]
      exact straight _ trivial
    | 2 => exact goes _ _ stand keeping code code' (by simp) (straight _ trivial)
    | 3 =>
      refine goes _ _ stand keeping code code' ?_ (straight _ trivial)
      intro same
      exact versions.apart (Instruction.store.inj same)
    | 4 =>
      have jumps : Agrees base base' c.start.length (perform vars stack (.jump top)) (perform vars stack (.jump top')) := by
        rw [versions.topAt, versions.topAt']
        exact moves_agree vars stack _ _ _ _ _ (.jump c.start.length (Nat.le_refl _))
      rcases step_alike b b' m m' _ _ base base' c.start.length stack vars _ _ stand code code' jumps with
        alike | ⟨e, done, next | ⟨far, near, jumped⟩⟩
      · exact .stopped _ _ alike
      · exact .inside (body + 4 + 1) _ _ _ _ (by omega) next (keeping_later c index k vars stack _ e keeping done (by simp))
      · exact .starting far _ _ _ _ near jumped (keeping_later c index k vars stack _ e keeping done (by simp))
    | 5 => exact goes _ _ stand keeping code code' (by simp) (straight _ trivial)
    | r + 6 => omega

theorem compared_located : Located b'.code (comparedAt down top') (c.compare (dueWhen down) (top' + 13 + (body + 5))) := by
  cases down with
  | true => exact versions.falls
  | false => exact versions.up

theorem entering (stack vars : List Value) (m m' : Machine)
    (stand : StandAlike (top + 4) (comparedAt down top' + 4) stack vars m m') (keeping : Keeping c index k vars) :
    ∃ n m₁, Tests b' (variableLoop top' body) n m' m₁ ∧ Together c index k down base base' top top' body m m₁ := by
  cases down with
  | true => exact ⟨0, m', .here m', .inside 0 stack vars m m' (by omega) stand keeping⟩
  | false =>
    have there : m'.At (top' + 8) stack vars := stand.2
    have jumped := step_effect b' m' _ stack vars stack vars _ _ there versions.skip (perform_jump vars stack _)
    refine ⟨1, m'.step b', ?_, .inside 0 stack vars m _ (by omega) ⟨stand.1, jumped⟩ keeping⟩
    exact tests_at b' _ 0 _ stack vars m' _ there (by simp [variableLoop]) (by simp [variableLoop]) (.here _)

theorem compare_goes (d : Nat) (stack vars : List Value) (m m' : Machine) (early : d < 4)
    (stand : StandAlike (top + d) (comparedAt down top' + d) stack vars m m') (keeping : Keeping c index k vars) :
    ∃ n m₁, Tests b' (variableLoop top' body) (n + 1) m' m₁ ∧
      Together c index k down base base' top top' body (m.step b) m₁ := by
  have located' := compared_located b b' c index k down base base' top top' body versions
  have code := located_get b.code _ _ versions.test d early
  have code' := located_get b'.code _ _ located' d early
  have low : top' ≤ comparedAt down top' + d := Nat.le_add_right_of_le (Nat.le_add_right _ _)
  have high : comparedAt down top' + d < top' + 13 := by
    unfold comparedAt
    split <;> omega
  have first (m₁ : Machine) (n : Nat) (rest : Tests b' (variableLoop top' body) n (m'.step b') m₁) :=
    tests_at b' (variableLoop top' body) n _ stack vars m' m₁ stand.2 low high rest
  have agrees : Agrees (top + 4) (top' + 13) (body + 5) (perform vars stack (c.compare (dueWhen down) (top + 4 + (body + 5)))[d])
      (perform vars stack (c.compare (dueWhen down) (top' + 13 + (body + 5)))[d]) := by
    match d with
    | 0 | 1 | 2 => exact straight_agrees vars stack _ _ _ _ trivial
    | 3 => exact moves_agree vars stack _ _ _ _ _ (.jumpIfFalse (body + 5) (Nat.le_refl _))
    | d + 4 => omega
  have other : (c.compare (dueWhen down) (top + 4 + (body + 5)))[d] ≠ .store index := by
    match d with
    | 0 | 1 | 2 | 3 => simp [Counting.compare]
    | d + 4 => omega
  rcases step_alike b b' m m' _ _ _ _ _ stack vars _ _ stand code code' agrees with
    alike | ⟨e, done, next | ⟨far, near, jumped⟩⟩
  · exact ⟨0, _, first _ 0 (.here _), .stopped _ _ alike⟩
  · have kept := keeping_later c index k vars stack _ e keeping done other
    by_cases last : d = 3
    · subst last
      obtain ⟨n, m₁, tests, together⟩ :=
        entering b b' c index k down base base' top top' body versions _ _ _ _ next kept
      exact ⟨n, m₁, first m₁ n tests, together⟩
    · exact ⟨0, _, first _ 0 (.here _), .comparing (d + 1) _ _ _ _ (Nat.succ_pos d) (by omega) next kept⟩
  · have kept := keeping_later c index k vars stack _ e keeping done other
    exact ⟨0, _, first _ 0 (.here _), .inside far _ _ _ _ (by omega) jumped kept⟩

theorem advance_comparing (d : Nat) (stack vars : List Value) (m m' : Machine) (early : d < 4)
    (stand : StandAlike (top + d) (comparedAt down top' + d) stack vars m m') (keeping : Keeping c index k vars) :
    Advances b (literalLoop top body) b' (variableLoop top' body)
      (Together c index k down base base' top top' body) m m' := by
  obtain ⟨n, m₁, tests', together⟩ :=
    compare_goes b b' c index k down base base' top top' body versions d stack vars m m' early stand keeping
  have tests : Tests b (literalLoop top body) 1 m (m.step b) :=
    tests_at b (literalLoop top body) 0 _ stack vars m _ stand.1 (Nat.le_add_right _ _)
      (by simp only [literalLoop]; omega) (.here _)
  exact advance_tests b b' c index k down base base' top top' body versions 0 n m m' _ m₁ tests tests' together

omit versions in
theorem sign_value (typed : k.dataType = c.dataType) (integer : c.dataType.isInteger = true)
    (direction : decide (k.toInt < 0) = down) :
    BinaryOp.less.apply k (.zero c.dataType) = .ok (.bool down) := by
  have zeroed : (Value.zero c.dataType).toInt = 0 := by
    cases c.dataType <;> rfl
  rw [BinaryOp.apply_integers .less k _ ((Value.dataType_zero _).trans typed.symm) (typed ▸ integer) rfl,
    BinaryOp.holds_less, zeroed, direction]

theorem sign_tested (stack vars : List Value) (m : Machine) (here : m.At top' stack vars) (keeping : Keeping c index k vars)
    (room : stack.length + 1 < Machine.bound.depth) :
    ∃ m₁, Tests b' (variableLoop top' body) 4 m m₁ ∧ m₁.At (comparedAt down top') stack vars := by
  have fetch := located_get b'.code _ _ versions.sign
  have at₁ := step_with_room b' m _ stack vars stack _ here (fetch 0 (by simp)) k (by omega)
    (perform_load vars stack index k keeping.step)
  have at₂ := step_with_room b' _ _ _ vars (k :: stack) _ at₁ (fetch 1 (by simp)) (.zero c.dataType)
    (by simp only [List.length_cons]; omega) (perform_push vars (k :: stack) _)
  have compares := perform_binary vars stack .less k (.zero c.dataType) c.dataType versions.typed
    (fun _ => Value.dataType_zero _)
  rw [sign_value c k down versions.typed versions.integer versions.direction] at compares
  have at₃ := step_with_room b' _ _ _ vars stack _ at₂ (fetch 2 (by simp)) (.bool down) (by omega) compares
  have at₄ := step_effect b' _ _ _ vars stack vars _ _ at₃ (fetch 3 (by simp)) (perform_jump_if_true vars stack down _)
  have place : (if down = true then some (top' + 9) else none).getD (top' + 3 + 1) = comparedAt down top' := by
    cases down <;> rfl
  have reached := place ▸ at₄
  refine ⟨_, ?_, reached⟩
  have low (d : Nat) : (variableLoop top' body).top ≤ top' + d := Nat.le_add_right _ _
  have high (d : Nat) (early : d < 13) : top' + d < (variableLoop top' body).front := Nat.add_lt_add_left early _
  exact tests_at b' _ 3 _ _ vars m _ here (low 0) (high 0 (by omega)) <|
    tests_at b' _ 2 _ _ vars _ _ at₁ (low 1) (high 1 (by omega)) <|
    tests_at b' _ 1 _ _ vars _ _ at₂ (low 2) (high 2 (by omega)) <|
    tests_at b' _ 0 _ _ vars _ _ at₃ (low 3) (high 3 (by omega)) (.here _)

theorem overflow_alike (stack vars : List Value) (m m' : Machine) (stand : StandAlike top top' stack vars m m')
    (keeping : Keeping c index k vars) (full : ¬ stack.length + 1 < Machine.bound.depth) :
    ∃ n m₁ m₁', Tests b (literalLoop top body) (n + 1) m m₁ ∧ Tests b' (variableLoop top' body) (n + 1) m' m₁' ∧
      StoppedAlike m₁ m₁' := by
  have fetch := located_get b.code _ _ versions.test
  have fetch' := located_get b'.code _ _ versions.sign
  have early : top < (literalLoop top body).front := Nat.lt_add_of_pos_right (by omega)
  have early' : top' < (variableLoop top' body).front := Nat.lt_add_of_pos_right (by omega)
  cases stack with
  | nil => exact absurd (by decide : 0 + 1 < Machine.bound.depth) full
  | cons v rest =>
  by_cases room : (v :: rest).length < Machine.bound.depth
  · obtain ⟨w, counter⟩ : ∃ w, vars[c.index]? = some w := ⟨_, List.getElem?_eq_getElem keeping.counter⟩
    have at₁ := step_with_room b m _ _ vars (v :: rest) _ stand.1 (fetch 0 (by simp [Counting.compare])) v room
      (perform_duplicate vars rest v)
    have at₁' := step_with_room b' m' _ _ vars (v :: rest) _ stand.2 (fetch' 0 (by simp)) k room
      (perform_load vars (v :: rest) index k keeping.step)
    have faulted := step_overflows b _ _ _ vars (v :: v :: rest) _ at₁ (fetch 1 (by simp [Counting.compare])) _
      (by simpa using full) (perform_load vars (v :: v :: rest) c.index _ counter)
    have faulted' := step_overflows b' _ _ _ vars (k :: v :: rest) _ at₁' (fetch' 1 (by simp)) _
      (by simpa using full) (perform_push vars (k :: v :: rest) (.zero c.dataType))
    refine ⟨1, _, _, ?_, ?_, faulted_alike _ _ _ vars faulted faulted'⟩
    · exact tests_at b _ 1 _ _ vars m _ stand.1 (Nat.le_refl _) early <|
        tests_at b _ 0 _ _ vars _ _ at₁ (Nat.le_succ _) (Nat.add_lt_add_left (by omega) top) (.here _)
    · exact tests_at b' _ 1 _ _ vars m' _ stand.2 (Nat.le_refl _) early' <|
        tests_at b' _ 0 _ _ vars _ _ at₁' (Nat.le_succ _) (Nat.add_lt_add_left (by omega) top') (.here _)
  · have faulted := step_overflows b m _ _ vars (v :: rest) _ stand.1 (fetch 0 (by simp [Counting.compare])) v room
      (perform_duplicate vars rest v)
    have faulted' := step_overflows b' m' _ _ vars (v :: rest) _ stand.2 (fetch' 0 (by simp)) k room
      (perform_load vars (v :: rest) index k keeping.step)
    refine ⟨0, _, _, ?_, ?_, faulted_alike _ _ _ vars faulted faulted'⟩
    · exact tests_at b _ 0 _ _ vars m _ stand.1 (Nat.le_refl _) early (.here _)
    · exact tests_at b' _ 0 _ _ vars m' _ stand.2 (Nat.le_refl _) early' (.here _)

theorem advance_top (stack vars : List Value) (m m' : Machine) (stand : StandAlike top top' stack vars m m')
    (keeping : Keeping c index k vars) :
    Advances b (literalLoop top body) b' (variableLoop top' body)
      (Together c index k down base base' top top' body) m m' := by
  by_cases room : stack.length + 1 < Machine.bound.depth
  · obtain ⟨m₁, signed, there⟩ :=
      sign_tested b b' c index k down base base' top top' body versions stack vars m' stand.2 keeping room
    obtain ⟨n, m₂, compared, together⟩ := compare_goes b b' c index k down base base' top top' body versions 0 stack vars
      m m₁ (by omega) ⟨stand.1, there⟩ keeping
    have tests : Tests b (literalLoop top body) 1 m (m.step b) :=
      tests_at b (literalLoop top body) 0 _ stack vars m _ stand.1 (Nat.le_refl _)
        (by simp only [literalLoop]; omega) (.here _)
    have tests' := tests_trans b' (variableLoop top' body) 4 (n + 1) m' m₁ m₂ signed compared
    exact advance_tests b b' c index k down base base' top top' body versions 0 (4 + n) m m' _ m₂ tests tests' together
  · obtain ⟨n, m₁, m₁', tests, tests', alike⟩ := overflow_alike b b' c index k down base base' top top' body versions
      stack vars m m' stand keeping room
    exact advance_tests b b' c index k down base base' top top' body versions n n m m' m₁ m₁' tests tests'
      (.stopped _ _ alike)

-- Wherever the machines stand, they go on together or have both come to the end of their loops.
theorem together_goes (m m' : Machine) (together : Together c index k down base base' top top' body m m') :
    (ended (literalLoop top body) m ≠ none ∧ ended (literalLoop top body) m = ended (variableLoop top' body) m') ∨
      Advances b (literalLoop top body) b' (variableLoop top' body)
        (Together c index k down base base' top top' body) m m' := by
  cases together with
  | stopped _ _ alike =>
    have finished := ended_stopped (literalLoop top body) m alike.stopped
    have finished' := ended_stopped (variableLoop top' body) m' (alike.stopped_other m m')
    refine .inl ⟨?_, ?_⟩
    · rw [finished]
      simp
    · rw [finished, finished', alike.fault, alike.vars]
  | starting d stack vars _ _ within stand keeping =>
    by_cases early : d < c.start.length
    · exact .inr (advance_starting b b' c index k down base base' top top' body versions d stack vars m m' early stand keeping)
    · have first := versions.topAt
      have second := versions.topAt'
      obtain rfl : d = c.start.length := by omega
      rw [← first, ← second] at stand
      exact .inr (advance_top b b' c index k down base base' top top' body versions stack vars m m' stand keeping)
  | comparing d stack vars _ _ _ within stand keeping =>
    exact .inr (advance_comparing b b' c index k down base base' top top' body versions d stack vars m m' within stand keeping)
  | inside d stack vars _ _ within stand keeping =>
    by_cases early : d < body + 6
    · exact .inr (advance_inside b b' c index k down base base' top top' body versions d stack vars m m' early stand keeping)
    · obtain rfl : d = body + 6 := by omega
      have behind : ended (literalLoop top body) m = some (.next, m.vars) :=
        (ended_running _ m stand.1.running).trans (if_pos stand.1.pc)
      have behind' : ended (variableLoop top' body) m' = some (.next, m'.vars) :=
        (ended_running _ m' stand.2.running).trans (if_pos stand.2.pc)
      rw [stand.1.vars] at behind
      rw [stand.2.vars] at behind'
      exact .inl ⟨by rw [behind]; simp, behind.trans behind'.symm⟩

theorem versions_show_same (stack vars : List Value) (m m' : Machine) (stand : StandAlike base base' stack vars m m')
    (keeping : Keeping c index k vars) : ShowSame b (literalLoop top body) b' (variableLoop top' body) m m' :=
  show_same b (literalLoop top body) b' (variableLoop top' body) (Together c index k down base base' top top' body)
    (Nat.le_add_right _ _) (Nat.le_add_right _ _)
    (together_goes b b' c index k down base base' top top' body versions) m m'
    (.starting 0 stack vars m m' (Nat.zero_le _) stand keeping)

end

end SoftPlc.Compile
