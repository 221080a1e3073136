import SoftPlc.Proofs.Compile.Tests

set_option autoImplicit false

namespace SoftPlc.Compile

open Machine Evaluation

variable (b : Bytecode) (vars : List Variable)

structure Names (name : String) (index : Nat) (t : DataType) : Prop where
  typeOf : Evaluation.typeOf vars name = t
  read : ∀ store, Fits vars store →
    ∃ x, store[index]? = some x ∧ x.dataType = t ∧ Evaluation.read vars store name = .ok x
  assign : ∀ store v, Evaluation.assign vars store name v = store.set index (v.cast t)
  fits : ∀ store v, Fits vars store → v.dataType = t → Fits vars (store.set index v)

theorem target_names (name : String) (span : Span) (index : Nat) (t : DataType)
    (compiled : target vars name span = .ok (index, t)) : Names vars name index t := by
  obtain ⟨v, named, _, rfl⟩ := target_ok vars name span index t compiled
  have found := lookup_index vars name index v named
  refine ⟨by simp only [typeOf, named], ?_, ?_, ?_⟩
  · intro store fits
    obtain ⟨x, there, typed⟩ := fits_get vars store index v fits found
    exact ⟨x, there, typed, by simp only [Evaluation.read, named, Option.bind_some, there]⟩
  · intro store w
    simp only [Evaluation.assign, named]
  · intro store w fits typed
    exact fits_set vars store index v w fits found typed

theorem leads_assign (m : Machine) (pc index : Nat) (name : String) (t : DataType) (v : Value)
    (stack store : List Value) (names : Names vars name index t) (fits : Fits vars store)
    (here : m.At pc (v.cast t :: stack) store) (code : b.code[pc]? = some (.store index)) :
    Leads b 1 m (Stands vars (pc + 1) stack (assign vars store name v)) := by
  obtain ⟨old, there, typed, _⟩ := names.read store fits
  have converted := v.dataType_cast t
  have stored := leads_store b m pc index (v.cast t) old stack store here code there (typed.trans converted.symm)
  refine leads_weaken b 1 m _ _ ?_ stored
  intro m' here'
  rw [Stands, names.assign]
  exact ⟨here', names.fits store _ fits converted⟩

structure Counts (name : String) (step : Option Expression) (c : Counting) : Prop where
  names : Names vars name c.index c.dataType
  integer : c.dataType.isInteger = true
  computes : ∀ store, Fits vars store →
    Computes store ⟨c.step, c.dataType⟩ (converting.stepValue vars name step store)
  known : ∀ store d, c.down = some d → converting.countsDown vars name step store = .ok d
  unknown : ∀ store, c.down = none →
    converting.countsDown vars name step store = (converting.stepValue vars name step store).map (decide <| ·.toInt < 0)

theorem bound_computes (t : DataType) (e : Expression) (code : List Instruction) (store : Store)
    (fits : Fits vars store) (compiled : bound vars t e = .ok code) :
    Computes store ⟨code, t⟩ ((converting.expression vars store e).map (·.cast t)) := by
  obtain ⟨f, fragment, _, rfl⟩ := bound_ok vars t e code compiled
  have computes := computes_cast store f _ t (expression_computes vars store e f fits fragment)
  have whole : f.castTo t = ⟨(f.castTo t).code, t⟩ :=
    congrArg (Fragment.mk (f.castTo t).code) (f.dataType_castTo t)
  rw [whole] at computes
  exact computes

theorem counting_counts (span : Span) (name : String) (first last : Expression) (step : Option Expression)
    (c : Counting) (compiled : counting vars span name first last step = .ok c) :
    Counts vars name step c ∧ bound vars c.dataType first = .ok c.first ∧
      bound vars c.dataType last = .ok c.last := by
  obtain ⟨found, integer, firstOk, lastOk, stepped⟩ :=
    counting_ok vars span name first last step c compiled
  have names := target_names vars name span c.index c.dataType found
  refine ⟨⟨names, integer, ?_, ?_, ?_⟩, firstOk, lastOk⟩
  · intro store fits
    cases step with
    | none =>
      have literal : (⟨c.step, c.dataType⟩ : Fragment) = .literal ((Value.int 1).cast c.dataType) := by
        rw [stepped.1, Fragment.literal, Value.dataType_cast]
      rw [literal, Reading.stepValue, names.typeOf]
      exact computes_literal store _
    | some e =>
      rw [Reading.stepValue, names.typeOf]
      exact bound_computes vars c.dataType e c.step store fits stepped.1
  · intro store d known
    cases step with
    | none =>
      cases stepped.2.symm.trans known
      rfl
    | some e =>
      obtain ⟨n, constant, rfl⟩ := Option.map_eq_some_iff.mp (stepped.2.symm.trans known)
      simp only [Reading.countsDown, Option.map_some, constant]
      rfl
  · intro store unknown
    cases step with
    | none => cases stepped.2.symm.trans unknown
    | some e =>
      have constant := Option.map_eq_none_iff.mp (stepped.2.symm.trans unknown)
      simp only [Reading.countsDown, Option.map_some, constant]

def isDue (down : Bool) (limit i : Value) : Prop :=
  if down then limit.toInt ≤ i.toInt else i.toInt ≤ limit.toInt

instance (down : Bool) (limit i : Value) : Decidable (isDue down limit i) := by
  unfold isDue
  infer_instance

def dueWhen (down : Bool) : BinaryOp := if down then .lessEqual else .greaterEqual

theorem holds_due (down : Bool) (limit i : Value) :
    (dueWhen down).holdsOf (some (compare limit.toInt i.toInt)) = decide (isDue down limit i) := by
  cases down with
  | true => exact BinaryOp.holds_less_equal limit.toInt i.toInt
  | false => exact BinaryOp.holds_greater_equal limit.toInt i.toInt

theorem compare_leads (c : Counting) (m : Machine) (pc exit : Nat) (down : Bool) (limit i : Value)
    (stack store : List Value) (located : Located b.code pc (c.compare (dueWhen down) exit))
    (here : m.At pc (limit :: stack) store) (there : store[c.index]? = some i)
    (limitTyped : limit.dataType = c.dataType) (typed : i.dataType = c.dataType)
    (integer : c.dataType.isInteger = true) :
    Leads b 1 m (·.At (if isDue down limit i then pc + 4 else exit) (limit :: stack) store) := by
  rw [Counting.compare, ← limitTyped] at located
  obtain ⟨front, back⟩ := (located_append b.code pc [_, _, _] [_]).mp located
  have compared := leads_compare b m pc (dueWhen down) (.load c.index) limit i stack store front here
    (fun s => perform_load store s c.index i there) (typed.trans limitTyped.symm)
    (limitTyped ▸ integer) (by cases down <;> rfl)
  refine leads_trans b 0 1 m _ _ compared ?_
  intro m' here'
  rw [holds_due] at here'
  have jumped := leads_jump_if_false b m' _ exit _ _ store here' ((located_singleton _ _ _).mp back)
  simpa only [decide_eq_true_eq] using jumped

theorem test_known (c : Counting) (top exit : Nat) (down : Bool) (known : c.down = some down) :
    c.test top exit = c.compare (dueWhen down) exit ∧ c.testLength = 4 := by
  refine ⟨?_, by simp only [Counting.testLength, known]⟩
  cases down <;> simp only [Counting.test, known] <;> rfl

theorem test_unknown (c : Counting) (top exit : Nat) (unknown : c.down = none) :
    c.test top exit = (c.step ++ [.push (.zero c.dataType)] ++ [.binary .less c.dataType]) ++
        ([.jumpIfTrue (top + c.testLength - 4)] ++ (c.compare (dueWhen false) exit ++
          ([.jump (top + c.testLength)] ++ c.compare (dueWhen true) exit))) ∧
      c.testLength = c.step.length + 12 := by
  refine ⟨?_, by simp only [Counting.testLength, unknown]⟩
  simp only [Counting.test, unknown, dueWhen, List.append_assoc, List.cons_append, List.nil_append]
  rfl

theorem test_length (c : Counting) (top exit : Nat) : (c.test top exit).length = c.testLength := by
  cases known : c.down with
  | none => simp [Counting.test, Counting.testLength, Counting.compare, known]
  | some down => cases down <;> simp [Counting.test, Counting.testLength, Counting.compare, known]

def Tested (body exit : Nat) (limit i : Value) (stack store : List Value) : Except Fault Bool → Machine → Prop
  | .ok down, m => m.At (if isDue down limit i then body else exit) (limit :: stack) store
  | .error f, m => m.Faulted f store

theorem sign_computes (name : String) (step : Option Expression) (c : Counting) (store : Store)
    (counts : Counts vars name step c) (fits : Fits vars store) (unknown : c.down = none) :
    Computes store ⟨c.step ++ [.push (.zero c.dataType)] ++ [.binary .less c.dataType], .bool⟩
      ((converting.countsDown vars name step store).map .bool) := by
  have zeroed : (Value.zero c.dataType).toInt = 0 := by
    cases c.dataType <;> rfl
  have computes := computes_binary store ⟨c.step, c.dataType⟩ (.literal (.zero c.dataType)) _ _
    (.binary .less c.dataType) .bool BinaryOp.less.apply (counts.computes store fits)
    (computes_literal store _) (by simp)
    (by
      intro l r stack left right
      exact perform_binary store stack .less l r c.dataType left
        (fun _ => right.trans (Value.dataType_zero _)))
    (by
      intro l r left right
      exact BinaryOp.apply_delivers .less l r rfl (right.trans (by rw [left]; exact Value.dataType_zero _)))
  have same : (converting.countsDown vars name step store).map Value.bool =
      (do BinaryOp.less.apply (← converting.stepValue vars name step store) (← .ok (.zero c.dataType))) := by
    rw [counts.unknown store unknown]
    have delivers := (counts.computes store fits).delivers
    cases value : converting.stepValue vars name step store with
    | error f => rfl
    | ok v =>
      rw [value] at delivers
      have typed : v.dataType = c.dataType := delivers
      have compared := BinaryOp.apply_integers .less v (.zero c.dataType)
        ((Value.dataType_zero _).trans typed.symm) (typed ▸ counts.integer) rfl
      rw [BinaryOp.holds_less, zeroed] at compared
      exact compared.symm
  rw [same]
  exact computes

theorem test_leads (name : String) (step : Option Expression) (c : Counting) (m : Machine)
    (top exit : Nat) (limit i : Value) (stack store : List Value) (counts : Counts vars name step c)
    (fits : Fits vars store) (located : Located b.code top (c.test top exit))
    (here : m.At top (limit :: stack) store) (there : store[c.index]? = some i)
    (limitTyped : limit.dataType = c.dataType) (typed : i.dataType = c.dataType) :
    Leads b 1 m (Tested (top + c.testLength) exit limit i stack store (converting.countsDown vars name step store)) := by
  cases known : c.down with
  | some down =>
    rw [counts.known store down known]
    obtain ⟨code, length⟩ := test_known c top exit down known
    rw [code] at located
    rw [length]
    exact compare_leads b c m top exit down limit i stack store located here there limitTyped typed
      counts.integer
  | none =>
    have sign := sign_computes vars name step c store counts fits known
    obtain ⟨code, length⟩ := test_unknown c top exit known
    rw [code] at located
    obtain ⟨signCode, located⟩ := (located_append _ _ _ _).mp located
    obtain ⟨branch, located⟩ := (located_append _ _ _ _).mp located
    obtain ⟨upward, located⟩ := (located_append _ _ _ _).mp located
    obtain ⟨skip, downward⟩ := (located_append _ _ _ _).mp located
    have signed := sign.runs b m top (limit :: stack) signCode here
    refine leads_less b 1 (1 + 0) m _ (by omega) (leads_trans b 1 0 m _ _ signed ?_)
    intro m₁ at₁
    cases found : converting.countsDown vars name step store with
    | error f =>
      rw [found] at at₁
      exact leads_now b m₁ _ at₁
    | ok down =>
      rw [found] at at₁
      have branched := leads_jump_if_true b m₁ _ _ down _ store at₁ ((located_singleton _ _ _).mp branch)
      refine leads_then b 1 0 m₁ _ _ branched ?_
      intro m₂ at₂
      cases down with
      | true =>
        -- the comparison downward stands right in front of the body
        have address : top + c.testLength - 4 + 4 = top + c.testLength := by omega
        have place : Located b.code (top + c.testLength - 4) (c.compare (dueWhen true) exit) := by
          have same : top + c.testLength - 4 = top + (c.step.length + 8) := by omega
          simpa [same, Counting.compare, Nat.add_assoc] using downward
        have compared := compare_leads b c m₂ _ exit true limit i stack store place at₂ there limitTyped
          typed counts.integer
        rw [address] at compared
        exact leads_less b 0 1 m₂ _ (by omega) compared
      | false =>
        have compared := compare_leads b c m₂ _ exit false limit i stack store upward at₂ there limitTyped
          typed counts.integer
        refine leads_then b 1 0 m₂ _ _ compared ?_
        intro m₃ at₃
        by_cases due : isDue false limit i
        · rw [if_pos due] at at₃
          have jumped := leads_jump b m₃ _ _ _ store at₃ ((located_singleton _ _ _).mp skip)
          refine leads_weaken b 0 m₃ _ _ ?_ (leads_less b 0 1 m₃ _ (by omega) jumped)
          intro m₄ at₄
          simpa only [Tested, if_pos due] using at₄
        · refine leads_now b m₃ _ ?_
          simpa only [Tested, if_neg due] using at₃

theorem finish_exit (c : Counting) (place top : Nat) (located : Located b.code place (c.finish top)) :
    b.code[place + (c.finish top).length - 1]? = some .discard := by
  have code : c.finish top = ([.load c.index] ++ c.step ++ [.binary .add c.dataType, .store c.index, .jump top]) ++
      [.discard] := by
    simp [Counting.finish]
  rw [code] at located ⊢
  have last := (located_singleton _ _ _).mp ((located_append _ _ _ _).mp located).2
  rw [List.length_append, List.length_singleton, ← Nat.add_assoc, Nat.add_sub_cancel]
  exact last

def stepped (name : String) (step : Option Expression) (store : Store) : Except Fault Value := do
  (← Evaluation.read vars store name).add (← converting.stepValue vars name step store)

theorem sum_computes (name : String) (step : Option Expression) (c : Counting) (store : Store)
    (counts : Counts vars name step c) (fits : Fits vars store) :
    Computes store ⟨[.load c.index] ++ c.step ++ [.binary .add c.dataType], c.dataType⟩
      (stepped vars name step store) := by
  obtain ⟨i, there, typed, value⟩ := counts.names.read store fits
  have loads := computes_load store c.index i there
  rw [typed] at loads
  have number : c.dataType ≠ .bool := by
    intro bool
    have integer := counts.integer
    rw [bool] at integer
    cases integer
  have computes := computes_binary store _ ⟨c.step, c.dataType⟩ (.ok i) _ (.binary .add c.dataType)
    c.dataType Value.add loads (counts.computes store fits) (by simp)
    (by
      intro l r stack left right
      exact perform_binary store stack .add l r c.dataType left (by simp [BinaryOp.isComparison]))
    (by
      intro l r left right
      have typed : l.dataType = c.dataType := left
      rw [← typed] at number right ⊢
      exact BinaryOp.apply_delivers .add l r (by simpa [BinaryOp.takes] using number) right)
  rw [stepped, value]
  exact computes

theorem finish_leads (name : String) (step : Option Expression) (c : Counting) (rounds : Nat) (m : Machine)
    (place top : Nat) (stack store : List Value) (exit : Place) (counts : Counts vars name step c)
    (fits : Fits vars store) (located : Located b.code place (c.finish top)) (here : m.At place stack store) :
    let result := given store (stepped vars name step store) fun i => some (.next, assign vars store name i)
    Leads b (least 0 rounds result) m (Ends (Stands vars top stack) exit result) := by
  have computes := sum_computes vars name step c store counts fits
  have code : c.finish top = ([.load c.index] ++ c.step ++ [.binary .add c.dataType]) ++
      ([.store c.index] ++ ([.jump top] ++ [.discard])) := by
    simp [Counting.finish]
  rw [code] at located
  obtain ⟨sum, located⟩ := (located_append _ _ _ _).mp located
  obtain ⟨storing, located⟩ := (located_append _ _ _ _).mp located
  obtain ⟨jumping, _⟩ := (located_append _ _ _ _).mp located
  have added := computes.runs b m place stack sum here
  rw [← delivers_cast c.dataType _ computes.delivers] at added
  refine leads_given b 0 rounds _ stack store _ exit _ (·.cast c.dataType) _ m added ?_ (by omega)
  intro v m₁ _ at₁
  have stored := leads_assign b vars m₁ _ c.index name c.dataType v stack store counts.names fits at₁
    ((located_singleton _ _ _).mp storing)
  refine leads_then b 1 1 m₁ _ _ stored ?_
  intro m₂ at₂
  refine leads_weaken b 1 m₂ _ _ ?_ (leads_jump b m₂ _ top stack _ at₂.1 ((located_singleton _ _ _).mp jumping))
  intro m₃ at₃
  exact ⟨at₃, at₂.2⟩

theorem count_round_due (name : String) (step : Option Expression) (body : Store → Result) (store : Store)
    (down : Bool) (limit i : Value) (found : converting.countsDown vars name step store = .ok down)
    (value : Evaluation.read vars store name = .ok i) (due : isDue down limit i) :
    converting.countRound vars name limit step body store = andThen (body store) fun store =>
      given store (stepped vars name step store) fun i => some (.next, assign vars store name i) := by
  simp only [Reading.countRound, found, value, given]
  exact if_pos due

theorem count_round_over (name : String) (step : Option Expression) (body : Store → Result) (store : Store)
    (down : Bool) (limit i : Value) (found : converting.countsDown vars name step store = .ok down)
    (value : Evaluation.read vars store name = .ok i) (passed : ¬ isDue down limit i) :
    converting.countRound vars name limit step body store = some (.exit, store) := by
  simp only [Reading.countRound, found, value, given]
  exact if_neg passed

theorem count_round_leads (name : String) (step : Option Expression) (c : Counting) (rounds : Nat)
    (body : Store → Result) (m : Machine) (top exit place : Nat) (limit : Value) (stack store : List Value)
    (counts : Counts vars name step c) (limitTyped : limit.dataType = c.dataType)
    (test : Located b.code top (c.test top exit)) (finish : Located b.code place (c.finish top))
    (inside : ∀ m, m.At (top + c.testLength) (limit :: stack) store →
      Leads b (least 0 rounds (body store)) m
        (Ends (Stands vars place (limit :: stack)) (Stands vars exit (limit :: stack)) (body store)))
    (here : Stands vars top (limit :: stack) store m) :
    let result := converting.countRound vars name limit step body store
    Leads b (least 1 rounds result) m
      (Ends (Stands vars top (limit :: stack)) (Stands vars exit (limit :: stack)) result) := by
  obtain ⟨here, fits⟩ := here
  obtain ⟨i, there, typed, value⟩ := counts.names.read store fits
  have tested := test_leads b vars name step c m top exit limit i stack store counts fits test here there
    limitTyped typed
  cases found : converting.countsDown vars name step store with
  | error f =>
    rw [found] at tested
    simp only [Reading.countRound, found, given]
    exact leads_less b 0 1 m _ (by omega) tested
  | ok down =>
    rw [found] at tested
    by_cases due : isDue down limit i
    · simp only [count_round_due vars name step body store down limit i found value due]
      refine leads_less b _ _ m _ (least_less 1 rounds _) (leads_trans b 1 _ m _ _ tested ?_)
      intro m₁ at₁
      have entered : m₁.At (top + c.testLength) (limit :: stack) store := by
        simpa only [Tested, if_pos due] using at₁
      refine leads_and_then b 0 rounds _ _ _ _ _ m₁ (inside m₁ entered) ?_
      intro store' m₂ at₂
      exact finish_leads b vars name step c rounds m₂ place top _ store' _ counts at₂.2 finish at₂.1
    · rw [count_round_over vars name step body store down limit i found value due]
      refine leads_less b 0 1 m _ (by omega) (leads_weaken b 1 m _ _ ?_ tested)
      intro m₁ at₁
      exact ⟨by simpa only [Tested, if_neg due] using at₁, fits⟩

end SoftPlc.Compile
