import SoftPlc.Proofs.Compile.Statements
import SoftPlc.Proofs.Evaluation.Range
import SoftPlc.Proofs.Evaluation.Spared

set_option autoImplicit false

namespace SoftPlc

namespace Machine

variable (b : Bytecode)

def Roomy (m : Machine) : Prop := ∀ n, ¬ ((step b)^[n] m).hasFault .stackOverflow

theorem roomy_later (m : Machine) (roomy : Roomy b m) (k : Nat) : Roomy b ((step b)^[k] m) := by
  intro n
  rw [← Function.iterate_add_apply]
  exact roomy (n + k)

theorem roomy_of_stopped (m : Machine) (n : Nat) (stopped : ((step b)^[n] m).isRunning = false)
    (room : ¬ ((step b)^[n] m).hasFault .stackOverflow) : Roomy b m := by
  intro k overflowed
  obtain ⟨f, fault, kind⟩ := overflowed
  have same := stopped_unique b m k n (not_running_of_fault _ f fault) stopped
  exact room ⟨f, same ▸ fault, kind⟩

theorem step_pushes (m : Machine) (pc : Nat) (stack vars below : List Value) (i : Instruction) (v : Value)
    (roomy : Roomy b m) (here : m.At pc stack vars) (code : b.code[pc]? = some i)
    (performed : perform vars stack i = do return { stack := ← pushResult (.ok v) below, vars }) :
    (m.step b).At (pc + 1) (v :: below) vars := by
  by_cases room : below.length < bound.depth
  · exact step_with_room b m pc stack vars below i here code v room performed
  · have faulted := step_overflows b m pc stack vars below i here code v room performed
    exact absurd ⟨_, faulted.fault, rfl⟩ (roomy 1)

theorem roomy_reaches (least : Nat) (m : Machine) (goal : Machine → Prop) (roomy : Roomy b m)
    (leads : Leads b least m goal) : ∃ k, goal ((step b)^[k] m) := by
  obtain ⟨k, _, done⟩ := leads
  exact ⟨k, done.resolve_right (roomy k)⟩

end Machine

namespace Compile

open Machine Evaluation

def Written : Option Expression → Int → Prop
  | none, n => n = 1
  | some (.integer _ k), n => n = k
  | some (.negation _ (.integer _ k)), n => n = -k
  | _, _ => False

theorem narrowest_number (n : Int) (v : Value) (found : narrowest? n = some v) :
    v.toInt = n ∧ v.dataType.isInteger = true := by
  have held (t : DataType) (integer : t.isInteger = true) (inside : t.Holds n) : (Value.ofInt t n).toInt = n :=
    Value.to_int_held t integer n inside
  unfold narrowest? at found
  split at found
  · cases found
    exact ⟨held .int rfl ‹_›, rfl⟩
  · split at found
    · cases found
      exact ⟨held .dint rfl ‹_›, rfl⟩
    · split at found
      · cases found
        exact ⟨held .dword rfl ‹_›, rfl⟩
      · cases found

variable (vars : List Variable)

theorem literal_bound (t : DataType) (integer : t.isInteger = true) (e : Expression) (span : Span) (n : Int)
    (code : List Instruction) (means : expression vars e = do return .literal (← integerLiteral n span))
    (compiled : bound vars t e = .ok code) : code = [.push (.ofInt t n)] := by
  obtain ⟨f, fragment, _, rfl⟩ := bound_ok vars t e code compiled
  rw [means, bind_ok] at fragment
  obtain ⟨v, literal, done⟩ := fragment
  cases done
  obtain ⟨same, number⟩ := narrowest_number n v (literal_ok n span v literal)
  rw [← same, ← v.cast_of_int number t integer]
  by_cases typed : v.dataType = t
  · subst typed
    rw [Fragment.castTo, Fragment.literal, if_pos rfl, Value.cast_self]
  · rw [Fragment.castTo, Fragment.literal, if_neg typed]

theorem written_counting (span : Span) (name : String) (first last : Expression) (step : Option Expression) (n : Int)
    (c : Counting) (compiled : counting vars span name first last step = .ok c) (written : Written step n) :
    c.step = [.push (.ofInt c.dataType n)] ∧ c.down = some (decide (n < 0)) := by
  obtain ⟨_, integer, _, _, stepped⟩ := counting_ok vars span name first last step c compiled
  cases step with
  | none =>
    cases written
    have one : (Value.int 1).cast c.dataType = .ofInt c.dataType 1 := Value.cast_of_int (.int 1) rfl c.dataType integer
    exact ⟨by rw [stepped.1, one], stepped.2⟩
  | some e =>
    have negative (k : Int) (constant : e.integerConstant = some k) : c.down = some (decide (k < 0)) := by
      rw [stepped.2, constant]
      rfl
    cases e with
    | integer span k =>
      cases written
      have literal := literal_bound vars c.dataType integer _ span k c.step (by rw [expression]) stepped.1
      exact ⟨literal, negative k rfl⟩
    | negation span operand =>
      cases operand with
      | integer _ k =>
        cases written
        have literal := literal_bound vars c.dataType integer _ span (-k) c.step (by rw [expression]) stepped.1
        exact ⟨literal, negative (-k) rfl⟩
      | _ => exact written.elim
    | _ => exact written.elim

theorem within_iff_due (n : Int) (limit i : Value) :
    isDue (decide (n < 0)) limit i ↔ Within n limit.toInt i.toInt := by
  unfold isDue Within
  by_cases down : n < 0
  · rw [if_pos (decide_eq_true down), if_pos down]
  · rw [if_neg (by simpa using down), if_neg down]

section
variable (b : Bytecode) (c : Counting) (n : Int) (m : Machine) (limit : Value) (stack store : List Value)
  (integer : c.dataType.isInteger = true) (roomy : Roomy b m)
include integer roomy

theorem test_steps (top exit : Nat) (i : Value) (known : c.down = some (decide (n < 0)))
    (located : Located b.code top (c.test top exit)) (here : m.At top (limit :: stack) store)
    (there : store[c.index]? = some i) (limitTyped : limit.dataType = c.dataType) (typed : i.dataType = c.dataType) :
    ((step b)^[4] m).At (if Within n limit.toInt i.toInt then top + 4 else exit) (limit :: stack) store := by
  obtain ⟨code, _⟩ := test_known c top exit _ known
  rw [code, Counting.compare] at located
  simp only [located_cons] at located
  obtain ⟨duplicates, loads, compares, jumps, _⟩ := located
  have number : limit.dataType.isInteger = true := by rw [limitTyped, integer]
  have comparison : (dueWhen (decide (n < 0))).isComparison = true := by
    by_cases down : n < 0
    · rw [dueWhen, if_pos (decide_eq_true down)]
      rfl
    · rw [dueWhen, if_neg (by simpa using down)]
      rfl
  have compared : perform store (i :: limit :: limit :: stack) (.binary (dueWhen (decide (n < 0))) c.dataType) =
      do return { stack := ← pushResult (.ok (.bool (decide (isDue (decide (n < 0)) limit i)))) (limit :: stack),
                  vars := store } := by
    rw [perform_binary store (limit :: stack) _ limit i c.dataType limitTyped (fun _ => typed),
      BinaryOp.apply_integers _ limit i (typed.trans limitTyped.symm) number comparison, holds_due]
  have copied := step_pushes b m _ _ _ _ _ limit roomy here duplicates (perform_duplicate store stack limit)
  have loaded := step_pushes b _ _ _ _ _ _ i (roomy_later b m roomy 1) copied loads (perform_load store _ c.index i there)
  have tested := step_pushes b _ _ _ _ _ _ _ (roomy_later b m roomy 2) loaded compares compared
  have gone := step_effect b _ _ _ _ _ _ _ _ tested jumps (perform_jump_if_false store _ _ exit)
  by_cases due : isDue (decide (n < 0)) limit i
  · rw [if_pos ((within_iff_due n limit i).mp due)]
    simp only [due, decide_true, if_true] at gone
    exact gone
  · rw [if_neg fun within => due ((within_iff_due n limit i).mpr within)]
    simp only [due, decide_false, Bool.false_eq_true, if_false] at gone
    exact gone

theorem finish_steps (top place : Nat) (i : Int) (literal : c.step = [.push (.ofInt c.dataType n)])
    (located : Located b.code place (c.finish top)) (here : m.At place stack store)
    (there : store[c.index]? = some (.ofInt c.dataType i)) :
    ((step b)^[5] m).At top stack (store.set c.index (.ofInt c.dataType (i + n))) := by
  rw [Counting.finish, literal] at located
  simp only [List.cons_append, List.nil_append, located_cons] at located
  obtain ⟨loads, pushes, adds, stores, jumps, _⟩ := located
  have added : perform store (.ofInt c.dataType n :: .ofInt c.dataType i :: stack) (.binary .add c.dataType) =
      do return { stack := ← pushResult (.ok (.ofInt c.dataType (i + n))) stack, vars := store } := by
    rw [perform_binary store stack .add _ _ c.dataType (Value.dataType_ofInt _ i) (fun _ => Value.dataType_ofInt _ n),
      BinaryOp.apply, Value.add_of_int c.dataType integer i n]
  have loaded := step_pushes b m _ _ _ _ _ _ roomy here loads (perform_load store _ c.index _ there)
  have pushed := step_pushes b _ _ _ _ _ _ _ (roomy_later b m roomy 1) loaded pushes (perform_push store _ _)
  have summed := step_pushes b _ _ _ _ _ _ _ (roomy_later b m roomy 2) pushed adds added
  have same : (Value.ofInt c.dataType i).dataType = (Value.ofInt c.dataType (i + n)).dataType := by
    rw [Value.dataType_ofInt, Value.dataType_ofInt]
  have stored := step_effect b _ _ _ _ _ _ _ none summed stores (perform_store store stack c.index _ _ there same)
  exact step_effect b _ _ _ _ _ _ _ (some top) stored jumps (perform_jump _ stack top)

end

-- The body of a loop is run for these numbers in turn. Each time the test takes four steps, which end in front of
-- the body with the number in the variable; what the body comes to leads behind it, and five more steps lead
-- back to the test.
inductive Rounds (b : Bytecode) (vars : List Variable) (name : String) (front place : Nat) (stack : List Value)
    (body : Store → Result) : List Int → Machine → Machine → Prop where
  | over (m : Machine) : Rounds b vars name front place stack body [] m m
  | round {n : Int} {rest : List Int} {m m' : Machine} {store left : Store} {i : Value} {k : Nat}
      (entered : ((step b)^[4] m).At front stack store) (value : Evaluation.read vars store name = .ok i)
      (number : i.toInt = n) (meaning : body store = some (.next, left))
      (passed : ((step b)^[k] ((step b)^[4] m)).At place stack left)
      (later : Rounds b vars name front place stack body rest ((step b)^[5] ((step b)^[k] ((step b)^[4] m))) m') :
      Rounds b vars name front place stack body (n :: rest) m m'

structure Laid (b : Bytecode) (vars : List Variable) (name : String) (n : Int) (c : Counting) (top place : Nat) :
    Prop where
  names : Names vars name c.index c.dataType
  integer : c.dataType.isInteger = true
  literal : c.step = [.push (.ofInt c.dataType n)]
  known : c.down = some (decide (n < 0))
  test : Located b.code top (c.test top (place + 5))
  finish : Located b.code place (c.finish top)

section
variable (b : Bytecode) (vars : List Variable) (name : String) (n : Int) (c : Counting) (top place : Nat)
  (laid : Laid b vars name n c top place)
include laid

theorem set_number (store : Store) (fits : Fits vars store) (i : Int) :
    assign vars store name (.ofInt c.dataType i) = store.set c.index (.ofInt c.dataType i) ∧
      (store.set c.index (.ofInt c.dataType i))[c.index]? = some (.ofInt c.dataType i) ∧
      Evaluation.read vars (store.set c.index (.ofInt c.dataType i)) name = .ok (.ofInt c.dataType i) ∧
      Fits vars (store.set c.index (.ofInt c.dataType i)) := by
  obtain ⟨x, before, _, _⟩ := laid.names.read store fits
  obtain ⟨inside, _⟩ := List.getElem?_eq_some_iff.mp before
  have set := laid.names.assign store (.ofInt c.dataType i)
  rw [Value.cast_of_int_self] at set
  have there : (store.set c.index (.ofInt c.dataType i))[c.index]? = some (.ofInt c.dataType i) :=
    List.getElem?_set_self inside
  have fits' := laid.names.fits store (.ofInt c.dataType i) fits (Value.dataType_ofInt _ i)
  obtain ⟨y, found, _, value⟩ := laid.names.read _ fits'
  cases there.symm.trans found
  exact ⟨set, there, value, fits'⟩

variable (limit : Value) (limitTyped : limit.dataType = c.dataType) (stack : List Value)
include limitTyped

theorem leave_steps (beyond : Int) (store : Store) (m : Machine) (roomy : Roomy b m)
    (here : m.At top (limit :: stack) (store.set c.index (.ofInt c.dataType beyond)))
    (there : (store.set c.index (.ofInt c.dataType beyond))[c.index]? = some (.ofInt c.dataType beyond))
    (out : ¬ Within n limit.toInt (Value.ofInt c.dataType beyond).toInt) :
    ((step b)^[5] m).At (place + 6) stack (store.set c.index (.ofInt c.dataType beyond)) := by
  have tested := test_steps b c n m limit stack _ laid.integer roomy top (place + 5) _ laid.known laid.test here there
    limitTyped (Value.dataType_ofInt _ beyond)
  rw [if_neg out] at tested
  have discards := finish_exit b c place top laid.finish
  have length : (c.finish top).length = 6 := by
    rw [Counting.finish, laid.literal]
    rfl
  rw [length] at discards
  exact step_effect b _ _ _ _ _ _ _ none tested discards (perform_discard _ stack limit)

variable (body : Store → Result) (keeps : Keeps vars name body)
  (inside : ∀ store left m, Roomy b m → Stands vars (top + 4) (limit :: stack) store m →
    body store = some (.next, left) → ∃ k, Stands vars place (limit :: stack) left ((step b)^[k] m))
include keeps inside

-- By induction over the numbers that are left. As long as one is within the limit, the type has room for it.
theorem rounds_made (moves : n ≠ 0) (stride : c.dataType.Holds n) (first : Int) (store last : Store) (m : Machine)
    (roomy : Roomy b m) (held : Within n limit.toInt first → c.dataType.Holds first)
    (here : Stands vars top (limit :: stack) (assign vars store name (.ofInt c.dataType first)) m) (fits : Fits vars store)
    (ended : unrolled vars name body (visits first limit.toInt n) store = some (.next, last)) :
    ∃ m', Rounds b vars name (top + 4) place (limit :: stack) body (visits first limit.toInt n) m m' ∧ Roomy b m' ∧
      Fits vars last ∧
      Stands vars top (limit :: stack) (assign vars last name (.ofInt c.dataType (behind first limit.toInt n))) m' := by
  induction count : visitCount first limit.toInt n generalizing first store m with
  | zero =>
    have beyond : ¬ Within n limit.toInt first := by
      intro within
      cases (visit_count_succ first limit.toInt n moves within).symm.trans count
    rw [visits_beyond first _ n moves beyond] at ended ⊢
    cases ended
    rw [behind_beyond first _ n moves beyond]
    exact ⟨m, .over m, roomy, fits, here⟩
  | succ left ih =>
    by_cases within : Within n limit.toInt first
    · rw [visits_within first _ n moves within] at ended ⊢
      rw [behind_within first _ n moves within]
      rw [visit_count_succ first _ n moves within] at count
      obtain ⟨after, ran, later⟩ := and_then_goes_on _ _ last ended
      rw [laid.names.typeOf] at ran
      obtain ⟨set, there, value, _⟩ := set_number b vars name n c top place laid store fits first
      rw [set] at ran here
      have number := Value.to_int_held c.dataType laid.integer first (held within)
      have entered := test_steps b c n m limit stack _ laid.integer roomy top (place + 5) _ laid.known laid.test here.1
        there limitTyped (Value.dataType_ofInt _ first)
      rw [number, if_pos within] at entered
      obtain ⟨k, passed, afterFits⟩ := inside _ after _ (roomy_later b m roomy 4) ⟨entered, here.2⟩ ran
      have roomyAfter := roomy_later b _ (roomy_later b m roomy 4) k
      obtain ⟨x, thereAfter, _, valueAfter⟩ := laid.names.read after afterFits
      cases valueAfter.symm.trans ((keeps _ .next after ran).trans value)
      have back := finish_steps b c n _ (limit :: stack) after laid.integer roomyAfter top place first laid.literal
        laid.finish passed thereAfter
      obtain ⟨setAfter, _, _, backFits⟩ := set_number b vars name n c top place laid after afterFits (first + n)
      rw [← setAfter] at back backFits
      have stop : c.dataType.Holds limit.toInt := by
        rw [← limitTyped]
        exact limit.holds_to_int (by rw [limitTyped, laid.integer])
      have heldNext (near : Within n limit.toInt (first + n)) : c.dataType.Holds (first + n) :=
        by_contra fun out => unheld_beyond first _ n c.dataType laid.integer stride stop (held within) out near
      obtain ⟨m', rounds, roomy', lastFits, stands⟩ := ih (first + n) after _ (roomy_later b _ roomyAfter 5) heldNext
        ⟨back, backFits⟩ afterFits later (Nat.succ.inj count)
      exact ⟨m', .round entered value number ran passed rounds, roomy', lastFits, stands⟩
    · cases (visit_count_zero first limit.toInt n moves within).symm.trans count

end

theorem start_leads (b : Bytecode) (vars : List Variable) (name : String) (first last : Expression)
    (step : Option Expression) (c : Counting) (base : Nat) (stack : List Value) (store : Store) (m : Machine)
    (v w : Value) (counts : Counts vars name step c) (firstOk : bound vars c.dataType first = .ok c.first)
    (lastOk : bound vars c.dataType last = .ok c.last) (located : Located b.code base c.start)
    (here : Stands vars base stack store m) (low : converting.expression vars store first = .ok v)
    (high : converting.expression vars (assign vars store name v) last = .ok w) :
    Leads b 0 m (Stands vars (base + c.start.length) (w.cast c.dataType :: stack) (assign vars store name v)) := by
  rw [Counting.start, List.append_assoc] at located
  obtain ⟨firstCode, located⟩ := (located_append _ _ _ _).mp located
  obtain ⟨storing, lastCode⟩ := (located_append _ _ _ _).mp located
  have firstRuns := (bound_computes vars c.dataType first c.first store here.2 firstOk).runs b m base stack firstCode here.1
  rw [low] at firstRuns
  refine leads_then b 1 0 m _ _ firstRuns ?_
  intro m₁ at₁
  have stored := leads_assign b vars m₁ _ c.index name c.dataType v stack store counts.names here.2 at₁
    ((located_singleton _ _ _).mp storing)
  refine leads_then b 1 0 m₁ _ _ stored ?_
  intro m₂ at₂
  have lastRuns := (bound_computes vars c.dataType last c.last _ at₂.2 lastOk).runs b m₂ _ stack lastCode at₂.1
  rw [high] at lastRuns
  refine leads_weaken b 0 m₂ _ _ ?_ (leads_less b 0 1 m₂ _ (by omega) lastRuns)
  intro m₃ at₃
  have yielded : m₃.At (base + c.first.length + 1 + c.last.length) (w.cast c.dataType :: stack) (assign vars store name v) :=
    at₃
  refine ⟨?_, at₂.2⟩
  simpa only [Counting.start, List.length_append, List.length_singleton, Nat.add_assoc] using yielded

end Compile

end SoftPlc
