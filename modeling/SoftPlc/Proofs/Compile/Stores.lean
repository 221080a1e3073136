import SoftPlc.Proofs.Compile.Computing
import SoftPlc.Proofs.Language.Parts

set_option autoImplicit false

namespace SoftPlc.Compile

variable (vars : List Variable)

def SetBy (index : Nat) (s : Statement) : Prop :=
  ∃ name v, s.sets = some name ∧ Variable.lookup? name vars = some (index, v) ∧ v.variableClass ≠ .constant

theorem store_listed (index : Nat) (code : List Instruction) (member : .op (.store index) ∈ ops code) :
    .store index ∈ code := by
  obtain ⟨i, listed, same⟩ := List.mem_map.mp member
  cases same
  exact listed

theorem store_not_computing (index : Nat) (code : List Instruction) (computing : AllComputing code) :
    .op (.store index) ∉ ops code :=
  fun member => computing _ (store_listed index code member)

theorem store_of_leaving (index exit : Nat) (items : List Item)
    (member : .op (.store index) ∈ items.map (·.leaveTo exit)) : .op (.store index) ∈ items := by
  obtain ⟨item, listed, same⟩ := List.mem_map.mp member
  cases item with
  | op i =>
    cases same
    exact listed
  | exit => cases same

theorem store_not_tested (index : Nat) (t : DataType) (base : Nat) (tests : List (List LabelTest)) (arms : List Nat) :
    .store index ∉ armTestsCode t base tests arms := by
  have one (arm base : Nat) (tests : List LabelTest) : .store index ∉ testsCode t arm base tests := by
    induction tests generalizing base with
    | nil => simp [testsCode]
    | cons test rest ih =>
      obtain ⟨label, low, high⟩ := test
      cases label <;> simp [testsCode, LabelTest.code, ih]
  induction tests generalizing base arms with
  | nil => simp [armTestsCode]
  | cons tests rest ih =>
    cases arms with
    | nil => simp [armTestsCode]
    | cons arm arms => simp [armTestsCode, one, ih]

theorem store_of_case (index base : Nat) (f : Fragment) (selecting : AllComputing f.code) (tests : List (List LabelTest))
    (elseCode : List Item) (bodies : List (List Item)) (member : .op (.store index) ∈ caseCode base f tests elseCode bodies) :
    .op (.store index) ∈ elseCode ∨ ∃ body ∈ bodies, .op (.store index) ∈ body := by
  simp only [caseCode, List.mem_append, List.mem_singleton, Item.op.injEq, reduceCtorEq, or_false] at member
  rcases member with ((first | tested) | inside) | inside
  · exact absurd first (store_not_computing index f.code selecting)
  · exact absurd (store_listed index _ tested) (store_not_tested index _ _ _ _)
  · exact .inl inside
  · obtain ⟨part, listed, inside⟩ := List.mem_flatten.mp inside
    obtain ⟨body, among, rfl⟩ := List.mem_map.mp listed
    simp only [List.mem_append, List.mem_singleton, Item.op.injEq, reduceCtorEq, or_false, false_or] at inside
    exact .inr ⟨body, among, inside⟩

theorem store_counting (c : Counting) (first : AllComputing c.first) (last : AllComputing c.last)
    (step : AllComputing c.step) (index top exit : Nat)
    (member : .store index ∈ c.start ∨ .store index ∈ c.test top exit ∨ .store index ∈ c.finish top) : index = c.index := by
  have none (code : List Instruction) (computing : AllComputing code) : .store index ∉ code := fun listed =>
    computing _ listed
  have inFirst := none c.first first
  have inLast := none c.last last
  have inStep := none c.step step
  rcases member with starts | tests | steps
  · simpa [Counting.start, inFirst, inLast] using starts
  · cases direction : c.down with
    | none => simp [Counting.test, Counting.compare, direction, inStep] at tests
    | some down => cases down <;> simp [Counting.test, Counting.compare, direction] at tests
  · simpa [Counting.finish, inStep] using steps

theorem store_of_count (c : Counting) (first : AllComputing c.first) (last : AllComputing c.last)
    (step : AllComputing c.step) (index top exit : Nat) (code : List Item)
    (member : .op (.store index) ∈
      ops c.start ++ ops (c.test top exit) ++ code.map (·.leaveTo exit) ++ ops (c.finish top)) :
    index = c.index ∨ .op (.store index) ∈ code := by
  have own := store_counting c first last step index top exit
  simp only [List.mem_append] at member
  rcases member with ((starts | tests) | inside) | steps
  · exact .inl (own (.inl (store_listed index _ starts)))
  · exact .inl (own (.inr (.inl (store_listed index _ tests))))
  · exact .inr (store_of_leaving index exit code inside)
  · exact .inl (own (.inr (.inr (store_listed index _ steps))))

mutual
theorem store_set (loops base : Nat) (s : Statement) (items : List Item)
    (compiled : statement vars loops base s = .ok items) (index : Nat) (member : .op (.store index) ∈ items) :
    ∃ inner ∈ s.nested, SetBy vars index inner := by
  cases s with
  | assign line span name value =>
    obtain ⟨code, made, rfl⟩ := assign_statement_ok vars loops base line span name value items compiled
    obtain ⟨target, t, f, found, fragment, _, rfl⟩ := assignment_ok vars span name value code made
    obtain ⟨v, named, open_, _⟩ := target_ok vars name span target t found
    rw [ops, List.map_append, List.mem_append] at member
    rcases member with inside | last
    · exact absurd inside (store_not_computing index _ (cast_computing f t (expression_computing vars value f fragment)))
    · cases List.mem_singleton.mp last
      exact ⟨_, Statement.nested_self _, name, v, rfl, named, open_⟩
  | choose line branches otherwise =>
    have made := choose_statement_ok vars loops base line branches otherwise items compiled
    rcases store_set_branches loops base line _ branches items made index member with inside | ⟨at_, code, elseOk, inside⟩
    · obtain ⟨inner, listed, sets⟩ := inside
      exact ⟨inner, List.mem_cons_of_mem _ (List.mem_append_left _ listed), sets⟩
    · obtain ⟨inner, listed, sets⟩ := store_set_block loops at_ otherwise code elseOk index inside
      exact ⟨inner, List.mem_cons_of_mem _ (List.mem_append_right _ listed), sets⟩
  | select line e arms otherwise =>
    obtain ⟨f, tests, elseCode, bodies, elseAt, made, _, _, elseOk, bodiesOk, rfl⟩ :=
      select_statement_ok vars loops base line e arms otherwise items compiled
    have selecting := expression_computing vars e f (selector_ok vars e f made).1
    rcases store_of_case index base f selecting tests elseCode bodies member with inside | ⟨body, among, inside⟩
    · obtain ⟨inner, listed, sets⟩ := store_set_block loops elseAt otherwise elseCode elseOk index inside
      exact ⟨inner, List.mem_cons_of_mem _ (List.mem_append_right _ listed), sets⟩
    · obtain ⟨inner, listed, sets⟩ := store_set_arms loops _ _ arms bodies bodiesOk index body among inside
      exact ⟨inner, List.mem_cons_of_mem _ (List.mem_append_left _ listed), sets⟩
  | count line span name first last step body =>
    obtain ⟨c, code, top, bodyAt, exit, made, _, _, codeOk, _, rfl⟩ :=
      count_statement_ok vars loops base line span name first last step body items compiled
    obtain ⟨inFirst, inLast, inStep⟩ := counting_computing vars span name first last step c made
    rcases store_of_count c inFirst inLast inStep index top exit code member with rfl | inside
    · obtain ⟨v, named, open_, _⟩ := target_ok vars name span _ _ (counting_ok vars span name first last step c made).1
      exact ⟨_, Statement.nested_self _, name, v, rfl, named, open_⟩
    · obtain ⟨inner, listed, sets⟩ := store_set_block (loops + 1) bodyAt body code codeOk index inside
      exact ⟨inner, List.mem_cons_of_mem _ listed, sets⟩
  | «while» line cond body =>
    obtain ⟨test, code, exit, made, codeOk, _, rfl⟩ := while_statement_ok vars loops base line cond body items compiled
    simp only [List.mem_append, List.mem_singleton, Item.op.injEq, reduceCtorEq, or_false] at member
    rcases member with tested | inside
    · exact absurd tested (store_not_computing index test (condition_computing vars cond test made))
    · obtain ⟨inner, listed, sets⟩ :=
        store_set_block (loops + 1) _ body code codeOk index (store_of_leaving index exit code inside)
      exact ⟨inner, List.mem_cons_of_mem _ listed, sets⟩
  | «repeat» line body cond =>
    obtain ⟨code, test, exit, codeOk, made, _, rfl⟩ := repeat_statement_ok vars loops base line body cond items compiled
    simp only [List.mem_append, List.mem_singleton, Item.op.injEq, reduceCtorEq, or_false] at member
    rcases member with inside | tested
    · obtain ⟨inner, listed, sets⟩ :=
        store_set_block (loops + 1) base body code codeOk index (store_of_leaving index exit code inside)
      exact ⟨inner, List.mem_cons_of_mem _ listed, sets⟩
    · exact absurd tested (store_not_computing index test (condition_computing vars cond test made))
  | exit line span =>
    obtain ⟨_, rfl⟩ := exit_statement_ok vars loops base line span items compiled
    simp at member
  | leave line =>
    rw [leave_statement_ok vars loops base line items compiled] at member
    simp at member

theorem store_set_block (loops base : Nat) (body : List Statement) (items : List Item)
    (compiled : block vars loops base body = .ok items) (index : Nat) (member : .op (.store index) ∈ items) :
    ∃ inner ∈ Statement.nestedOf body, SetBy vars index inner := by
  cases body with
  | nil =>
    cases compiled
    cases member
  | cons s rest =>
    obtain ⟨first, others, firstOk, othersOk, rfl⟩ := block_cons_ok vars loops base s rest items compiled
    rcases List.mem_append.mp member with here | there
    · obtain ⟨inner, listed, sets⟩ := store_set loops base s first firstOk index here
      exact ⟨inner, List.mem_append_left _ listed, sets⟩
    · obtain ⟨inner, listed, sets⟩ := store_set_block loops _ rest others othersOk index there
      exact ⟨inner, List.mem_append_right _ listed, sets⟩

theorem store_set_branches (loops base : Nat) (line : UInt16) (otherwise : Nat → Except Fault (List Item))
    (branches : List (Expression × List Statement)) (items : List Item)
    (compiled : choice vars loops base line otherwise branches = .ok items) (index : Nat)
    (member : .op (.store index) ∈ items) :
    (∃ inner ∈ Statement.nestedOfBranches branches, SetBy vars index inner) ∨
      ∃ elseAt code, otherwise elseAt = .ok code ∧ .op (.store index) ∈ code := by
  cases branches with
  | nil => exact .inr ⟨base, items, compiled, member⟩
  | cons branch rest =>
    obtain ⟨cond, body⟩ := branch
    obtain ⟨test, code, others, next, made, codeOk, _, othersOk, rfl⟩ :=
      choice_cons_ok vars loops base line otherwise cond body rest items compiled
    simp only [List.mem_append, List.mem_singleton, Item.op.injEq, reduceCtorEq, or_false] at member
    rcases member with (tested | inside) | later
    · exact absurd tested (store_not_computing index test (condition_computing vars cond test made))
    · obtain ⟨inner, listed, sets⟩ := store_set_block loops _ body code codeOk index inside
      exact .inl ⟨inner, List.mem_append_left _ listed, sets⟩
    · rcases store_set_branches loops next _ otherwise rest others othersOk index later with ⟨inner, listed, sets⟩ | other
      · exact .inl ⟨inner, List.mem_append_right _ listed, sets⟩
      · exact .inr other

theorem store_set_arms (loops base : Nat) (line : UInt16) (arms : List (List CaseLabel × List Statement))
    (bodies : List (List Item)) (compiled : armBodies vars loops base line arms = .ok bodies) (index : Nat)
    (body : List Item) (listed : body ∈ bodies) (member : .op (.store index) ∈ body) :
    ∃ inner ∈ Statement.nestedOfArms arms, SetBy vars index inner := by
  cases arms with
  | nil =>
    cases compiled
    cases listed
  | cons arm rest =>
    obtain ⟨labels, statements⟩ := arm
    obtain ⟨code, others, codeOk, othersOk, rfl⟩ :=
      arm_bodies_cons_ok vars loops base line labels statements rest bodies compiled
    rcases List.mem_cons.mp listed with rfl | later
    · obtain ⟨inner, among, sets⟩ := store_set_block loops _ statements body codeOk index member
      exact ⟨inner, List.mem_append_left _ among, sets⟩
    · obtain ⟨inner, among, sets⟩ := store_set_arms loops _ _ rest others othersOk index body later member
      exact ⟨inner, List.mem_append_right _ among, sets⟩
end

end SoftPlc.Compile
