import SoftPlc.Proofs.Typing.Choosing

set_option autoImplicit false

namespace SoftPlc.Compile

variable (table : List Variable)

theorem assign_passes (span : Span) (name : String) (value : Expression) (code : List Instruction)
    (types : StackType) (compiled : assignment table span name value = .ok code) :
    Passes (table.map (·.dataType)) code types types := by
  obtain ⟨index, t, f, named, fragment, _, rfl⟩ := assignment_ok table span name value code compiled
  obtain ⟨v, found, _, rfl⟩ := target_ok table name span index t named
  have computes := yielding_cast _ f v.dataType (expression_yields table value f fragment) types
  rw [Fragment.dataType_castTo] at computes
  refine passes_append _ _ _ types _ _ computes (passes_one _ (.store index) _ types (if_pos ?_) (fun _ => rfl))
  rw [List.getElem?_map, lookup_index table name index v found, Option.map_some]

mutual
theorem statement_typeable (loops base : Nat) (s : Statement) (items : List Item) (types : StackType)
    (compiled : statement table loops base s = .ok items) :
    Typeable (table.map (·.dataType)) loops base items types (innerStarts table loops types.length base s) := by
  cases s with
  | assign line span name value =>
    obtain ⟨code, codeOk, rfl⟩ := assign_statement_ok table loops base line span name value items compiled
    rw [innerStarts]
    exact straight_typeable _ loops base types code (assign_passes table span name value code types codeOk)
  | choose line branches otherwise =>
    have branchesOk := choose_statement_ok table loops base line branches otherwise items compiled
    have elseTypeable := fun base items elseOk => block_typeable loops base otherwise items types elseOk
    rw [innerStarts]
    exact choice_typeable loops base line _ _ branches items types elseTypeable branchesOk
  | select line e arms otherwise =>
    obtain ⟨f, tests, elseCode, codes, elseAt, selectorOk, testsOk, place, elseOk, bodiesOk, laid⟩ :=
      select_statement_ok table loops base line e arms otherwise items compiled
    have elseTypeable := block_typeable loops elseAt otherwise elseCode types elseOk
    obtain ⟨bodies, count⟩ := arms_typeable loops _ _ arms codes types bodiesOk
    have selectorSize : size ((selector table e).map (·.code)) = f.code.length := by
      rw [selectorOk]
      rfl
    simp only [innerStarts, selectorSize, ← place, size_ok _ _ elseOk]
    exact select_typeable table loops base types line e f arms tests elseCode items codes elseAt _ _ selectorOk
      testsOk place count elseTypeable bodies laid
  | count line span name first last step body =>
    obtain ⟨c, code, top, bodyAt, exit, countingOk, topAt, inner, codeOk, behind, laid⟩ :=
      count_statement_ok table loops base line span name first last step body items compiled
    have passes := counting_passes table span name first last step c countingOk
    have typeable := block_typeable (loops + 1) bodyAt body code (c.dataType :: types) codeOk
    simp only [innerStarts, countingOk, ← topAt, ← inner]
    exact count_typeable _ loops base types c code items top bodyAt exit _ passes topAt inner typeable behind laid
  | «while» line cond body =>
    obtain ⟨test, code, exit, testOk, codeOk, behind, laid⟩ :=
      while_statement_ok table loops base line cond body items compiled
    have typeable := block_typeable (loops + 1) _ body code types codeOk
    simp only [innerStarts, size_ok _ _ testOk]
    exact while_typeable table loops base types cond test code items exit _ testOk typeable behind laid
  | «repeat» line body cond =>
    obtain ⟨code, test, exit, codeOk, testOk, behind, laid⟩ :=
      repeat_statement_ok table loops base line body cond items compiled
    have typeable := block_typeable (loops + 1) base body code types codeOk
    rw [innerStarts]
    exact repeat_typeable table loops base types cond test code items exit _ testOk typeable behind laid
  | exit line span =>
    obtain ⟨inside, rfl⟩ := exit_statement_ok table loops base line span items compiled
    rw [innerStarts]
    exact exit_typeable _ loops base types inside
  | leave line =>
    obtain rfl := leave_statement_ok table loops base line items compiled
    rw [innerStarts]
    exact leave_typeable _ loops base types

theorem block_typeable (loops base : Nat) (body : List Statement) (items : List Item) (types : StackType)
    (compiled : block table loops base body = .ok items) :
    Typeable (table.map (·.dataType)) loops base items types (blockStarts table loops types.length base body) := by
  cases body with
  | nil =>
    cases compiled
    rw [blockStarts]
    exact nothing_typeable _ loops base types
  | cons s rest =>
    obtain ⟨first, others, firstOk, othersOk, rfl⟩ := block_cons_ok table loops base s rest items compiled
    have front := statement_typeable loops base s first types firstOk
    have back := block_typeable loops _ rest others types othersOk
    simp only [blockStarts, size_ok _ _ firstOk]
    exact sequence_typeable _ loops base types first others _ _ front back

theorem choice_typeable (loops base : Nat) (line : UInt16) (elseCode : Nat → Except Fault (List Item))
    (elseStarts : Nat → List (Nat × Nat)) (branches : List (Expression × List Statement)) (items : List Item)
    (types : StackType)
    (elseTypeable : ∀ base items, elseCode base = .ok items →
      Typeable (table.map (·.dataType)) loops base items types (elseStarts base))
    (compiled : choice table loops base line elseCode branches = .ok items) :
    Typeable (table.map (·.dataType)) loops base items types
      (branchStarts table loops types.length base elseStarts branches) := by
  cases branches with
  | nil =>
    rw [branchStarts]
    exact elseTypeable base items compiled
  | cons branch rest =>
    obtain ⟨cond, body⟩ := branch
    obtain ⟨test, code, others, next, testOk, codeOk, behind, othersOk, laid⟩ :=
      choice_cons_ok table loops base line elseCode cond body rest items compiled
    have typeable := block_typeable loops _ body code types codeOk
    have following := choice_typeable loops next _ elseCode elseStarts rest others types elseTypeable othersOk
    simp only [branchStarts, size_ok _ _ testOk, size_ok _ _ codeOk, ← behind]
    exact branch_typeable table loops base types cond test code others items next _ _ testOk typeable following
      behind laid

theorem arms_typeable (loops base : Nat) (line : UInt16) (arms : List (List CaseLabel × List Statement))
    (codes : List (List Item)) (types : StackType) (compiled : armBodies table loops base line arms = .ok codes) :
    ArmsTypeable (table.map (·.dataType)) loops types base codes (armStarts table loops types.length base arms) ∧
      codes.length = arms.length := by
  cases arms with
  | nil =>
    cases compiled
    rw [armStarts]
    exact ⟨.nil base, rfl⟩
  | cons arm rest =>
    obtain ⟨labels, body⟩ := arm
    obtain ⟨code, others, codeOk, othersOk, rfl⟩ :=
      arm_bodies_cons_ok table loops base line labels body rest codes compiled
    have own := block_typeable loops (base + 1) body code types codeOk
    obtain ⟨following, count⟩ := arms_typeable loops _ _ rest others types othersOk
    simp only [armStarts, size_ok _ _ codeOk]
    exact ⟨.cons base code others _ _ own following, congrArg Nat.succ count⟩
end

end SoftPlc.Compile
