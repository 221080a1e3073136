import SoftPlc.Proofs.Compile.Choosing

set_option autoImplicit false

namespace SoftPlc.Compile

open Evaluation

variable (vars : List Variable) (rounds : Nat)

mutual
theorem statement_simulates (loops base : Nat) (s : Statement) (items : List Item)
    (compiled : statement vars loops base s = .ok items) :
    Simulates vars loops base rounds items (converting.statement vars rounds s) := by
  cases s with
  | assign line span name value =>
    obtain ⟨code, codeOk, rfl⟩ := assign_statement_ok vars loops base line span name value items compiled
    obtain ⟨index, t, f, named, fragment, _, rfl⟩ := assignment_ok vars span name value code codeOk
    have names := target_names vars name span index t named
    simpa only [Reading.statement] using
      assign_simulates vars loops base rounds name index t f value names fragment
  | choose line branches otherwise =>
    have branchesOk := choose_statement_ok vars loops base line branches otherwise items compiled
    have elseSimulates := fun base items elseOk => block_simulates loops base otherwise items elseOk
    have simulates := choice_simulates loops base line _ _ branches items elseSimulates branchesOk
    simpa only [Reading.statement] using simulates
  | select line e arms otherwise =>
    obtain ⟨f, tests, elseCode, codes, elseAt, selectorOk, testsOk, place, elseOk, bodiesOk, laid⟩ :=
      select_statement_ok vars loops base line e arms otherwise items compiled
    have elseSimulates := block_simulates loops elseAt otherwise elseCode elseOk
    have bodies := arms_simulate loops _ _ arms codes bodiesOk
    simpa only [Reading.statement] using select_simulates vars loops base rounds line e f arms tests
      elseCode items codes elseAt _ selectorOk testsOk place elseSimulates bodies laid
  | count line span name first last step body =>
    obtain ⟨c, code, top, bodyAt, exit, countingOk, topAt, inner, codeOk, behind, laid⟩ :=
      count_statement_ok vars loops base line span name first last step body items compiled
    obtain ⟨counts, firstOk, lastOk⟩ := counting_counts vars span name first last step c countingOk
    have simulates := block_simulates (loops + 1) bodyAt body code codeOk
    simpa only [Reading.statement] using count_simulates vars loops base rounds name first last step c code
      items top bodyAt exit _ counts firstOk lastOk topAt inner simulates behind laid
  | «while» line cond body =>
    obtain ⟨test, code, exit, testOk, codeOk, behind, laid⟩ :=
      while_statement_ok vars loops base line cond body items compiled
    have simulates := block_simulates (loops + 1) _ body code codeOk
    simpa only [Reading.statement] using
      while_simulates vars loops base rounds cond test code items exit _ testOk simulates behind laid
  | «repeat» line body cond =>
    obtain ⟨code, test, exit, codeOk, testOk, behind, laid⟩ :=
      repeat_statement_ok vars loops base line body cond items compiled
    have simulates := block_simulates (loops + 1) base body code codeOk
    simpa only [Reading.statement] using
      repeat_simulates vars loops base rounds cond test code items exit _ simulates testOk behind laid
  | exit line span =>
    obtain ⟨inside, rfl⟩ := exit_statement_ok vars loops base line span items compiled
    simpa only [Reading.statement] using exit_simulates vars loops base rounds inside
  | leave line =>
    obtain rfl := leave_statement_ok vars loops base line items compiled
    simpa only [Reading.statement] using leave_simulates vars loops base rounds

theorem block_simulates (loops base : Nat) (body : List Statement) (items : List Item)
    (compiled : block vars loops base body = .ok items) :
    Simulates vars loops base rounds items (converting.block vars rounds body) := by
  cases body with
  | nil =>
    cases compiled
    simpa only [Reading.block] using nothing_simulates vars loops base rounds
  | cons s rest =>
    obtain ⟨first, others, firstOk, othersOk, rfl⟩ := block_cons_ok vars loops base s rest items compiled
    have front := statement_simulates loops base s first firstOk
    have back := block_simulates loops _ rest others othersOk
    simpa only [Reading.block] using sequence_simulates vars loops base rounds first others _ _ front back

theorem choice_simulates (loops base : Nat) (line : UInt16) (elseCode : Nat → Except Fault (List Item))
    (otherwise : Store → Result) (branches : List (Expression × List Statement)) (items : List Item)
    (elseSimulates : ∀ base items, elseCode base = .ok items → Simulates vars loops base rounds items otherwise)
    (compiled : choice vars loops base line elseCode branches = .ok items) :
    Simulates vars loops base rounds items (converting.choice vars rounds otherwise branches) := by
  cases branches with
  | nil => exact elseSimulates base items compiled
  | cons branch rest =>
    obtain ⟨cond, body⟩ := branch
    obtain ⟨test, code, others, next, testOk, codeOk, behind, othersOk, laid⟩ :=
      choice_cons_ok vars loops base line elseCode cond body rest items compiled
    have simulates := block_simulates loops _ body code codeOk
    have following := choice_simulates loops next _ elseCode otherwise rest others elseSimulates othersOk
    simpa only [Reading.choice] using branch_simulates vars loops base rounds cond test code others items next
      _ _ testOk simulates following behind laid

theorem arms_simulate (loops base : Nat) (line : UInt16) (arms : List (List CaseLabel × List Statement))
    (codes : List (List Item)) (compiled : armBodies vars loops base line arms = .ok codes) :
    ArmsSimulate vars loops rounds base arms codes := by
  cases arms with
  | nil =>
    cases compiled
    trivial
  | cons arm rest =>
    obtain ⟨labels, body⟩ := arm
    obtain ⟨code, others, codeOk, othersOk, rfl⟩ :=
      arm_bodies_cons_ok vars loops base line labels body rest codes compiled
    exact ⟨block_simulates loops (base + 1) body code codeOk, arms_simulate loops _ _ rest others othersOk⟩
end

end SoftPlc.Compile
