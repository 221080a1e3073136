import Mathlib.Data.List.Forall2
import SoftPlc.Proofs.Compile.Choosing
import SoftPlc.Proofs.Compile.Computing
import SoftPlc.Proofs.Machine.Twins

set_option autoImplicit false

namespace SoftPlc.Compile

open Machine Instruction

-- The same item at two places. An EXIT waits for its address at both.
inductive ItemMoves (base base' reach : Nat) : Item → Item → Prop where
  | op (i i' : Instruction) : Moves base base' reach i i' → ItemMoves base base' reach (.op i) (.op i')
  | exit : ItemMoves base base' reach .exit .exit

def Moved (base base' reach : Nat) (items items' : List Item) : Prop :=
  List.Forall₂ (ItemMoves base base' reach) items items'

theorem computing_straight (i : Instruction) (computing : i.Computing) : i.Straight := by
  cases i <;> trivial

structure Faces (base base' reach a a' : Nat) : Prop where
  low : base ≤ a
  high : a ≤ base + reach
  same : a + base' = a' + base

section
variable {base base' reach : Nat}

theorem faces_within {a a' : Nat} (faces : Faces base base' reach a a') :
    ∃ d ≤ reach, a = base + d ∧ a' = base' + d := by
  obtain ⟨low, high, same⟩ := faces
  exact ⟨a - base, by omega, by omega, by omega⟩

theorem moves_jump {a a' : Nat} (faces : Faces base base' reach a a') :
    ItemMoves base base' reach (.op (.jump a)) (.op (.jump a')) := by
  obtain ⟨d, within, rfl, rfl⟩ := faces_within faces
  exact .op _ _ (.jump d within)

theorem moves_jump_if_false {a a' : Nat} (faces : Faces base base' reach a a') :
    ItemMoves base base' reach (.op (.jumpIfFalse a)) (.op (.jumpIfFalse a')) := by
  obtain ⟨d, within, rfl, rfl⟩ := faces_within faces
  exact .op _ _ (.jumpIfFalse d within)

theorem moves_jump_if_true {a a' : Nat} (faces : Faces base base' reach a a') :
    ItemMoves base base' reach (.op (.jumpIfTrue a)) (.op (.jumpIfTrue a')) := by
  obtain ⟨d, within, rfl, rfl⟩ := faces_within faces
  exact .op _ _ (.jumpIfTrue d within)

theorem moved_append {p p' q q' : List Item} (first : Moved base base' reach p p') (second : Moved base base' reach q q') :
    Moved base base' reach (p ++ q) (p' ++ q') :=
  List.rel_append first second

theorem moved_length {items items' : List Item} (moved : Moved base base' reach items items') :
    items.length = items'.length :=
  List.Forall₂.length_eq moved

theorem moved_lengths {codes codes' : List (List Item)} (moved : List.Forall₂ (Moved base base' reach) codes codes') :
    codes.map (·.length + 2) = codes'.map (·.length + 2) := by
  induction moved with
  | nil => rfl
  | cons first _ ih => rw [List.map_cons, List.map_cons, moved_length first, ih]

theorem moved_one {i i' : Item} (moves : ItemMoves base base' reach i i') : Moved base base' reach [i] [i'] :=
  .cons moves .nil

theorem moved_straight (code : List Instruction) (straight : ∀ i ∈ code, i.Straight) :
    Moved base base' reach (ops code) (ops code) := by
  refine List.forall₂_same.mpr ?_
  intro item member
  obtain ⟨i, listed, rfl⟩ := List.mem_map.mp member
  exact .op i i (.same i (straight i listed))

theorem moved_computing (code : List Instruction) (computing : AllComputing code) :
    Moved base base' reach (ops code) (ops code) :=
  moved_straight code fun i member => computing_straight i (computing i member)

theorem moved_part {inner inner' length : Nat} (offset : Nat) {items items' : List Item} (moved : Moved inner inner' length items items')
    (at_ : inner = base + offset) (at' : inner' = base' + offset) (inside : offset + length ≤ reach) :
    Moved base base' reach items items' := by
  subst at_ at'
  refine moved.imp ?_
  intro item item' moves
  cases moves with
  | exit => exact .exit
  | op i i' moves =>
    cases moves with
    | same _ straight => exact .op i i (.same i straight)
    | jump d within => exact moves_jump ⟨by omega, by omega, by omega⟩
    | jumpIfFalse d within => exact moves_jump_if_false ⟨by omega, by omega, by omega⟩
    | jumpIfTrue d within => exact moves_jump_if_true ⟨by omega, by omega, by omega⟩

theorem moved_leave {exit exit' : Nat} {items items' : List Item} (moved : Moved base base' reach items items')
    (faces : Faces base base' reach exit exit') :
    Moved base base' reach (items.map (·.leaveTo exit)) (items'.map (·.leaveTo exit')) := by
  refine List.forall₂_map_left_iff.mpr (List.forall₂_map_right_iff.mpr (moved.imp ?_))
  intro item item' moves
  cases moves with
  | op i i' moves => exact .op i i' moves
  | exit => exact moves_jump faces

end

variable (vars : List Variable)

section
variable (line line' : UInt16) (span : Span) (t : DataType)

theorem label_test_same (base base' : Nat) (label : CaseLabel) (test test' : LabelTest)
    (compiled : labelTest line span t base label = .ok test)
    (compiled' : labelTest line' span t base' label = .ok test') : test = test' := by
  cases label with
  | single n =>
    simp only [labelTest, bind_ok] at compiled compiled'
    obtain ⟨_, _, v, value, _, _, done⟩ := compiled
    obtain ⟨_, _, v', value', _, _, done'⟩ := compiled'
    cases value.symm.trans value'
    exact Except.ok.inj (done.symm.trans done')
  | range low high =>
    simp only [labelTest, bind_ok] at compiled compiled'
    obtain ⟨_, _, l, lowOk, _, _, h, highOk, _, _, done⟩ := compiled
    obtain ⟨_, _, l', lowOk', _, _, h', highOk', _, _, done'⟩ := compiled'
    cases lowOk.symm.trans lowOk'
    cases highOk.symm.trans highOk'
    exact Except.ok.inj (done.symm.trans done')

theorem label_tests_same (base base' : Nat) (labels : List CaseLabel) (tests tests' : List LabelTest)
    (compiled : labelTests line span t base labels = .ok tests)
    (compiled' : labelTests line' span t base' labels = .ok tests') : tests = tests' := by
  induction labels generalizing base base' tests tests' with
  | nil =>
    cases compiled
    cases compiled'
    rfl
  | cons label rest ih =>
    obtain ⟨first, others, firstOk, othersOk, rfl⟩ := label_tests_cons_ok line span t base label rest tests compiled
    obtain ⟨first', others', firstOk', othersOk', rfl⟩ :=
      label_tests_cons_ok line' span t base' label rest tests' compiled'
    rw [label_test_same line line' span t base base' label first first' firstOk firstOk', ih _ _ _ _ othersOk othersOk']

theorem arm_tests_same (base base' : Nat) (arms : List (List CaseLabel × List Statement)) (tests tests' : List (List LabelTest))
    (compiled : armTests line span t base arms = .ok tests) (compiled' : armTests line' span t base' arms = .ok tests') :
    tests = tests' := by
  induction arms generalizing base base' tests tests' with
  | nil =>
    cases compiled
    cases compiled'
    rfl
  | cons arm rest ih =>
    obtain ⟨labels, body⟩ := arm
    obtain ⟨first, others, firstOk, othersOk, rfl⟩ := arm_tests_cons_ok line span t base labels body rest tests compiled
    obtain ⟨first', others', firstOk', othersOk', rfl⟩ :=
      arm_tests_cons_ok line' span t base' labels body rest tests' compiled'
    rw [label_tests_same line line' span t base base' labels first first' firstOk firstOk', ih _ _ _ _ othersOk othersOk']

end

section
variable {base base' reach : Nat}

theorem test_moved (test : LabelTest) (t : DataType) {place place' arm arm' : Nat} (arms : Faces base base' reach arm arm')
    (front : Faces base base' reach place place') (fits : place + testLength test.label ≤ base + reach) :
    Moved base base' reach (ops (test.code t place arm)) (ops (test.code t place' arm')) := by
  obtain ⟨label, low, high⟩ := test
  have straight (i : Instruction) (s : i.Straight) : ItemMoves base base' reach (.op i) (.op i) := .op i i (.same i s)
  have jumping := moves_jump_if_true arms
  cases label with
  | single n =>
    exact .cons (straight _ trivial) (.cons (straight _ trivial) (.cons (straight _ trivial) (.cons jumping .nil)))
  | range first last =>
    have passing : ItemMoves base base' reach (.op (.jumpIfFalse (place + 8))) (.op (.jumpIfFalse (place' + 8))) :=
      moves_jump_if_false ⟨Nat.le_add_right_of_le front.low, fits, by have := front.same; omega⟩
    exact .cons (straight _ trivial) (.cons (straight _ trivial) (.cons (straight _ trivial) (.cons passing
      (.cons (straight _ trivial) (.cons (straight _ trivial) (.cons (straight _ trivial) (.cons jumping .nil)))))))

theorem tests_moved (t : DataType) {arm arm' : Nat} (arms : Faces base base' reach arm arm') (tests : List LabelTest)
    {place place' : Nat} (front : Faces base base' reach place place')
    (fits : place + testsLength (tests.map (·.label)) ≤ base + reach) :
    Moved base base' reach (ops (testsCode t arm place tests)) (ops (testsCode t arm' place' tests)) := by
  induction tests generalizing place place' with
  | nil => exact .nil
  | cons test rest ih =>
    simp only [testsLength, List.map_cons, total_cons] at fits
    obtain ⟨low, high, same⟩ := front
    have first := test_moved test t arms ⟨low, high, same⟩ (by omega)
    have behind : Faces base base' reach (place + testLength test.label) (place' + testLength test.label) :=
      ⟨by omega, by omega, by omega⟩
    have others := ih behind (by simp only [testsLength]; omega)
    simpa only [testsCode, ops, List.map_append] using moved_append first others

theorem arm_tests_moved (t : DataType) (tests : List (List LabelTest)) {arms arms' : List Nat}
    (facing : List.Forall₂ (Faces base base' reach) arms arms') {place place' : Nat}
    (front : Faces base base' reach place place')
    (fits : place + total (tests.map fun arm => testsLength (arm.map (·.label))) ≤ base + reach) :
    Moved base base' reach (ops (armTestsCode t place tests arms)) (ops (armTestsCode t place' tests arms')) := by
  induction tests generalizing arms arms' place place' with
  | nil => exact .nil
  | cons tests rest ih =>
    cases facing with
    | nil => exact .nil
    | cons here others =>
      rename_i arm arm' _ _
      simp only [List.map_cons, total_cons] at fits
      obtain ⟨low, high, same⟩ := front
      have first := tests_moved t here tests ⟨low, high, same⟩ (by omega)
      have behind : Faces base base' reach (place + testsLength (tests.map (·.label)))
          (place' + testsLength (tests.map (·.label))) := ⟨by omega, by omega, by omega⟩
      have later := ih others behind (by omega)
      simpa only [armTestsCode, tests_code_length, ops, List.map_append] using
        moved_append first later

theorem addresses_face (lengths : List Nat) {place place' : Nat} (front : Faces base base' reach place place')
    (fits : place + total lengths ≤ base + reach) :
    List.Forall₂ (Faces base base' reach) (addresses place lengths) (addresses place' lengths) := by
  induction lengths generalizing place place' with
  | nil => exact .nil
  | cons length rest ih =>
    rw [total_cons] at fits
    obtain ⟨low, high, same⟩ := front
    exact .cons ⟨low, high, same⟩ (ih ⟨by omega, by omega, by omega⟩ (by omega))

theorem arm_moved {stop stop' : Nat} {code code' : List Item} (moved : Moved base base' reach code code')
    (faces : Faces base base' reach stop stop') :
    Moved base base' reach (armCode stop code) (armCode stop' code') :=
  moved_append
    (moved_append (moved_one (.op _ _ (.same _ trivial))) moved)
    (moved_one (moves_jump faces))

theorem arms_moved {stop stop' : Nat} (faces : Faces base base' reach stop stop') {codes codes' : List (List Item)}
    (moved : List.Forall₂ (Moved base base' reach) codes codes') :
    Moved base base' reach (codes.map (armCode stop)).flatten (codes'.map (armCode stop')).flatten := by
  induction moved with
  | nil => exact .nil
  | cons first _ ih =>
    exact moved_append (arm_moved first faces) ih

section
variable (c : Counting) (step : AllComputing c.step)

theorem compare_moved (op : BinaryOp) {exit exit' : Nat} (leaves : Faces base base' reach exit exit') :
    Moved base base' reach (ops (c.compare op exit)) (ops (c.compare op exit')) := by
  have straight (i : Instruction) (s : i.Straight) : ItemMoves base base' reach (.op i) (.op i) := .op i i (.same i s)
  exact .cons (straight _ trivial) (.cons (straight _ trivial) (.cons (straight _ trivial)
    (.cons (moves_jump_if_false leaves) .nil)))

theorem start_moved (first : AllComputing c.first) (last : AllComputing c.last) :
    Moved base base' reach (ops c.start) (ops c.start) := by
  refine moved_straight c.start fun i member => ?_
  simp only [Counting.start, List.mem_append, List.mem_singleton] at member
  rcases member with (inside | rfl) | inside
  · exact computing_straight i (first i inside)
  · trivial
  · exact computing_straight i (last i inside)

include step in
theorem counting_test_moved {top top' exit exit' : Nat} (front : Faces base base' reach top top')
    (leaves : Faces base base' reach exit exit') (fits : top + c.testLength ≤ base + reach) :
    Moved base base' reach (ops (c.test top exit)) (ops (c.test top' exit')) := by
  obtain ⟨low, high, same⟩ := front
  cases direction : c.down with
  | some down =>
    rw [(test_known c top exit down direction).1, (test_known c top' exit' down direction).1]
    exact compare_moved c _ leaves
  | none =>
    obtain ⟨code, length⟩ := test_unknown c top exit direction
    rw [code, (test_unknown c top' exit' direction).1]
    have one (i i' : Instruction) (moves : ItemMoves base base' reach (.op i) (.op i')) :
        Moved base base' reach (ops [i]) (ops [i']) := moved_one moves
    have branch : ItemMoves base base' reach (.op (.jumpIfTrue (top + c.testLength - 4)))
        (.op (.jumpIfTrue (top' + c.testLength - 4))) := moves_jump_if_true ⟨by omega, by omega, by omega⟩
    have skip : ItemMoves base base' reach (.op (.jump (top + c.testLength))) (.op (.jump (top' + c.testLength))) :=
      moves_jump ⟨by omega, by omega, by omega⟩
    simp only [ops, List.map_append]
    refine moved_append (moved_append
      (moved_append (moved_computing c.step step)
        (one _ _ (.op _ _ (.same _ trivial)))) (one _ _ (.op _ _ (.same _ trivial)))) ?_
    refine moved_append (one _ _ branch) ?_
    refine moved_append (compare_moved c _ leaves) ?_
    exact moved_append (one _ _ skip) (compare_moved c _ leaves)

include step in
theorem finish_moved {top top' : Nat} (front : Faces base base' reach top top') :
    Moved base base' reach (ops (c.finish top)) (ops (c.finish top')) := by
  have straight (i : Instruction) (s : i.Straight) : ItemMoves base base' reach (.op i) (.op i) := .op i i (.same i s)
  simp only [Counting.finish, ops, List.map_append]
  refine moved_append (moved_append
    (moved_one (straight _ trivial)) (moved_computing c.step step)) ?_
  exact .cons (straight _ trivial) (.cons (straight _ trivial)
    (.cons (moves_jump front) (.cons (straight _ trivial) .nil)))

include step in
theorem count_moved (first : AllComputing c.first) (last : AllComputing c.last) {top top' inner inner' exit exit' : Nat}
    {code code' : List Item} (topAt : top = base + c.start.length) (topAt' : top' = base' + c.start.length)
    (innerAt : inner = top + c.testLength) (innerAt' : inner' = top' + c.testLength)
    (behind : exit = inner + code.length + (c.finish top).length - 1)
    (behind' : exit' = inner' + code'.length + (c.finish top').length - 1)
    (body : Moved inner inner' code.length code code')
    (fits : c.start.length + c.testLength + code.length + (c.finish top).length ≤ reach) :
    Moved base base' reach
      (ops c.start ++ ops (c.test top exit) ++ code.map (·.leaveTo exit) ++ ops (c.finish top))
      (ops c.start ++ ops (c.test top' exit') ++ code'.map (·.leaveTo exit') ++ ops (c.finish top')) := by
  have same := moved_length body
  have ending : (c.finish top').length = (c.finish top).length := by simp [Counting.finish]
  have some : 0 < (c.finish top).length := by simp [Counting.finish]
  have front : Faces base base' reach top top' := ⟨by omega, by omega, by omega⟩
  have leaves : Faces base base' reach exit exit' := ⟨by omega, by omega, by omega⟩
  have part : Moved base base' reach code code' :=
    moved_part (c.start.length + c.testLength) body (by omega) (by omega) (by omega)
  have testing := counting_test_moved c step front leaves (by omega)
  exact moved_append (moved_append (moved_append (start_moved c first last) testing) (moved_leave part leaves))
    (finish_moved c step front)

end

section
variable (test : List Instruction) (testing : AllComputing test)
include testing

theorem while_moved {exit exit' : Nat} {code code' : List Item}
    (body : Moved (base + test.length + 1) (base' + test.length + 1) code.length code code')
    (behind : exit = base + test.length + 1 + code.length + 1)
    (behind' : exit' = base' + test.length + 1 + code'.length + 1)
    (fits : test.length + 1 + code.length + 1 ≤ reach) :
    Moved base base' reach
      (ops test ++ [.op (.jumpIfFalse exit)] ++ code.map (·.leaveTo exit) ++ [.op (.jump base)])
      (ops test ++ [.op (.jumpIfFalse exit')] ++ code'.map (·.leaveTo exit') ++ [.op (.jump base')]) := by
  have same := moved_length body
  have leaves : Faces base base' reach exit exit' := ⟨by omega, by omega, by omega⟩
  have again : Faces base base' reach base base' := ⟨by omega, by omega, by omega⟩
  have part : Moved base base' reach code code' :=
    moved_part (test.length + 1) body (by omega) (by omega) (by omega)
  exact moved_append (moved_append (moved_append (moved_computing test testing) (moved_one (moves_jump_if_false leaves)))
    (moved_leave part leaves)) (moved_one (moves_jump again))

theorem repeat_moved {exit exit' : Nat} {code code' : List Item} (body : Moved base base' code.length code code')
    (behind : exit = base + code.length + test.length + 1)
    (behind' : exit' = base' + code'.length + test.length + 1)
    (fits : code.length + test.length + 1 ≤ reach) :
    Moved base base' reach
      (code.map (·.leaveTo exit) ++ ops test ++ [.op (.jumpIfFalse base)])
      (code'.map (·.leaveTo exit') ++ ops test ++ [.op (.jumpIfFalse base')]) := by
  have same := moved_length body
  have leaves : Faces base base' reach exit exit' := ⟨by omega, by omega, by omega⟩
  have again : Faces base base' reach base base' := ⟨by omega, by omega, by omega⟩
  have part : Moved base base' reach code code' := moved_part 0 body rfl rfl (by omega)
  exact moved_append (moved_append (moved_leave part leaves) (moved_computing test testing))
    (moved_one (moves_jump_if_false again))

theorem branch_moved {next next' : Nat} {code code' others others' : List Item}
    (body : Moved (base + test.length + 1) (base' + test.length + 1) code.length code code')
    (later : Moved next next' others.length others others')
    (nextAt : next = base + test.length + 1 + code.length + 1)
    (nextAt' : next' = base' + test.length + 1 + code'.length + 1)
    (fits : test.length + 1 + code.length + 1 + others.length ≤ reach) :
    Moved base base' reach
      (ops test ++ [.op (.jumpIfFalse next)] ++ code ++ [.op (.jump (next + others.length))] ++ others)
      (ops test ++ [.op (.jumpIfFalse next')] ++ code' ++ [.op (.jump (next' + others'.length))] ++ others') := by
  have same := moved_length body
  have sameOthers := moved_length later
  have passes : Faces base base' reach next next' := ⟨by omega, by omega, by omega⟩
  have leaves : Faces base base' reach (next + others.length) (next' + others'.length) :=
    ⟨by omega, by omega, by omega⟩
  have part : Moved base base' reach code code' :=
    moved_part (test.length + 1) body (by omega) (by omega) (by omega)
  have rest : Moved base base' reach others others' :=
    moved_part (test.length + 1 + code.length + 1) later (by omega) (by omega) (by omega)
  exact moved_append (moved_append (moved_append (moved_append (moved_computing test testing)
    (moved_one (moves_jump_if_false passes))) part) (moved_one (moves_jump leaves))) rest

end

theorem case_moved (f : Fragment) (selecting : AllComputing f.code) (arms : List (List CaseLabel × List Statement))
    (tests : List (List LabelTest)) {elseAt elseAt' : Nat} {items items' elseCode elseCode' : List Item}
    {codes codes' : List (List Item)}
    (labels : total (tests.map fun arm => testsLength (arm.map (·.label))) = total (arms.map fun arm => testsLength arm.1))
    (place : elseAt = base + f.code.length + total (arms.map fun arm => testsLength arm.1) + 1)
    (place' : elseAt' = base' + f.code.length + total (arms.map fun arm => testsLength arm.1) + 1)
    (layout : CaseLayout base f arms tests elseCode codes (elseAt + elseCode.length + 1)
      (elseAt + elseCode.length + 1 + total (codes.map (·.length + 2))) items)
    (layout' : CaseLayout base' f arms tests elseCode' codes' (elseAt' + elseCode'.length + 1)
      (elseAt' + elseCode'.length + 1 + total (codes'.map (·.length + 2))) items')
    (other : Moved elseAt elseAt' elseCode.length elseCode elseCode')
    (bodies : List.Forall₂ (Moved base base' items.length) codes codes') :
    Moved base base' items.length items items' := by
  have same := moved_length other
  have whole := layout.whole
  have lengths := moved_lengths bodies
  have totals := congrArg total lengths
  have leaves : Faces base base' items.length (elseAt + elseCode.length + 1 + total (codes.map (·.length + 2)))
      (elseAt' + elseCode'.length + 1 + total (codes'.map (·.length + 2))) := ⟨by omega, by omega, by omega⟩
  have targets : List.Forall₂ (Faces base base' items.length)
      (addresses (elseAt + elseCode.length + 1) (codes.map (·.length + 2)))
      (addresses (elseAt' + elseCode'.length + 1) (codes'.map (·.length + 2))) := by
    rw [← lengths]
    exact addresses_face _ ⟨by omega, by omega, by omega⟩ (by omega)
  have front : Faces base base' items.length (base + f.code.length) (base' + f.code.length) :=
    ⟨by omega, by omega, by omega⟩
  have testing := arm_tests_moved f.dataType tests targets front (by omega)
  have inside : Moved base base' items.length elseCode elseCode' :=
    moved_part (elseAt - base) other (by omega) (by omega) (by omega)
  have all := moved_append (moved_computing f.code selecting)
    (moved_append testing (moved_append (arm_moved inside leaves) (arms_moved leaves bodies)))
  rwa [← layout.parts, ← layout'.parts] at all

end

mutual
theorem statement_moved (loops base base' : Nat) (s : Statement) (items items' : List Item)
    (compiled : statement vars loops base s = .ok items) (compiled' : statement vars loops base' s = .ok items') :
    Moved base base' items.length items items' := by
  cases s with
  | assign line span name value =>
    obtain ⟨code, made, rfl⟩ := assign_statement_ok vars loops base line span name value items compiled
    obtain ⟨code', made', rfl⟩ := assign_statement_ok vars loops base' line span name value items' compiled'
    cases made.symm.trans made'
    obtain ⟨index, t, f, _, fragment, _, rfl⟩ := assignment_ok vars span name value code made
    refine moved_straight _ fun i member => ?_
    rcases List.mem_append.mp member with inside | last
    · exact computing_straight i (cast_computing f t (expression_computing vars value f fragment) i inside)
    · rw [List.mem_singleton.mp last]
      trivial
  | choose line branches otherwise =>
    have made := choose_statement_ok vars loops base line branches otherwise items compiled
    have made' := choose_statement_ok vars loops base' line branches otherwise items' compiled'
    exact choice_moved loops base base' line _ branches items items'
      (fun at_ at' code code' compiled compiled' => block_moved loops at_ at' otherwise code code' compiled compiled')
      made made'
  | select line e arms otherwise =>
    obtain ⟨f, tests, elseCode, codes, elseAt, made, testsOk, place, elseOk, codesOk, laid⟩ :=
      select_statement_ok vars loops base line e arms otherwise items compiled
    obtain ⟨f', tests', elseCode', codes', elseAt', made', testsOk', place', elseOk', codesOk', laid'⟩ :=
      select_statement_ok vars loops base' line e arms otherwise items' compiled'
    cases made.symm.trans made'
    cases arm_tests_same line line e.span f.dataType _ _ arms tests tests' testsOk testsOk'
    have layout := case_layout base line e.span f arms tests elseCode items codes elseAt _ _ testsOk
      (arm_bodies_length vars loops _ _ arms codes codesOk) place rfl rfl laid
    have layout' := case_layout base' line e.span f arms tests elseCode' items' codes' elseAt' _ _ testsOk'
      (arm_bodies_length vars loops _ _ arms codes' codesOk') place' rfl rfl laid'
    have other := block_moved loops elseAt elseAt' otherwise elseCode elseCode' elseOk elseOk'
    have same := moved_length other
    have whole := layout.whole
    have bodies : List.Forall₂ (Moved base base' items.length) codes codes' :=
      arm_bodies_moved loops _ _ _ arms codes codes' codesOk codesOk' base base' items.length
        ⟨by omega, by omega, by omega⟩ (by omega)
    exact case_moved f (expression_computing vars e f (selector_ok vars e f made).1) arms tests
      (arm_tests_total line e.span f.dataType _ arms tests testsOk) place place' layout layout' other bodies
  | count line span name first last step body =>
    obtain ⟨c, code, top, bodyAt, exit, made, topAt, inner, codeOk, behind, laid⟩ :=
      count_statement_ok vars loops base line span name first last step body items compiled
    obtain ⟨c', code', top', bodyAt', exit', made', topAt', inner', codeOk', behind', laid'⟩ :=
      count_statement_ok vars loops base' line span name first last step body items' compiled'
    cases made.symm.trans made'
    obtain ⟨inFirst, inLast, inStep⟩ := counting_computing vars span name first last step c made
    have body := block_moved (loops + 1) bodyAt bodyAt' body code code' codeOk codeOk'
    have moved := count_moved c inStep inFirst inLast topAt topAt' inner inner' behind behind' body (Nat.le_refl _)
    have length : items.length = c.start.length + c.testLength + code.length + (c.finish top).length := by
      simp [laid, ops, test_length]
      omega
    rwa [← laid, ← laid', ← length] at moved
  | «while» line cond body =>
    obtain ⟨test, code, exit, made, codeOk, behind, laid⟩ := while_statement_ok vars loops base line cond body items compiled
    obtain ⟨test', code', exit', made', codeOk', behind', laid'⟩ :=
      while_statement_ok vars loops base' line cond body items' compiled'
    cases made.symm.trans made'
    have moved := while_moved test (condition_computing vars cond test made)
      (block_moved (loops + 1) _ _ body code code' codeOk codeOk') behind behind' (Nat.le_refl _)
    have length : items.length = test.length + 1 + code.length + 1 := by
      simp [laid, ops]
      omega
    rwa [← laid, ← laid', ← length] at moved
  | «repeat» line body cond =>
    obtain ⟨code, test, exit, codeOk, made, behind, laid⟩ := repeat_statement_ok vars loops base line body cond items compiled
    obtain ⟨code', test', exit', codeOk', made', behind', laid'⟩ :=
      repeat_statement_ok vars loops base' line body cond items' compiled'
    cases made.symm.trans made'
    have moved := repeat_moved test (condition_computing vars cond test made)
      (block_moved (loops + 1) base base' body code code' codeOk codeOk') behind behind' (Nat.le_refl _)
    have length : items.length = code.length + test.length + 1 := by
      simp [laid, ops]
      omega
    rwa [← laid, ← laid', ← length] at moved
  | exit line span =>
    rw [(exit_statement_ok vars loops base line span items compiled).2,
      (exit_statement_ok vars loops base' line span items' compiled').2]
    exact .cons .exit .nil
  | leave line =>
    rw [leave_statement_ok vars loops base line items compiled, leave_statement_ok vars loops base' line items' compiled']
    exact .cons (.op _ _ (.same _ trivial)) .nil

theorem block_moved (loops base base' : Nat) (body : List Statement) (items items' : List Item)
    (compiled : block vars loops base body = .ok items) (compiled' : block vars loops base' body = .ok items') :
    Moved base base' items.length items items' := by
  cases body with
  | nil =>
    cases compiled
    cases compiled'
    exact .nil
  | cons s rest =>
    obtain ⟨first, others, firstOk, othersOk, rfl⟩ := block_cons_ok vars loops base s rest items compiled
    obtain ⟨first', others', firstOk', othersOk', rfl⟩ := block_cons_ok vars loops base' s rest items' compiled'
    have front := statement_moved loops base base' s first first' firstOk firstOk'
    have back := block_moved loops _ _ rest others others' othersOk othersOk'
    rw [← moved_length front] at back
    rw [List.length_append]
    exact moved_append
      (moved_part 0 front rfl rfl (by omega))
      (moved_part first.length back rfl rfl (by omega))

theorem choice_moved (loops base base' : Nat) (line : UInt16) (otherwise : Nat → Except Fault (List Item))
    (branches : List (Expression × List Statement)) (items items' : List Item)
    (elseMoved : ∀ at_ at' code code', otherwise at_ = .ok code → otherwise at' = .ok code' →
      Moved at_ at' code.length code code')
    (compiled : choice vars loops base line otherwise branches = .ok items)
    (compiled' : choice vars loops base' line otherwise branches = .ok items') :
    Moved base base' items.length items items' := by
  cases branches with
  | nil => exact elseMoved base base' items items' compiled compiled'
  | cons branch rest =>
    obtain ⟨cond, body⟩ := branch
    obtain ⟨test, code, others, next, made, codeOk, nextAt, othersOk, laid⟩ :=
      choice_cons_ok vars loops base line otherwise cond body rest items compiled
    obtain ⟨test', code', others', next', made', codeOk', nextAt', othersOk', laid'⟩ :=
      choice_cons_ok vars loops base' line otherwise cond body rest items' compiled'
    cases made.symm.trans made'
    have moved := branch_moved test (condition_computing vars cond test made)
      (block_moved loops _ _ body code code' codeOk codeOk')
      (choice_moved loops next next' _ otherwise rest others others' elseMoved othersOk othersOk') nextAt nextAt'
      (Nat.le_refl _)
    have length : items.length = test.length + 1 + code.length + 1 + others.length := by
      simp [laid, ops]
      omega
    rwa [← laid, ← laid', ← length] at moved

theorem arm_bodies_moved (loops base base' : Nat) (line : UInt16) (arms : List (List CaseLabel × List Statement))
    (codes codes' : List (List Item)) (compiled : armBodies vars loops base line arms = .ok codes)
    (compiled' : armBodies vars loops base' line arms = .ok codes') (outer outer' reach : Nat)
    (front : Faces outer outer' reach base base')
    (fits : base + total (codes.map (·.length + 2)) ≤ outer + reach) :
    List.Forall₂ (Moved outer outer' reach) codes codes' := by
  cases arms with
  | nil =>
    cases compiled
    cases compiled'
    exact .nil
  | cons arm rest =>
    obtain ⟨labels, body⟩ := arm
    obtain ⟨code, others, codeOk, othersOk, rfl⟩ := arm_bodies_cons_ok vars loops base line labels body rest codes compiled
    obtain ⟨code', others', codeOk', othersOk', rfl⟩ :=
      arm_bodies_cons_ok vars loops base' line labels body rest codes' compiled'
    have inner := block_moved loops _ _ body code code' codeOk codeOk'
    have same := moved_length inner
    simp only [List.map_cons, total_cons] at fits
    obtain ⟨low, high, far⟩ := front
    obtain ⟨d, rfl⟩ := Nat.exists_eq_add_of_le low
    refine .cons (moved_part (d + 1) inner (by omega) (by omega) (by omega)) ?_
    exact arm_bodies_moved loops _ _ _ rest others others' othersOk othersOk' outer outer' reach
      ⟨by omega, by omega, by omega⟩ (by omega)
end

end SoftPlc.Compile
