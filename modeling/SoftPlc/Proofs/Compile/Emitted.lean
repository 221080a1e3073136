import SoftPlc.Proofs.Compile.Choosing
import SoftPlc.Proofs.Compile.Drafts

set_option autoImplicit false

namespace SoftPlc.Compile

def Context.turn (context : Context) (goes : Int → Nat) : Item → Instruction :=
  match context.loops with
  | [] => Item.instruction
  | loop :: _ => fun item => (item.leaveTo (goes loop.exit)).instruction

section
variable (context : Context) (goes : Int → Nat)

@[simp]
theorem turn_at_line (line : UInt16) : (context.atLine line).turn goes = context.turn goes := rfl

@[simp]
theorem turn_enter (exit : Int) (item : Item) :
    (context.enter exit).turn goes item = (item.leaveTo (goes exit)).instruction := rfl

@[simp]
theorem turn_op (i : Instruction) : context.turn goes (.op i) = i := by
  obtain ⟨loops, residue, line⟩ := context
  cases loops <;> rfl

@[simp]
theorem turn_leave (item : Item) (address : Nat) :
    context.turn goes (item.leaveTo address) = (item.leaveTo address).instruction := by
  cases item <;> exact turn_op context goes _

@[simp]
theorem turn_ops (code : List Instruction) : (ops code).map (context.turn goes) = code := by
  simp [ops, Function.comp_def]

end

section
variable {opened : List Int} {known : List (Int × Nat)} {context : Context} {stop : Nat}
variable {code : (Int → Nat) → List Instruction}
variable {e : Emitter}

section
variable (span : Span) (t : DataType) (arm : Int)

theorem label_test_follows (w : Drafted opened known context stop code e) (placed : arm ∈ opened) (label : CaseLabel) :
    Follows (labelTest context.line span t stop label) (emitLabelTest span t arm label e) fun test _ e' =>
      Drafted opened known context (stop + testLength label) (fun goes => code goes ++ test.code t stop (goes arm)) e' := by
  cases label with
  | single n =>
    rw [labelTest, emitLabelTest]
    refine emit_all_then w _ _ (Nat.le_refl _) fun e₁ w₁ => room_then _ w₁ ?_
    refine follows_lift fun v _ => emit_all_then w₁ _ _ (by simp) fun e₂ w₂ => ?_
    refine follows_return (emit_jump_follows w₂ _ arm .jumpIfTrue (fun _ => rfl) (.inl placed)) fun _ _ e₃ _ w₃ => ?_
    refine draft_same w₃ known _ _ (List.Subset.refl _) rfl fun goes _ => ?_
    simp [LabelTest.code]
  | range low high =>
    rw [labelTest, emitLabelTest]
    refine symbol_then w fun skip e₁ w₁ => ?_
    have arm_ : arm ∈ skip :: opened := List.mem_cons_of_mem skip placed
    refine emit_all_then w₁ _ _ (Nat.le_refl _) fun e₂ w₂ => room_then _ w₂ ?_
    refine follows_lift fun l _ => emit_all_then w₂ _ _ (by simp) fun e₃ w₃ => ?_
    refine emit_jump_then w₃ _ skip .jumpIfFalse (fun _ => rfl) (.inl List.mem_cons_self) _ (by simp) fun e₄ w₄ => ?_
    refine emit_all_then w₄ _ _ (by simp) fun e₅ w₅ => room_then _ w₅ ?_
    refine follows_lift fun h _ => emit_all_then w₅ _ _ (by simp) fun e₆ w₆ => ?_
    refine emit_jump_then w₆ _ arm .jumpIfTrue (fun _ => rfl) (.inl arm_) _ (by simp) fun e₇ w₇ => room_then _ w₇ ?_
    obtain ⟨e₈, made, w₈⟩ := place_step [] opened skip w₇
    rw [made]
    refine follows_ok _ _ _ _ (draft_same w₈ known _ _ (List.subset_cons_self _ _) rfl fun goes there => ?_)
    have behind : goes skip = stop + 8 := there _ List.mem_cons_self
    simp [LabelTest.code, behind]

theorem label_tests_follow (w : Drafted opened known context stop code e) (placed : arm ∈ opened) (labels : List CaseLabel) :
    Follows (labelTests context.line span t stop labels) (emitLabelTests span t arm labels e) fun tests _ e' =>
      Drafted opened known context (stop + testsLength labels)
        (fun goes => code goes ++ testsCode t (goes arm) stop tests) e' := by
  induction labels generalizing stop code e with
  | nil =>
    refine follows_ok _ _ _ _ (draft_same w known _ _ (List.Subset.refl _) rfl fun goes _ => ?_)
    simp [testsCode]
  | cons label rest ih =>
    rw [labelTests, emitLabelTests]
    refine follows_bind (label_test_follows span t arm w placed label) fun test _ e₁ tested w₁ => ?_
    obtain ⟨rfl, -⟩ := label_test_ok _ span t stop label test tested
    refine follows_return (ih w₁) fun tests _ e₂ _ w₂ => ?_
    refine draft_same w₂ known _ _ (List.Subset.refl _) ?_ fun goes _ => ?_
    · simp [testsLength]
      omega
    · simp [testsCode]

end

theorem arm_tests_follow (span : Span) (t : DataType) (w : Drafted opened known context stop code e) (symbols : List Int)
    (placed : symbols ⊆ opened) (arms : List (List CaseLabel × List Statement)) (count : symbols.length = arms.length) :
    Follows (armTests context.line span t stop arms) (emitArmTests span t arms symbols e) fun tests _ e' =>
      Drafted opened known context (stop + total (arms.map fun arm => testsLength arm.1))
        (fun goes => code goes ++ armTestsCode t stop tests (symbols.map goes)) e' := by
  induction arms generalizing stop code e symbols with
  | nil =>
    refine follows_ok _ _ _ _ (draft_same w known _ _ (List.Subset.refl _) rfl fun goes _ => ?_)
    simp [armTestsCode]
  | cons arm rest ih =>
    cases symbols with
    | nil => cases count
    | cons symbol symbols =>
      obtain ⟨first, others⟩ := List.cons_subset.mp placed
      rw [armTests, emitArmTests]
      refine follows_bind (label_tests_follow span t symbol w first arm.1) fun tests _ e₁ tested w₁ => ?_
      refine follows_return (ih w₁ symbols others (Nat.succ.inj count)) fun all _ e₂ _ w₂ => ?_
      have labels := label_tests_labels _ span t stop arm.1 tests tested
      refine draft_same w₂ known _ _ (List.Subset.refl _) ?_ fun goes _ => ?_
      · simp [Nat.add_assoc]
      · simp [armTestsCode, tests_code_length, labels]

section
variable (c : Counting) (exit : Int)

theorem compare_follows (w : Drafted opened known context stop code e) (placed : exit ∈ opened) (op : BinaryOp) :
    Follows (checkRoom context.line (stop + 4)) (emitCompare c op exit e) fun _ _ e' =>
      Drafted opened known context (stop + 4) (fun goes => code goes ++ c.compare op (goes exit)) e' := by
  rw [emitCompare, ← bind_pure (checkRoom _ _)]
  refine emit_all_then w _ _ (by simp) fun e₁ w₁ => ?_
  refine follows_return (emit_jump_follows w₁ _ exit .jumpIfFalse (fun _ => rfl) (.inl placed)) fun _ _ e₂ _ w₂ => ?_
  refine draft_same w₂ known _ _ (List.Subset.refl _) rfl fun goes _ => ?_
  simp [Counting.compare]

theorem finish_advances (top : Nat) : c.finish top = c.advance ++ [.jump top, .discard] := by
  simp [Counting.finish, Counting.advance]

theorem counting_test_follows (w : Drafted opened known context stop code e) (body : Int) (leaves : exit ∈ opened)
    (enters : body ∈ opened) :
    Follows (checkRoom context.line (stop + c.testLength)) (emitCountingTest c body exit e) fun _ _ e' =>
      ∃ code', Drafted opened known context (stop + c.testLength) code' e' ∧
        ∀ goes, goes body = stop + c.testLength → code' goes = code goes ++ c.test stop (goes exit) := by
  cases direction : c.down with
  | some down =>
    rw [emitCountingTest, direction, (test_known c 0 0 down direction).2]
    refine follows_weaken (compare_follows c exit w leaves _) fun _ _ e' _ w' => ⟨_, w', fun goes _ => ?_⟩
    rw [(test_known c stop (goes exit) down direction).1]
    rfl
  | none =>
    have length := (test_unknown c 0 0 direction).2
    rw [emitCountingTest, direction, ← bind_pure (checkRoom _ _)]
    refine symbol_then w fun down e₁ w₁ => ?_
    have leaves₁ : exit ∈ down :: opened := List.mem_cons_of_mem down leaves
    have enters₁ : body ∈ down :: opened := List.mem_cons_of_mem down enters
    refine emit_all_then w₁ _ _ (by simp; omega) fun e₂ w₂ => ?_
    refine emit_jump_then w₂ _ down .jumpIfTrue (fun _ => rfl) (.inl List.mem_cons_self) _ (by simp; omega) fun e₃ w₃ => ?_
    refine follows_room context.line _ _ (by simp; omega) (compare_follows c exit w₃ leaves₁ _) fun _ e₄ w₄ => ?_
    refine emit_jump_then w₄ _ body .jump (fun _ => rfl) (.inl enters₁) _ (by simp; omega) fun e₅ w₅ => ?_
    refine place_then [] opened down w₅ fun e₆ w₆ => ?_
    rw [← bind_pure (emitCompare _ _ _)]
    refine follows_room context.line _ _ (by simp; omega) (compare_follows c exit w₆ leaves _) fun _ e₇ w₇ => ?_
    have reached : stop + (c.step ++ [Instruction.push (.zero c.dataType), .binary .less c.dataType]).length + 1 + 4 + 1 + 4 =
        stop + c.testLength := by
      simp
      omega
    have behind : stop + c.testLength - 4 = stop + (c.step.length + 2) + 1 + 4 + 1 := by omega
    rw [reached] at w₇
    refine room_then _ w₇ (follows_ok _ _ _ _ ⟨_, draft_same w₇ known _ (fun goes => code goes ++ ?_)
      (List.subset_cons_self _ _) rfl fun goes there => ?_, fun goes enters => ?_⟩)
    · exact (c.step ++ [.push (.zero c.dataType)] ++ [.binary .less c.dataType]) ++
        ([.jumpIfTrue (stop + c.testLength - 4)] ++ (c.compare .greaterEqual (goes exit) ++
          ([.jump (goes body)] ++ c.compare .lessEqual (goes exit))))
    · have falls := there _ List.mem_cons_self
      simp only at falls
      simp [falls, behind]
    · rw [enters, (test_unknown c stop (goes exit) direction).1]
      rfl

end

def Emits (opened : List Int) (known : List (Int × Nat)) (context : Context) (stop : Nat)
    (code : (Int → Nat) → List Instruction) (line : UInt16) (items : List Item) (e : Emitter) : Prop :=
  Drafted opened known (context.atLine line) (stop + items.length)
    (fun goes => code goes ++ items.map (context.turn goes)) e

theorem level_enter (context : Context) (exit : Int) (inside : exit ∈ opened) : Level opened (context.enter exit) := by
  intro loop head
  cases head
  exact ⟨inside, rfl⟩

theorem exit_follows (w : Drafted opened known context stop code e) (level : Level opened context) (span : Span)
    (rest : Unit → Except Fault (List Item))
    (answers : rest () = (checkRoom context.line (stop + 1) >>= fun _ => pure [.exit])) :
    Follows (if context.loops.length = 0 then (failAt .exitOutsideLoop span "" : Except Fault Unit) >>= rest else rest ())
      (emitExit span e) (fun items _ e' => Emits opened known context stop code context.line items e') := by
  have same : e.loops = context.loops ∧ e.residue = context.residue :=
    ⟨congrArg Context.loops w.inside, congrArg Context.residue w.inside⟩
  cases loops : context.loops with
  | nil =>
    simp only [emitExit, same.1, loops]
    rfl
  | cons loop others =>
    obtain ⟨inside, residue⟩ := level loop (by rw [loops]; rfl)
    have jumps : emitExit span e = emitJump (.jump 0) loop.exit e := by
      simp only [emitExit, same.1, same.2, loops, residue, Nat.sub_self]
      rfl
    rw [if_neg (by simp), answers, jumps]
    refine follows_return (emit_jump_follows w _ loop.exit .jump (fun _ => rfl) (.inl inside)) fun _ _ e₁ _ w₁ => ?_
    exact draft_same w₁ known _ _ (List.Subset.refl _) rfl fun goes _ => by simp [Context.turn, loops]; rfl

def Emitting (direct : Nat → Nat → Except Fault (List Item)) (make : Emit Unit) (behind : UInt16 → UInt16) : Prop :=
  ∀ (opened : List Int) (known : List (Int × Nat)) (context : Context) (stop : Nat) (code : (Int → Nat) → List Instruction)
    (e : Emitter), Drafted opened known context stop code e → Level opened context →
    Follows (direct context.loops.length stop) (make e) fun items _ e' =>
      Emits opened known context stop code (behind context.line) items e'

variable (vars : List Variable)

def StatementEmits (s : Statement) : Prop :=
  Emitting (fun loops base => statement vars loops base s) (emitStatement vars s) fun _ => lastLine s

def BlockEmits (body : List Statement) : Prop :=
  Emitting (fun loops base => block vars loops base body) (emitBlock vars body) fun line => lastLineOf line body

def BranchesEmit (branches : List (Expression × List Statement)) : Prop :=
  ∀ (elseCode : Nat → Nat → Except Fault (List Item)) (otherwise : Emit Unit) (elseLine : UInt16 → UInt16),
    Emitting elseCode otherwise elseLine →
    ∀ (last : Int) (opened : List Int) (known : List (Int × Nat)) (context : Context) (stop : Nat)
      (code : (Int → Nat) → List Instruction) (e : Emitter), Drafted opened known context stop code e → Level opened context →
      last ∈ opened →
      Follows (choice vars context.loops.length stop context.line (elseCode context.loops.length) branches)
        ((emitBranches vars last branches >>= fun _ => otherwise) e) fun items _ e' =>
          ∃ code', Drafted opened known (context.atLine (elseLine (lastLineOfBranches context.line branches)))
              (stop + items.length) code' e' ∧
            ∀ goes, goes last = stop + items.length → code' goes = code goes ++ items.map (context.turn goes)

def ArmsEmit (arms : List (List CaseLabel × List Statement)) : Prop :=
  ∀ (symbols : List Int) (last : Int) (opened : List Int) (known : List (Int × Nat)) (context : Context) (stop : Nat)
    (code : (Int → Nat) → List Instruction) (e : Emitter), Drafted (symbols ++ opened) known context stop code e →
    Level opened context → last ∈ opened → symbols.length = arms.length →
    Follows (armBodies vars context.loops.length stop context.line arms) (emitArms vars last arms symbols e) fun bodies _ e' =>
      ∃ more, Drafted opened (more ++ known) (context.atLine (lastLineOfArms context.line arms))
          (stop + total (bodies.map (·.length + 2)))
          (fun goes => code goes ++ (bodies.map fun body => (armCode (goes last) body).map (context.turn goes)).flatten) e' ∧
        ∀ goes, (∀ p ∈ more, goes p.1 = p.2) → symbols.map goes = addresses stop (bodies.map (·.length + 2))

section
variable {vars}

-- These equations are made once here. The proofs below would otherwise wait for them together.
attribute [local simp] emitStatement

theorem assign_emits (line : UInt16) (span : Span) (name : String) (value : Expression) :
    StatementEmits vars (.assign line span name value) := by
  intro opened known context stop code e w level
  have w₀ := draft_changed w (·.atLine line)
  change Follows (statement ..) _ _
  rw [statement, emitStatement]
  refine follows_in_line line (follows_lift fun made _ => follows_return (emit_all_follows w₀ made) fun _ _ e₁ _ w₁ => ?_)
  exact draft_same w₁ known _ _ (List.Subset.refl _) (by simp [ops]) fun goes _ => by simp

theorem choose_emits (line : UInt16) (branches : List (Expression × List Statement)) (otherwise : List Statement)
    (branchesEmit : BranchesEmit vars branches) (otherwiseEmits : BlockEmits vars otherwise) :
    StatementEmits vars (.choose line branches otherwise) := by
  intro opened known context stop code e w level
  have w₀ := draft_changed w (·.atLine line)
  change Follows (statement ..) _ _
  rw [statement, emitStatement, ← bind_pure (choice _ _ _ _ _ _)]
  refine follows_in_line line (symbol_then w₀ fun last e₁ w₁ => ?_)
  rw [← bind_assoc]
  have level₁ := level_more opened (last :: opened) _ level (List.subset_cons_self _ _)
  have laid := branchesEmit _ _ _ otherwiseEmits last _ _ _ _ _ _ w₁ level₁ List.mem_cons_self
  refine follows_bind laid fun items _ e₂ _ emitted => ?_
  obtain ⟨code', w₂, same⟩ := emitted
  obtain ⟨e₃, placed, w₃⟩ := place_step [] opened last w₂
  rw [placed]
  refine follows_ok _ _ _ _ (draft_same w₃ known _ _ (List.subset_cons_self _ _) rfl fun goes there => ?_)
  exact same goes (there (last, _) List.mem_cons_self)

theorem select_emits (line : UInt16) (selects : Expression) (arms : List (List CaseLabel × List Statement))
    (otherwise : List Statement) (armsEmit : ArmsEmit vars arms) (otherwiseEmits : BlockEmits vars otherwise) :
    StatementEmits vars (.select line selects arms otherwise) := by
  intro opened known context stop code e w level
  have w₀ := draft_changed w (·.atLine line)
  change Follows (statement ..) _ _
  rw [statement, emitStatement]
  refine follows_in_line line (follows_lift fun f _ => ?_)
  refine emit_all_then w₀ f.code _ (Nat.le_refl _) fun e₁ w₁ => room_then _ w₁ ?_
  refine symbol_then w₁ fun last e₂ w₂ => ?_
  obtain ⟨symbols, e₃, made, count, w₃⟩ := symbols_step w₂ arms.length
  have inside : last ∈ symbols ++ last :: opened := by simp
  have level₃ := level_more opened (symbols ++ last :: opened) _ level fun s member => by simp [member]
  have level₇ := level_more opened (last :: opened) _ level (List.subset_cons_self _ _)
  refine follows_quiet made ?_
  have chosen := arm_tests_follow selects.span f.dataType w₃ symbols (List.subset_append_left _ _) arms count
  refine follows_bind chosen fun tests _ e₄ tested w₄ => ?_
  refine emit_all_then w₄ [.discard] _ (Nat.le_refl _) fun e₅ w₅ => room_then _ w₅ ?_
  have inner := otherwiseEmits _ _ _ _ _ _ w₅ level₃
  refine follows_bind inner fun elseCode _ e₆ _ w₆ => ?_
  refine emit_jump_then w₆ _ last .jump (fun _ => rfl) (.inl inside) _ (Nat.le_refl _) fun e₇ w₇ => room_then _ w₇ ?_
  have laid := armsEmit symbols last _ _ _ _ _ _ w₇ level₇ List.mem_cons_self count
  refine follows_bind laid fun bodies _ e₈ compiled emitted => ?_
  obtain ⟨more, w₈, places⟩ := emitted
  obtain ⟨e₉, placed, w₉⟩ := place_step [] opened last w₈
  rw [placed]
  have layout := case_layout stop line selects.span f arms tests elseCode _ bodies _ _ _ tested
    (arm_bodies_length vars _ _ _ arms bodies compiled) rfl rfl rfl rfl
  refine follows_ok _ _ _ _ (draft_same w₉ known _ _ (fun p member => by simp [member]) layout.whole.symm
    fun goes there => ?_)
  have behind := there (last, _) List.mem_cons_self
  have arms_ := places goes fun p member => there p (List.mem_cons_of_mem _ (List.mem_append_left _ member))
  simp only [List.length_singleton] at behind arms_
  rw [layout.parts, ← behind, ← arms_]
  simp [armCode, Function.comp_def]

theorem count_emits (line : UInt16) (span : Span) (name : String) (first last : Expression) (step : Option Expression)
    (body : List Statement) (bodyEmits : BlockEmits vars body) :
    StatementEmits vars (.count line span name first last step body) := by
  intro opened known context stop code e w level
  have w₀ := draft_changed w (·.atLine line)
  change Follows (statement ..) _ _
  rw [statement, emitStatement]
  refine follows_in_line line (follows_lift fun c _ => emit_all_then w₀ c.start _ (by omega) fun e₁ w₁ => ?_)
  refine change_then w₁ (·.hold (· + 1)) fun e₂ w₂ => symbol_then w₂ fun top e₃ w₃ => ?_
  refine symbol_then w₃ fun start e₄ w₄ => symbol_then w₄ fun exit e₅ w₅ => ?_
  refine place_then [exit, start] opened top w₅ fun e₆ w₆ => ?_
  have tests := counting_test_follows c exit w₆ start List.mem_cons_self (by simp)
  refine follows_room line _ _ (Nat.le_refl _) tests fun _ e₇ tested => ?_
  obtain ⟨test, w₇, tests_⟩ := tested
  refine place_then [exit] opened start w₇ fun e₈ w₈ => room_then _ w₈ ?_
  refine follows_bind (enter_follows w₈ exit) fun _ _ e₉ _ w₉ => ?_
  have inner := bodyEmits _ _ _ _ _ _ w₉ (level_enter _ exit List.mem_cons_self)
  refine follows_bind inner fun made _ e₁₀ _ w₁₀ => change_then w₁₀ (·.leave) fun e₁₁ w₁₁ => ?_
  have tail : (c.finish (stop + c.start.length)).length = c.advance.length + 2 := by
    rw [finish_advances, List.length_append]
    rfl
  refine emit_all_then w₁₁ c.advance _ (by omega) fun e₁₂ w₁₂ => ?_
  refine emit_jump_then w₁₂ _ top .jump (fun _ => rfl) (.inr (by simp)) _ (by omega) fun e₁₃ w₁₃ => ?_
  refine place_then [] opened exit w₁₃ fun e₁₄ w₁₄ => ?_
  refine emit_all_then w₁₄ _ _ (by simp only [List.length_singleton]; omega) fun e₁₅ w₁₅ => ?_
  refine room_then _ (draft_same w₁₅ _ _ _ (List.Subset.refl _)
    (by simp only [List.length_singleton]; omega) fun _ _ => rfl) ?_
  have w₁₆ := draft_changed w₁₅ (·.hold (· - 1))
  refine follows_ok _ () _ _ (draft_same w₁₆ known _ _ (fun p member => by simp [member]) ?_ fun goes there => ?_)
  · simp [ops, test_length]
    omega
  · have behind : goes exit = stop + c.start.length + c.testLength + made.length +
        (c.finish (stop + c.start.length)).length - 1 := by
      rw [there (exit, _) List.mem_cons_self]
      omega
    have enters := there (start, stop + c.start.length + c.testLength) (by simp)
    have front := there (top, stop + c.start.length) (by simp)
    rw [← behind]
    simp only [tests_ goes enters, front, finish_advances]
    simp [Function.comp_def]

theorem while_emits (line : UInt16) (cond : Expression) (body : List Statement) (bodyEmits : BlockEmits vars body) :
    StatementEmits vars (.while line cond body) := by
  intro opened known context stop code e w level
  have w₀ := draft_changed w (·.atLine line)
  change Follows (statement ..) _ _
  rw [statement, emitStatement]
  refine follows_in_line line (symbol_then w₀ fun top e₁ w₁ => symbol_then w₁ fun exit e₂ w₂ => ?_)
  refine place_then [exit] opened top w₂ fun e₃ w₃ => follows_lift fun test _ => ?_
  refine emit_all_then w₃ test _ (by omega) fun e₄ w₄ => ?_
  refine emit_jump_then w₄ _ exit .jumpIfFalse (fun _ => rfl) (.inl List.mem_cons_self) _ (Nat.le_refl _) fun e₅ w₅ => ?_
  refine room_then _ w₅ (follows_bind (enter_follows w₅ exit) fun _ _ e₆ _ w₆ => ?_)
  have inner := bodyEmits _ _ _ _ _ _ w₆ (level_enter _ exit List.mem_cons_self)
  refine follows_bind inner fun made _ e₇ _ w₇ => ?_
  refine change_then w₇ (·.leave) fun e₈ w₈ => ?_
  refine emit_jump_then w₈ _ top .jump (fun _ => rfl) (.inr List.mem_cons_self) _ (by simp) fun e₉ w₉ => room_then _ w₉ ?_
  obtain ⟨e₁₀, placed, w₁₀⟩ := place_step [] opened exit w₉
  rw [placed]
  refine follows_ok _ _ _ _ (draft_same w₁₀ known _ _ (by simp) ?_ fun goes there => ?_)
  · simp [ops]
    omega
  · have behind := there (exit, _) List.mem_cons_self
    have front := there (top, stop) (by simp)
    simp only at behind front
    simp [behind, front, Function.comp_def]

theorem repeat_emits (line : UInt16) (body : List Statement) (cond : Expression) (bodyEmits : BlockEmits vars body) :
    StatementEmits vars (.repeat line body cond) := by
  intro opened known context stop code e w level
  have w₀ := draft_changed w (·.atLine line)
  change Follows (statement ..) _ _
  rw [statement, emitStatement]
  refine follows_in_line line (symbol_then w₀ fun top e₁ w₁ => symbol_then w₁ fun exit e₂ w₂ => ?_)
  refine place_then [exit] opened top w₂ fun e₃ w₃ => follows_bind (enter_follows w₃ exit) fun _ _ e₄ _ w₄ => ?_
  have inner := bodyEmits _ _ _ _ _ _ w₄ (level_enter _ exit List.mem_cons_self)
  refine follows_bind inner fun made _ e₅ _ w₅ => ?_
  refine change_then w₅ (·.leave) fun e₆ w₆ => follows_lift fun test _ => ?_
  refine emit_all_then w₆ test _ (by omega) fun e₇ w₇ => ?_
  refine emit_jump_then w₇ _ top .jumpIfFalse (fun _ => rfl) (.inr List.mem_cons_self) _ (Nat.le_refl _) fun e₈ w₈ => ?_
  refine room_then _ w₈ ?_
  obtain ⟨e₉, placed, w₉⟩ := place_step [] opened exit w₈
  rw [placed]
  refine follows_ok _ _ _ _ (draft_same w₉ known _ _ (by simp) ?_ fun goes there => ?_)
  · simp [ops]
    omega
  · have behind := there (exit, _) List.mem_cons_self
    have front := there (top, stop) (by simp)
    simp only at behind front
    simp [behind, front, Function.comp_def]

theorem exit_emits (line : UInt16) (span : Span) : StatementEmits vars (.exit line span) := by
  intro opened known context stop code e w level
  have w₀ := draft_changed w (·.atLine line)
  change Follows (statement ..) _ _
  rw [statement, emitStatement]
  exact follows_in_line line (exit_follows w₀ level span _ rfl)

theorem leave_emits (line : UInt16) : StatementEmits vars (.leave line) := by
  intro opened known context stop code e w level
  have w₀ := draft_changed w (·.atLine line)
  change Follows (statement ..) _ _
  rw [statement, emitStatement]
  refine follows_in_line line (follows_return (emit_all_follows w₀ [.halt]) fun _ _ e₁ _ w₁ => ?_)
  exact draft_same w₁ known _ _ (List.Subset.refl _) rfl fun goes _ => by simp

end

mutual
theorem statement_emits (s : Statement) : StatementEmits vars s := by
  match s with
  | .assign line span name value => exact assign_emits line span name value
  | .choose line branches otherwise =>
    exact choose_emits line branches otherwise (branches_emit branches) (block_emits otherwise)
  | .select line e arms otherwise => exact select_emits line e arms otherwise (arms_emit arms) (block_emits otherwise)
  | .count line span name first last step body =>
    exact count_emits line span name first last step body (block_emits body)
  | .while line cond body => exact while_emits line cond body (block_emits body)
  | .repeat line body cond => exact repeat_emits line body cond (block_emits body)
  | .exit line span => exact exit_emits line span
  | .leave line => exact leave_emits line

theorem block_emits (body : List Statement) : BlockEmits vars body := by
  intro opened known context stop code e w level
  match body with
  | [] => exact follows_ok _ _ _ _ (draft_same w known _ _ (List.Subset.refl _) rfl fun goes _ => by simp)
  | s :: rest =>
    change Follows (block ..) _ _
    rw [block, emitBlock]
    refine follows_bind (statement_emits s _ _ _ _ _ _ w level) fun first _ e₁ _ w₁ => ?_
    have later := block_emits rest _ _ _ _ _ _ w₁ level
    refine follows_return later fun others _ e₂ _ w₂ => ?_
    exact draft_same w₂ known _ _ (List.Subset.refl _) (by simp [Nat.add_assoc]) fun goes _ => by simp

theorem branches_emit (branches : List (Expression × List Statement)) : BranchesEmit vars branches := by
  intro elseCode otherwise elseLine elseEmits last opened known context stop code e w level placed
  match branches with
  | [] =>
    rw [choice, emitBranches, pure_bind]
    exact follows_weaken (elseEmits _ _ _ _ _ _ w level) fun _ _ _ _ w' => ⟨_, w', fun _ _ => rfl⟩
  | (cond, body) :: rest =>
    rw [choice, emitBranches]
    simp only [bind_assoc]
    refine symbol_then w fun next e₁ w₁ => follows_lift fun test _ => ?_
    refine emit_all_then w₁ test _ (by omega) fun e₂ w₂ => ?_
    refine emit_jump_then w₂ _ next .jumpIfFalse (fun _ => rfl) (.inl List.mem_cons_self) _ (Nat.le_refl _) fun e₃ w₃ => ?_
    have level₁ := level_more opened (next :: opened) context level (List.subset_cons_self _ _)
    refine room_then _ w₃ (follows_bind (block_emits body _ _ _ _ _ _ w₃ level₁) fun made _ e₄ _ w₄ => ?_)
    have placed₁ : last ∈ next :: opened := List.mem_cons_of_mem next placed
    refine emit_jump_then w₄ _ last .jump (fun _ => rfl) (.inl placed₁) _ (Nat.le_refl _) fun e₅ w₅ => ?_
    refine place_then [] opened next w₅ fun e₆ w₆ => room_then _ w₅ ?_
    have w₇ := draft_same w₆ known _ (fun goes => code goes ++ test ++
        [.jumpIfFalse (stop + test.length + 1 + made.length + 1)] ++ made.map (context.turn goes) ++ [.jump (goes last)])
      (List.subset_cons_self _ _) rfl fun goes there => by
        simp [show goes next = _ from there (next, _) List.mem_cons_self]
    have later := branches_emit rest elseCode otherwise elseLine elseEmits last _ _ _ _ _ _ w₇ level placed
    refine follows_return later fun others _ e₈ _ emitted => ?_
    obtain ⟨code', w₈, same⟩ := emitted
    have length : stop + test.length + 1 + made.length + 1 + others.length = stop + (ops test ++
        [Item.op (.jumpIfFalse (stop + test.length + 1 + made.length + 1))] ++ made ++
        [Item.op (.jump (stop + test.length + 1 + made.length + 1 + others.length))] ++ others).length := by
      simp [ops]
      omega
    refine ⟨code', draft_same w₈ known _ _ (List.Subset.refl _) length fun _ _ => rfl, fun goes ends => ?_⟩
    have behind := ends.trans length.symm
    rw [same goes behind, behind]
    simp

theorem arms_emit (arms : List (List CaseLabel × List Statement)) : ArmsEmit vars arms := by
  intro symbols last opened known context stop code e w level placed count
  match arms, symbols with
  | [], [] =>
    exact follows_ok _ _ _ _ ⟨[], draft_same w known _ _ (List.Subset.refl _) rfl fun goes _ => by simp, fun _ _ => rfl⟩
  | (labels, body) :: rest, symbol :: symbols =>
    rw [armBodies, emitArms]
    refine place_then [] (symbols ++ opened) symbol w fun e₁ w₁ => emit_all_then w₁ [.discard] _ (Nat.le_refl _) fun e₂ w₂ => ?_
    have level₁ := level_more opened (symbols ++ opened) context level (List.subset_append_right _ _)
    refine room_then _ w₂ (follows_bind (block_emits body _ _ _ _ _ _ w₂ level₁) fun made _ e₃ _ w₃ => ?_)
    have placed₁ : last ∈ symbols ++ opened := List.mem_append_right symbols placed
    refine emit_jump_then w₃ _ last .jump (fun _ => rfl) (.inl placed₁) _ (by simp; omega) fun e₄ w₄ => ?_
    have w₅ := draft_same w₄ _ (stop + made.length + 2) _ (List.Subset.refl _) (by simp; omega) fun _ _ => rfl
    refine room_then _ w₅ ?_
    have later := arms_emit rest symbols last _ _ _ _ _ _ w₅ level placed (Nat.succ.inj count)
    refine follows_return later fun others _ e₆ _ emitted => ?_
    obtain ⟨more, w₆, places⟩ := emitted
    refine ⟨more ++ [(symbol, stop)], draft_same w₆ _ _ _ ?_ ?_ fun goes _ => ?_, fun goes there => ?_⟩
    · simp
    · simp
      omega
    · simp [armCode]
    · have front := there (symbol, stop) (by simp)
      have others_ := places goes fun p member => there p (List.mem_append_left _ member)
      simp only at front
      simp [front, others_, addresses, Nat.add_assoc]
end

def layOut (p : SourceProgram) : Except Fault (List Item) := do
  let items ← block vars 0 0 p.body
  checkRoom (lastLineOf 0 p.body) (items.length + 1)
  return items

theorem program_emitted (p : SourceProgram) :
    (∃ f, layOut vars p = .error f ∧ p.emit vars = .error f) ∨
      ∃ items e context, layOut vars p = .ok items ∧ p.emit vars = .ok e ∧
        Drafted [] [] context (items.length + 1) (fun _ => items.map (·.instruction) ++ [.halt]) e := by
  have body := block_emits vars p.body [] [] {} 0 _ {} draft_start nofun
  have follows : Follows (layOut vars p) ((do emitBlock vars p.body; emitAll [.halt] : Emit Unit) {}) fun items _ e =>
      ∃ context, Drafted [] [] context (items.length + 1) (fun _ => items.map (·.instruction) ++ [.halt]) e := by
    refine follows_bind body fun items _ e₁ _ w₁ => ?_
    have w₂ := draft_same w₁ [] items.length _ (List.Subset.refl _) (Nat.zero_add _) fun _ _ => rfl
    exact follows_return (emit_all_follows w₂ [.halt]) fun _ _ e₂ _ w₃ => ⟨_, w₃⟩
  have emitted : p.emit vars = ((do emitBlock vars p.body; emitAll [.halt] : Emit Unit) {}).map (·.2) := rfl
  rw [emitted]
  cases laid : layOut vars p with
  | error f =>
    rw [laid] at follows
    rw [show ((do emitBlock vars p.body; emitAll [.halt] : Emit Unit) {}) = .error f from follows]
    exact .inl ⟨f, rfl, rfl⟩
  | ok items =>
    rw [laid] at follows
    obtain ⟨_, e, made, context, w⟩ := follows
    rw [made]
    exact .inr ⟨items, e, context, rfl, rfl, w⟩

-- When all of the code is there, every symbol that a jump waits for has been placed, and every address that waits
-- for one holds a jump.
theorem emitted_jumps (p : SourceProgram) (e : Emitter) (made : p.emit vars = .ok e) (jump : PendingJump)
    (waits : jump ∈ e.labels.pending) :
    ∃ address i, e.labels.places.lookup jump.symbol = some address ∧ e.code[jump.address]? = some i ∧
      (i.retarget? address).isSome = true := by
  rcases program_emitted vars p with ⟨f, -, refused⟩ | ⟨items, e', context, -, emitted, w⟩
  · cases refused.symm.trans made
  · cases emitted.symm.trans made
    exact (draft_finish w).1 jump waits

theorem emitted_finish (p : SourceProgram) :
    (p.emit vars >>= Emitter.finish) = (layOut vars p).map fun items => items.map (·.instruction) ++ [.halt] := by
  rcases program_emitted vars p with ⟨f, laid, emitted⟩ | ⟨items, e, context, laid, emitted, w⟩
  · rw [laid, emitted]
    rfl
  · rw [laid, emitted]
    exact (draft_finish w).2

end

theorem link_compiles (p : SourceProgram) : p.link = p.compile := by
  have linked : p.link = (declareAll [] p.declarations >>= fun vars => (p.emit vars >>= Emitter.finish) >>= fun code =>
      pure { name := p.name, code, vars }) := by
    simp only [bind_assoc]
    rfl
  rw [linked, SourceProgram.compile]
  congr 1
  funext vars
  rw [emitted_finish, layOut]
  cases block vars 0 0 p.body with
  | error f => rfl
  | ok items =>
    simp only [bind, Except.bind]
    cases checkRoom (lastLineOf 0 p.body) (items.length + 1) <;> rfl

end SoftPlc.Compile
