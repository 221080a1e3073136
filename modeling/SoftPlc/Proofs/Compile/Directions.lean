import SoftPlc.Proofs.Compile.StepForms

set_option autoImplicit false

namespace SoftPlc.Compile

open Machine Evaluation Instruction

def Counting.circuit (c : Counting) (base length : Nat) : Circuit :=
  ⟨base + c.start.length, base + c.start.length + c.testLength, base + length⟩

def Counting.byVariable (c : Counting) (index : Nat) : Counting := { c with step := [.load index], down := none }

variable (vars : List Variable)

theorem unset_not_stored (loops base : Nat) (body : List Statement) (items : List Item)
    (compiled : block vars loops base body = .ok items) (name : String) (index : Nat) (x : Variable)
    (named : Variable.lookup? name vars = some (index, x))
    (unset : ∀ inner ∈ Statement.nestedOf body, inner.sets ≠ some name) : .op (.store index) ∉ items := by
  intro member
  obtain ⟨inner, listed, other, y, sets, found, _⟩ := store_set_block vars loops base body items compiled index member
  by_cases same : other = name
  · exact unset inner listed (same ▸ sets)
  · exact lookup_apart vars name other index index y x same found named rfl

theorem initial_of_literal (literal : Expression) (n : Int) (written : Written (some literal) n) (d : Declaration)
    (given : d.initializer = some literal) (integer : d.dataType.isInteger = true) (w : Value)
    (initial : initialValue d = .ok w) : w = .ofInt d.dataType n := by
  have converted (span : Span) (v : Value) (found : integerLiteral n span = .ok v) : v.cast d.dataType = .ofInt d.dataType n := by
    obtain ⟨number, whole⟩ := narrowest_number n v (literal_ok n span v found)
    rw [v.cast_of_int whole d.dataType integer, number]
  simp only [initialValue, given, bind_ok, refuse_ok] at initial
  obtain ⟨v, constant, _, done⟩ := initial
  cases done
  cases literal with
  | integer span k =>
    cases written
    exact converted span v constant
  | negation span operand =>
    cases operand with
    | integer _ k =>
      cases written
      exact converted span v constant
    | _ => exact written.elim
  | _ => exact written.elim

theorem counting_by_variable (span place : Span) (name other : String) (first last literal : Expression) (c c' : Counting)
    (index : Nat) (x : Variable) (compiled : counting vars span name first last (some literal) = .ok c)
    (compiled' : counting vars span name first last (some (.named place other)) = .ok c')
    (named : Variable.lookup? other vars = some (index, x)) (typed : x.dataType = c.dataType) :
    c' = c.byVariable index := by
  obtain ⟨found, _, firstOk, lastOk, _⟩ := counting_ok vars span name first last _ c compiled
  obtain ⟨found', _, firstOk', lastOk', stepOk, unknown⟩ := counting_ok vars span name first last _ c' compiled'
  obtain ⟨i, t, starts, ends, step, down⟩ := c
  obtain ⟨i', t', starts', ends', step', down'⟩ := c'
  cases found.symm.trans found'
  cases firstOk.symm.trans firstOk'
  cases lastOk.symm.trans lastOk'
  cases unknown
  obtain ⟨f, fragment, _, code⟩ := bound_ok vars t _ step' stepOk
  simp only [expression, lookup, named] at fragment
  cases fragment
  rw [Fragment.castTo, if_pos typed] at code
  cases code
  rfl

theorem leaving_not_exit (items : List Item) (exit : Nat) : .exit ∉ items.map (·.leaveTo exit) := by
  intro member
  obtain ⟨item, _, same⟩ := List.mem_map.mp member
  cases item <;> cases same

theorem bodies_alike (b b' : Bytecode) (loops front front' index : Nat) (body : List Statement)
    (code code' : List Item) (compiled : block vars loops front body = .ok code)
    (compiled' : block vars loops front' body = .ok code') (unstored : .op (.store index) ∉ code)
    (turn turn' : Item → Instruction) (turned : ∀ i, turn (.op i) = i) (turned' : ∀ i, turn' (.op i) = i)
    (inside : Located b.code front ((code.map (·.leaveTo (front + code.length + 5))).map turn))
    (inside' : Located b'.code front' ((code'.map (·.leaveTo (front' + code.length + 5))).map turn')) :
    ∀ d < code.length, ∃ i i', b.code[front + d]? = some i ∧ b'.code[front' + d]? = some i' ∧
      Moves front front' (code.length + 5) i i' ∧ i ≠ .store index := by
  intro d within
  have moved := block_moved vars loops front front' body code code' compiled compiled'
  have same := moved_length moved
  have leaving : Moved front front' (code.length + 5) (code.map (·.leaveTo (front + code.length + 5)))
      (code'.map (·.leaveTo (front' + code.length + 5))) :=
    moved_leave (moved_part 0 moved rfl rfl (by omega)) ⟨by omega, by omega, by omega⟩
  have here : d < (code.map (·.leaveTo (front + code.length + 5))).length := by simpa using within
  have here' : d < (code'.map (·.leaveTo (front' + code.length + 5))).length := by simpa [← same] using within
  have fetch := located_get _ _ _ inside d (by simpa using within)
  have fetch' := located_get _ _ _ inside' d (by simpa [← same] using within)
  have moves := leaving.get here here'
  have member := List.getElem_mem here
  rw [List.getElem_map] at fetch fetch'
  rw [List.get_eq_getElem, List.get_eq_getElem] at moves
  generalize (code.map (·.leaveTo (front + code.length + 5)))[d] = item at *
  generalize (code'.map (·.leaveTo (front' + code.length + 5)))[d] = item' at *
  cases moves with
  | exit => exact absurd member (leaving_not_exit code _)
  | op i i' moves =>
    rw [turned] at fetch
    rw [turned'] at fetch'
    refine ⟨i, i', fetch, fetch', moves, ?_⟩
    intro stored
    subst stored
    exact unstored (store_of_leaving index _ code member)

structure Stepped (name : String) (literal : Expression) (n : Int) (d : Declaration) (index : Nat) (x : Variable) :
    Prop where
  written : Written (some literal) n
  given : d.initializer = some literal
  declared : ∃ before, declare before d = .ok x
  named : Variable.lookup? d.name vars = some (index, x)
  apart : name ≠ d.name

section
variable (b b' : Bytecode) (span place : Span) (name : String) (first last literal : Expression) (n : Int) (d : Declaration)
  (index : Nat) (x : Variable) (stepped : Stepped vars name literal n d index x)
include stepped

theorem stepped_initial (integer : x.dataType.isInteger = true) : x.initial = .ofInt x.dataType n := by
  obtain ⟨before, declared⟩ := stepped.declared
  simp only [declare, bind_ok, refuse_ok] at declared
  obtain ⟨_, _, w, initial, done⟩ := declared
  cases done
  exact initial_of_literal literal n stepped.written d stepped.given integer w initial

theorem starts_alike (step : Option Expression) (c : Counting) (compiled : counting vars span name first last step = .ok c) :
    c.index ≠ index ∧ ∀ i ∈ c.start, i.Straight ∧ i ≠ .store index := by
  obtain ⟨y, found, _, _⟩ := target_ok vars name span _ _ (counting_ok vars span name first last step c compiled).1
  have apart := lookup_apart vars d.name name c.index index y x stepped.apart found stepped.named
  obtain ⟨inFirst, inLast, _⟩ := counting_computing vars span name first last step c compiled
  have computing (code : List Instruction) (all : AllComputing code) (i : Instruction) (member : i ∈ code) :
      i.Straight ∧ i ≠ .store index :=
    ⟨computing_straight i (all i member), fun same => by
      subst same
      exact all _ member⟩
  refine ⟨apart, fun i member => ?_⟩
  simp only [Counting.start, List.mem_append, List.mem_singleton] at member
  rcases member with (starts | rfl) | ends
  · exact computing c.first inFirst i starts
  · exact ⟨trivial, fun same => apart (Instruction.store.inj same)⟩
  · exact computing c.last inLast i ends

theorem loops_alike (loops base base' : Nat) (line : UInt16) (body : List Statement) (items items' : List Item)
    (compiled : statement vars loops base (.count line span name first last (some literal) body) = .ok items)
    (compiled' : statement vars loops base' (.count line span name first last (some (.named place d.name)) body) = .ok items')
    (unset : ∀ inner ∈ Statement.nestedOf body, inner.sets ≠ some d.name)
    (turn turn' : Item → Instruction) (outer outer' : Nat) (turned : Turned turn loops outer)
    (turned' : Turned turn' loops outer') (located : Located b.code base (items.map turn))
    (located' : Located b'.code base' (items'.map turn'))
    (c : Counting) (counted : counting vars span name first last (some literal) = .ok c) (typed : x.dataType = c.dataType)
    (signs : n < 0 ↔ x.initial.toInt < 0) :
    ∃ body, Versions b b' c index x.initial (decide (n < 0)) base base' (base + c.start.length) (base' + c.start.length) body ∧
      c.circuit base items.length = literalLoop (base + c.start.length) body ∧
      (c.byVariable index).circuit base' items'.length = variableLoop (base' + c.start.length) body := by
  obtain ⟨c₁, code, top, front, exit, made, topAt, inner, codeOk, exitAt, laid⟩ :=
    count_statement_ok vars loops base line span name first last _ body items compiled
  obtain ⟨c', code', top', front', exit', made', topAt', inner', codeOk', exitAt', laid'⟩ :=
    count_statement_ok vars loops base' line span name first last _ body items' compiled'
  cases counted.symm.trans made
  obtain rfl := counting_by_variable vars span place name d.name first last literal c c' index x made made' stepped.named typed
  have integer := (counting_ok vars span name first last _ c made).2.1
  obtain ⟨step, known⟩ := written_counting vars span name first last _ n c made stepped.written
  obtain ⟨compares, four⟩ := test_known c top exit _ known
  obtain ⟨signing, long⟩ := test_unknown (c.byVariable index) top' exit' rfl
  have thirteen : (c.byVariable index).testLength = 13 := long
  have initial := stepped_initial vars name literal n d index x stepped (typed ▸ integer)
  obtain ⟨apart, straight⟩ := starts_alike vars span name first last literal n d index x stepped _ c made
  have unstored := unset_not_stored vars (loops + 1) front body code codeOk d.name index x stepped.named unset
  have same := moved_length (block_moved vars (loops + 1) front front' body code code' codeOk codeOk')
  obtain ⟨stop, starting, testing, inside, finishing⟩ := counting_parts loops base b turn outer turned c code items top
    front exit topAt inner exitAt laid located
  obtain ⟨stop', starting', testing', inside', finishing'⟩ := counting_parts loops base' b' turn' outer' turned' _ code' items'
    top' front' exit' topAt' inner' exitAt' laid' located'
  have six : (c.finish top).length = 6 := by
    rw [Counting.finish, step]
    rfl
  have six' : ((c.byVariable index).finish top').length = 6 := rfl
  rw [four] at inner
  rw [thirteen] at inner'
  have behind : exit = front + code.length + 5 := by omega
  have behind' : exit' = front' + code.length + 5 := by omega
  subst behind behind'
  have alike := bodies_alike vars b b' (loops + 1) front front' index body code code' codeOk codeOk' unstored turn turn'
    turned.op turned'.op inside inside'
  subst inner inner' topAt topAt'
  rw [compares] at testing
  rw [signing, thirteen] at testing'
  obtain ⟨sign, testing'⟩ := (located_append _ _ _ _).mp testing'
  obtain ⟨branch, testing'⟩ := (located_append _ _ _ _).mp testing'
  obtain ⟨up, testing'⟩ := (located_append _ _ _ _).mp testing'
  obtain ⟨skip, falls⟩ := (located_append _ _ _ _).mp testing'
  have whole := (located_append _ _ _ _).mpr ⟨sign, branch⟩
  rw [Counting.finish, step] at finishing
  rw [← same] at finishing'
  refine ⟨code.length, ?_, ?_, ?_⟩
  · exact {
      topAt := rfl, topAt' := rfl, starts := starting, starts' := starting', straight
      test := testing
      sign := whole
      up
      skip := (located_singleton _ _ _).mp skip
      falls
      inside := alike
      finish := by
        rw [initial, typed]
        exact finishing
      finish' := finishing'
      apart
      typed := by rw [initial, Value.dataType_ofInt, typed]
      integer
      direction := decide_eq_decide.mpr signs.symm }
  · rw [Counting.circuit, literalLoop, four, stop]
    rfl
  · rw [Counting.circuit, variableLoop, thirteen, stop']
    rfl

-- The two loops are entered with the same variables as often as each other, and end in the same way.
theorem literal_step_agrees_with_variable (loops base base' : Nat) (line : UInt16) (body : List Statement)
    (items items' : List Item)
    (compiled : statement vars loops base (.count line span name first last (some literal) body) = .ok items)
    (compiled' : statement vars loops base' (.count line span name first last (some (.named place d.name)) body) = .ok items')
    (unset : ∀ inner ∈ Statement.nestedOf body, inner.sets ≠ some d.name)
    (counter : Variable) (i : Nat) (counts : Variable.lookup? name vars = some (i, counter))
    (typed : x.dataType = counter.dataType) (signs : n < 0 ↔ x.initial.toInt < 0)
    (turn turn' : Item → Instruction) (outer outer' : Nat) (turned : Turned turn loops outer)
    (turned' : Turned turn' loops outer') (located : Located b.code base (items.map turn))
    (located' : Located b'.code base' (items'.map turn')) (stack store : List Value) (m m' : Machine)
    (here : StandAlike base base' stack store m m') (fits : Fits vars store) (value : store[index]? = some x.initial) :
    ∃ c c', counting vars span name first last (some literal) = .ok c ∧
      counting vars span name first last (some (.named place d.name)) = .ok c' ∧
      ShowSame b (c.circuit base items.length) b' (c'.circuit base' items'.length) m m' := by
  obtain ⟨c, _, _, _, _, counted, _⟩ := count_statement_ok vars loops base line span name first last _ body items compiled
  obtain ⟨c', _, _, _, _, counted', _⟩ := count_statement_ok vars loops base' line span name first last _ body items' compiled'
  obtain ⟨y, found, _, kind⟩ := target_ok vars name span _ _ (counting_ok vars span name first last _ c counted).1
  cases counts.symm.trans found
  rw [← kind] at typed
  obtain rfl := counting_by_variable vars span place name d.name first last literal c c' index x counted counted'
    stepped.named typed
  obtain ⟨length, versions, circuit, circuit'⟩ := loops_alike vars b b' span place name first last literal n d index x stepped
    loops base base' line body items items' compiled compiled' unset turn turn' outer outer' turned turned' located located' c
    counted typed signs
  have keeping : Keeping c index x.initial store := by
    obtain ⟨old, there, _⟩ := fits_get vars store c.index counter fits (lookup_index vars name c.index counter counts)
    exact ⟨value, (List.getElem?_eq_some_iff.mp there).1⟩
  refine ⟨c, c.byVariable index, counted, counted', ?_⟩
  rw [circuit, circuit']
  exact versions_show_same b b' c index x.initial (decide (n < 0)) base base' _ _ length versions stack store m m' here keeping

end

def stepVariables : List Variable :=
  [⟨"I", .int, .ordinary, false, .int 0⟩, ⟨"N", .int, .ordinary, false, .int 0⟩, ⟨"V", .int, .ordinary, false, .int (-3)⟩]

def summingBody : List Statement := [.assign 1 ⟨0, 0⟩ "N" (.binary ⟨0, 0⟩ .add (.named ⟨0, 0⟩ "N") (.named ⟨0, 0⟩ "I"))]

def literalItems : List Item :=
  ops [.push (.int 5), .store 0, .push (.int 0), .duplicate, .load 0, .binary .lessEqual .int, .jumpIfFalse 16,
    .load 1, .load 0, .binary .add .int, .store 1, .load 0, .push (.int (-3)), .binary .add .int, .store 0, .jump 3,
    .discard]

def variableItems : List Item :=
  ops [.push (.int 5), .store 0, .push (.int 0), .load 2, .push (.int 0), .binary .less .int, .jumpIfTrue 12,
    .duplicate, .load 0, .binary .greaterEqual .int, .jumpIfFalse 25, .jump 16,
    .duplicate, .load 0, .binary .lessEqual .int, .jumpIfFalse 25,
    .load 1, .load 0, .binary .add .int, .store 1, .load 0, .load 2, .binary .add .int, .store 0, .jump 3, .discard]

theorem steps_down_by_three_agree :
    ∃ b b', compile "VAR i, n : INT; v : INT := -3; END_VAR FOR i := 5 TO 0 BY -3 DO n := n + i; END_FOR" = .ok b ∧
      compile "VAR i, n : INT; v : INT := -3; END_VAR FOR i := 5 TO 0 BY v DO n := n + i; END_FOR" = .ok b' ∧
      ShowSame b ⟨3, 7, 17⟩ b' ⟨3, 16, 26⟩ (start b []) (start b' []) := by
  obtain ⟨b, compiled, table, code⟩ := accepted_with
    "VAR i, n : INT; v : INT := -3; END_VAR FOR i := 5 TO 0 BY -3 DO n := n + i; END_FOR"
    (fun b => b.vars = stepVariables ∧ b.code = literalItems.map Item.instruction ++ [.halt])
    (by decide +kernel)
  obtain ⟨b', compiled', table', code'⟩ := accepted_with
    "VAR i, n : INT; v : INT := -3; END_VAR FOR i := 5 TO 0 BY v DO n := n + i; END_FOR"
    (fun b => b.vars = stepVariables ∧ b.code = variableItems.map Item.instruction ++ [.halt])
    (by decide +kernel)
  have turned : Turned Item.instruction 0 0 := ⟨fun _ => rfl, fun inside => absurd inside (by omega)⟩
  have located (b : Bytecode) (items : List Item) (code : b.code = items.map Item.instruction ++ [.halt]) :
      Located b.code 0 (items.map Item.instruction) := by
    rw [code]
    exact List.prefix_append _ _
  have begun (b : Bytecode) (table : b.vars = stepVariables) : (start b []).At 0 [] [.int 0, .int 0, .int (-3)] := by
    refine ⟨rfl, rfl, rfl, ?_⟩
    rw [start, Bytecode.initialValues, table]
    rfl
  have three : Stepped stepVariables "I" (.negation ⟨0, 0⟩ (.integer ⟨0, 0⟩ 3)) (-3)
      { line := 1, span := ⟨0, 0⟩, name := "V", dataType := .int, variableClass := .ordinary, exported := false,
        initializer := some (.negation ⟨0, 0⟩ (.integer ⟨0, 0⟩ 3)) } 2 ⟨"V", .int, .ordinary, false, .int (-3)⟩ :=
    ⟨rfl, rfl, ⟨[], rfl⟩, rfl, by decide⟩
  obtain ⟨c, c', counted, counted', same⟩ := literal_step_agrees_with_variable stepVariables b b' ⟨0, 0⟩ ⟨0, 0⟩ "I"
    (.integer ⟨0, 0⟩ 5) (.integer ⟨0, 0⟩ 0) _ (-3) _ 2 _ three 0 0 0 1 summingBody literalItems variableItems (by rfl) (by rfl)
    (by decide) ⟨"I", .int, .ordinary, false, .int 0⟩ 0 rfl rfl (by decide) Item.instruction Item.instruction 0 0 turned turned
    (located b literalItems code) (located b' variableItems code') [] _ (start b []) (start b' [])
    ⟨begun b table, begun b' table'⟩ (by rfl) rfl
  cases counted
  cases counted'
  exact ⟨b, b', compiled, compiled', same⟩

-- A literal that is negative in the type of the variable only: the loop by it runs upward, as 40000 is, and the
-- loop by a variable downward, as -25536 is.
theorem step_loses_its_sign :
    (∃ b, compile "VAR i, c : INT; v : INT := 40000; END_VAR FOR i := 0 TO 10 BY 40000 DO c := c + 1; END_FOR" = .ok b ∧
      ((start b []).run b 10000).halted = true ∧
      ((start b []).run b 10000).vars = [.int 14464, .int 2, .int (-25536)]) ∧
    ∃ b, compile "VAR i, c : INT; v : INT := 40000; END_VAR FOR i := 0 TO 10 BY v DO c := c + 1; END_FOR" = .ok b ∧
      ((start b []).run b 10000).halted = true ∧
      ((start b []).run b 10000).vars = [.int 0, .int 0, .int (-25536)] :=
  ⟨accepted_with _ _ (by decide +kernel), accepted_with _ _ (by decide +kernel)⟩

end SoftPlc.Compile
