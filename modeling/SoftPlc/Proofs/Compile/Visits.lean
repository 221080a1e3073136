import SoftPlc.Proofs.Compile.Rounds

set_option autoImplicit false

namespace SoftPlc.Compile

open Machine Evaluation

variable (b : Bytecode) (vars : List Variable) (name : String)

theorem set_again (c : Counting) (names : Names vars name c.index c.dataType) (integer : c.dataType.isInteger = true)
    (store : Store) (v : Value) :
    assign vars (assign vars store name v) name (.ofInt c.dataType (v.cast c.dataType).toInt) =
      assign vars store name v := by
  have typed := v.dataType_cast c.dataType
  have number := (v.cast c.dataType).of_int_to_int (by rw [typed, integer])
  rw [typed] at number
  rw [names.assign _ (.ofInt _ _), Value.cast_of_int_self, number, names.assign, List.set_set]

theorem body_reaches (loops front rounds outer : Nat) (turn : Item → Instruction) (turned : Turned turn loops outer)
    (exit : Nat) (body : List Statement) (code : List Item) (stack : List Value)
    (compiled : block vars (loops + 1) front body = .ok code)
    (located : Located b.code front ((code.map (·.leaveTo exit)).map turn)) (store left : Store) (m : Machine)
    (roomy : Roomy b m) (here : Stands vars front stack store m)
    (meaning : converting.block vars rounds body store = some (.next, left)) :
    ∃ k, Stands vars (front + code.length) stack left ((step b)^[k] m) := by
  have simulates := block_simulates vars rounds (loops + 1) front body code compiled
  have leads := loop_body_leads vars loops front rounds b turn outer exit code stack store m _ turned simulates located here
  rw [meaning] at leads
  exact roomy_reaches b _ m _ roomy leads

theorem count_laid (loops base : Nat) (line : UInt16) (span : Span) (first last : Expression) (by_ : Option Expression)
    (body : List Statement) (items : List Item)
    (compiled : statement vars loops base (.count line span name first last by_ body) = .ok items)
    (s : Int) (written : Written by_ s) (turn : Item → Instruction) (outer : Nat) (turned : Turned turn loops outer)
    (located : Located b.code base (items.map turn)) :
    ∃ c top code, Counts vars name by_ c ∧ bound vars c.dataType first = .ok c.first ∧
      bound vars c.dataType last = .ok c.last ∧ top = base + c.start.length ∧
      block vars (loops + 1) (top + 4) body = .ok code ∧ top + 4 + code.length + 6 = base + items.length ∧
      Located b.code base c.start ∧ Laid b vars name s c top (top + 4 + code.length) ∧
      Located b.code (top + 4) ((code.map (·.leaveTo (top + 4 + code.length + 5))).map turn) := by
  obtain ⟨c, code, top, front, exit, countingOk, topAt, rfl, codeOk, exitAt, laid⟩ :=
    count_statement_ok vars loops base line span name first last by_ body items compiled
  obtain ⟨counts, firstOk, lastOk⟩ := counting_counts vars span name first last by_ c countingOk
  obtain ⟨literal, known⟩ := written_counting vars span name first last by_ s c countingOk written
  have four := (test_known c top exit _ known).2
  have six : (c.finish top).length = 6 := by
    rw [Counting.finish, literal]
    rfl
  obtain ⟨stop, starting, testing, inside, finishing⟩ := counting_parts loops base b turn outer turned c code items top
    _ exit topAt rfl exitAt laid located
  rw [six] at exitAt
  rw [four] at codeOk exitAt inside finishing
  have leaving : exit = top + 4 + code.length + 5 := by omega
  have length : top + 4 + code.length + 6 = base + items.length := by omega
  rw [leaving] at testing inside
  exact ⟨c, top, code, counts, firstOk, lastOk, topAt, codeOk, length, starting,
    ⟨counts.names, counts.integer, literal, known, testing, finishing⟩, inside⟩

-- The body is run for the numbers of the range, in order, each once. But the loop is only left by a number beyond the
-- limit, and near the end of a type there may be none: then the variable wraps, and the body is entered once more.
theorem counting_loop_visits_range (loops base rounds : Nat) (line : UInt16) (span : Span) (first last : Expression)
    (by_ : Option Expression) (body : List Statement) (items : List Item)
    (compiled : statement vars loops base (.count line span name first last by_ body) = .ok items)
    (s : Int) (written : Written by_ s) (moves : s ≠ 0) (stride : (typeOf vars name).Holds s)
    (spares : BlockSpares name body) (turn : Item → Instruction) (outer : Nat)
    (turned : Turned turn loops outer) (located : Located b.code base (items.map turn)) (stack : List Value)
    (store left : Store) (m : Machine) (here : Stands vars base stack store m) (roomy : Roomy b m) (v w : Value)
    (low : converting.expression vars store first = .ok v)
    (high : converting.expression vars (assign vars store name v) last = .ok w) :
    let t := typeOf vars name
    let range := visits (v.cast t).toInt (w.cast t).toInt s
    let next := behind (v.cast t).toInt (w.cast t).toInt s
    let meaning := converting.block vars rounds body
    unrolled vars name meaning range (assign vars store name v) = some (.next, left) →
    ∃ (front : Nat) (code : List Item) (limit : Value) (k : Nat) (m' : Machine),
      block vars (loops + 1) front body = .ok code ∧ front + code.length + 6 = base + items.length ∧
      Rounds b vars name front (front + code.length) (limit :: stack) meaning range ((step b)^[k] m) m' ∧
      (t.Holds next → ((step b)^[5] m').At (base + items.length) stack (assign vars left name (.ofInt t next))) ∧
      (¬ t.Holds next → ((step b)^[4] m').At front (limit :: stack) (assign vars left name (.ofInt t next))) := by
  obtain ⟨c, top, code, counts, firstOk, lastOk, topAt, codeOk, length, starting, laid, inside⟩ :=
    count_laid b vars name loops base line span first last by_ body items compiled s written turn outer turned located
  rw [counts.names.typeOf] at stride ⊢
  intro t range next meaning ended
  let limit := w.cast t
  have limitTyped : limit.dataType = t := w.dataType_cast t
  have start := v.holds_cast t counts.integer
  have stop := w.holds_cast t counts.integer
  have leads := start_leads b vars name first last by_ c base stack store m v w counts firstOk lastOk starting here low high
  rw [← topAt] at leads
  obtain ⟨k, started⟩ := roomy_reaches b 0 m _ roomy leads
  have passes (store left : Store) (m : Machine) (roomy : Roomy b m)
      (here : Stands vars (top + 4) (limit :: stack) store m) (ran : meaning store = some (.next, left)) :=
    body_reaches b vars loops (top + 4) rounds outer turn turned _ body code (limit :: stack) codeOk inside store left m
      roomy here ran
  have again := set_again vars name c counts.names counts.integer store v
  obtain ⟨m', visited, roomy', fits, stands⟩ := rounds_made b vars name s c top (top + 4 + code.length) laid limit
    limitTyped stack meaning (block_keeps converting vars name rounds body spares) passes moves stride _ _ left _
    (roomy_later b m roomy k) (fun _ => start) (again.symm ▸ started) started.2 ended
  obtain ⟨set, there, _, _⟩ := set_number b vars name s c top (top + 4 + code.length) laid left fits next
  have side := behind_within_iff (v.cast t).toInt limit.toInt s t counts.integer stride stop start moves
  have arrived := stands.1
  rw [set] at arrived ⊢
  refine ⟨top + 4, code, limit, k, m', codeOk, length, visited, fun held => ?_, fun out => ?_⟩
  · have beyond : ¬ Within s limit.toInt (Value.ofInt t next).toInt := fun within => side.mp within held
    rw [← length]
    exact leave_steps b vars name s c top _ laid limit limitTyped stack next left m' roomy' arrived there beyond
  · have tested := test_steps b c s m' limit stack _ counts.integer roomy' top _ _ laid.known laid.test arrived there
      limitTyped
      (Value.dataType_ofInt t next)
    rwa [if_pos (side.mpr out)] at tested

def countdownBody : List Statement := [.assign 1 ⟨0, 0⟩ "N" (.binary ⟨0, 0⟩ .add (.named ⟨0, 0⟩ "N") (.named ⟨0, 0⟩ "I"))]

def countdownVariables : List Variable :=
  [{ name := "I", dataType := .int, variableClass := .ordinary, exported := false, initial := .int 0 },
    { name := "N", dataType := .int, variableClass := .ordinary, exported := false, initial := .int 0 }]

def countdownItems : List Item :=
  ops [.push (.int 9), .store 0, .push (.int 0), .duplicate, .load 0, .binary .lessEqual .int, .jumpIfFalse 16,
    .load 1, .load 0, .binary .add .int, .store 1, .load 0, .push (.int (-3)), .binary .add .int, .store 0, .jump 3,
    .discard]

theorem countdown_visits_range :
    ∃ b, compile "VAR i, n : INT; END_VAR FOR i := 9 TO 0 BY -3 DO n := n + i; END_FOR" = .ok b ∧
      ∃ front code limit k m', block b.vars 1 front countdownBody = .ok code ∧
        Rounds b b.vars "I" front (front + code.length) [limit] (converting.block b.vars 0 countdownBody) [9, 6, 3, 0]
          ((step b)^[k] (start b [])) m' ∧
        ((step b)^[5] m').At 17 [] [.int (-3), .int 18] := by
  obtain ⟨b, compiled, table, code, stopped, room⟩ := accepted_with
    "VAR i, n : INT; END_VAR FOR i := 9 TO 0 BY -3 DO n := n + i; END_FOR"
    (fun b => b.vars = countdownVariables ∧ b.code = countdownItems.map Item.instruction ++ [.halt] ∧
      ((step b)^[80] (start b [])).isRunning = false ∧ ¬ ((step b)^[80] (start b [])).hasFault .stackOverflow)
    (by decide +kernel)
  have turned : Turned Item.instruction 0 0 := ⟨fun _ => rfl, fun inside => absurd inside (by omega)⟩
  have located : Located b.code 0 (countdownItems.map Item.instruction) := by
    rw [code]
    exact List.prefix_append _ _
  have begun : (start b []).vars = [.int 0, .int 0] := by
    rw [start, Bytecode.initialValues, table]
    rfl
  have here : Stands b.vars 0 [] [.int 0, .int 0] (start b []) := by
    refine ⟨⟨rfl, rfl, rfl, begun⟩, ?_⟩
    rw [table]
    rfl
  have roomy := roomy_of_stopped b (start b []) 80 stopped room
  rw [table] at here
  obtain ⟨front, body, limit, k, m', bodyOk, length, rounds, leaves, _⟩ := counting_loop_visits_range b countdownVariables
    "I" 0 0 0 1 ⟨0, 0⟩ (.integer ⟨0, 0⟩ 9) (.integer ⟨0, 0⟩ 0) (some (.negation ⟨0, 0⟩ (.integer ⟨0, 0⟩ 3)))
    countdownBody countdownItems (by rfl) (-3) rfl (by decide) (by decide) ⟨show "N" ≠ "I" by decide, trivial⟩
    Item.instruction 0 turned located [] [.int 0, .int 0] [.int 0, .int 18] (start b []) here roomy (.int 9) (.int 0) rfl rfl
    (by rfl)
  refine ⟨b, compiled, front, body, limit, k, m', ?_, ?_, ?_⟩
  · rw [table]
    exact bodyOk
  · rw [table]
    exact rounds
  · exact leaves (by decide)

-- The range is the last number of the type alone. Behind it the body is entered with the first one.
theorem last_number_is_passed :
    visits 32767 32767 1 = [32767] ∧
    ∃ b, compile "VAR i, n : INT; END_VAR FOR i := 32767 TO 32767 BY 1 DO n := n + 1; END_FOR" = .ok b ∧
      b.code[7]? = some (.load 1) ∧
      ((step b)^[7] (start b [])).At 7 [.int 32767] [.int 32767, .int 0] ∧
      ((step b)^[20] (start b [])).At 7 [.int 32767] [.int (-32768), .int 1] := by
  refine ⟨rfl, ?_⟩
  obtain ⟨b, compiled, code, entered, again⟩ := accepted_with
    "VAR i, n : INT; END_VAR FOR i := 32767 TO 32767 BY 1 DO n := n + 1; END_FOR"
    (fun b => b.code[7]? = some (.load 1) ∧
      (step b)^[7] (start b []) =
        { pc := 7, stack := [.int 32767], vars := [.int 32767, .int 0], steps := 7 } ∧
      (step b)^[20] (start b []) =
        { pc := 7, stack := [.int 32767], vars := [.int (-32768), .int 1], steps := 20 })
    (by decide +kernel)
  exact ⟨b, compiled, code, by rw [entered]; exact ⟨rfl, rfl, rfl, rfl⟩, by rw [again]; exact ⟨rfl, rfl, rfl, rfl⟩⟩

end SoftPlc.Compile
