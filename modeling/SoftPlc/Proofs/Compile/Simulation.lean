import SoftPlc.Proofs.Compile.Counting

set_option autoImplicit false

namespace SoftPlc.Compile

open Machine Evaluation

-- How the items of a part stand in the finished code: instructions as they are, and an EXIT as
-- the jump behind the loop around it.
structure Turned (turn : Item → Instruction) (loops exit : Nat) : Prop where
  op : ∀ i, turn (.op i) = i
  exit : 0 < loops → turn .exit = .jump exit

theorem turned_ops (turn : Item → Instruction) (loops exit : Nat) (turned : Turned turn loops exit)
    (code : List Instruction) : (ops code).map turn = code := by
  rw [ops, List.map_map]
  exact (List.map_congr_left (fun i _ => turned.op i)).trans (List.map_id code)

theorem turned_leave (turn : Item → Instruction) (loops outer exit : Nat) (turned : Turned turn loops outer) :
    Turned (turn ∘ Item.leaveTo exit) (loops + 1) exit :=
  ⟨turned.op, fun _ => turned.op _⟩

def Exits (vars : List Variable) (loops exit : Nat) (stack : List Value) : Place :=
  fun store m => 0 < loops ∧ Stands vars exit stack store m

def Simulates (vars : List Variable) (loops base rounds : Nat) (items : List Item) (meaning : Store → Result) : Prop :=
  ∀ (b : Bytecode) (turn : Item → Instruction) (exit : Nat) (stack : List Value) (store : Store) (m : Machine),
    Turned turn loops exit → Located b.code base (items.map turn) → Stands vars base stack store m →
      Leads b (least 0 rounds (meaning store)) m
        (Ends (Stands vars (base + items.length) stack) (Exits vars loops exit stack) (meaning store))

variable (vars : List Variable) (loops base rounds : Nat)

theorem nothing_simulates : Simulates vars loops base rounds [] (fun store => some (.next, store)) := by
  intro b turn exit stack store m _ _ here
  exact leads_now b m _ here

theorem sequence_simulates (first others : List Item) (meaning rest : Store → Result)
    (front : Simulates vars loops base rounds first meaning)
    (back : Simulates vars loops (base + first.length) rounds others rest) :
    Simulates vars loops base rounds (first ++ others) (fun store => andThen (meaning store) rest) := by
  intro b turn exit stack store m turned located here
  rw [List.map_append] at located
  obtain ⟨locatedFirst, locatedOthers⟩ := (located_append _ _ _ _).mp located
  rw [List.length_map] at locatedOthers
  refine leads_and_then b 0 rounds _ _ _ _ _ m
    (front b turn exit stack store m turned locatedFirst here) ?_
  intro store' m' here'
  rw [List.length_append, ← Nat.add_assoc]
  exact back b turn exit stack store' m' turned locatedOthers here'

theorem exit_simulates (inside : 0 < loops) :
    Simulates vars loops base rounds [.exit] (fun store => some (.exit, store)) := by
  intro b turn exit stack store m turned located here
  have fetch := (located_singleton _ _ _).mp located
  rw [turned.exit inside] at fetch
  refine leads_weaken b 0 m _ _ ?_ (leads_less b 0 1 m _ (by omega) (leads_jump b m base exit stack store here.1 fetch))
  intro m' here'
  exact ⟨inside, here', here.2⟩

theorem leave_simulates :
    Simulates vars loops base rounds [.op .halt] (fun store => some (.leave, store)) := by
  intro b turn exit stack store m turned located here
  have fetch := (located_singleton _ _ _).mp located
  rw [turned.op] at fetch
  exact leads_less b 0 1 m _ (by omega) (leads_halt b m base stack store here.1 fetch)

theorem assign_simulates (name : String) (index : Nat) (t : DataType) (f : Fragment) (value : Expression)
    (names : Names vars name index t) (compiled : expression vars value = .ok f) :
    Simulates vars loops base rounds (ops ((f.castTo t).code ++ [.store index])) (fun store =>
      given store (converting.expression vars store value) fun v => some (.next, assign vars store name v)) := by
  intro b turn exit stack store m turned located here
  rw [turned_ops turn loops exit turned] at located
  obtain ⟨front, back⟩ := (located_append _ _ _ _).mp located
  have computes := computes_cast store f _ t (expression_computes vars store value f here.2 compiled)
  have computed := computes.runs b m base stack front here.1
  refine leads_given b 0 rounds _ stack store _ _ _ (·.cast t) _ m computed ?_ (by omega)
  intro v m' _ here'
  have stored := leads_assign b vars m' _ index name t v stack store names here.2 here'
    ((located_singleton _ _ _).mp back)
  simp only [ops, List.length_map, List.length_append, List.length_singleton, ← Nat.add_assoc]
  exact leads_less b 0 1 m' _ (by omega) stored

theorem expression_leads (b : Bytecode) (through : Nat) (e : Expression) (f : Fragment)
    (stack : List Value) (store : Store) (m : Machine) (next exit : Place) (rest : Value → Result)
    (compiled : expression vars e = .ok f) (located : Located b.code base f.code)
    (here : Stands vars base stack store m)
    (follows : ∀ v m, v.dataType = f.dataType → m.At (base + f.code.length) (v :: stack) store →
      Leads b (least 0 rounds (rest v)) m (Ends next exit (rest v))) (less : through ≤ 1) :
    let result := given store (converting.expression vars store e) rest
    Leads b (least through rounds result) m (Ends next exit result) := by
  have computes := expression_computes vars store e f here.2 compiled
  have computed := computes.runs b m base stack located here.1
  rw [← delivers_cast f.dataType _ computes.delivers] at computed
  refine leads_given b through rounds _ stack store _ _ _ (·.cast f.dataType) _ m computed ?_ less
  intro v m' value here'
  have typed := computes.delivers
  rw [value] at typed
  rw [← typed, Value.cast_self] at here'
  exact follows v m' typed here'

theorem condition_leads (b : Bytecode) (through : Nat) (e : Expression) (code : List Instruction)
    (stack : List Value) (store : Store) (m : Machine) (next exit : Place) (rest : Value → Result)
    (compiled : condition vars e = .ok code) (located : Located b.code base code)
    (here : Stands vars base stack store m)
    (follows : ∀ c m, m.At (base + code.length) (.bool c :: stack) store →
      Leads b (least 0 rounds (rest (.bool c))) m (Ends next exit (rest (.bool c)))) (less : through ≤ 1) :
    let result := given store (converting.expression vars store e) rest
    Leads b (least through rounds result) m (Ends next exit result) := by
  obtain ⟨f, fragment, bool, rfl⟩ := condition_ok vars e code compiled
  apply expression_leads vars base rounds b through e f stack store m next exit rest fragment located here ?_ less
  intro v m' typed here'
  rw [bool] at typed
  cases v <;> cases typed
  exact follows _ m' here'

theorem loop_body_leads (b : Bytecode) (turn : Item → Instruction) (outer exit : Nat) (code : List Item)
    (stack store : List Value) (m : Machine) (meaning : Store → Result)
    (turned : Turned turn loops outer) (body : Simulates vars (loops + 1) base rounds code meaning)
    (located : Located b.code base ((code.map (·.leaveTo exit)).map turn))
    (here : Stands vars base stack store m) :
    Leads b (least 0 rounds (meaning store)) m
      (Ends (Stands vars (base + code.length) stack) (Stands vars exit stack) (meaning store)) := by
  rw [List.map_map] at located
  have simulated := body b _ exit stack store m (turned_leave turn loops outer exit turned) located here
  refine leads_weaken b _ m _ _ ?_ simulated
  intro m' ends
  exact ends_weaken _ _ _ _ m' (fun _ _ leaves => leaves.2) ends

theorem loop_leads (b : Bytecode) (outer behind : Nat) (top : Place) (inner stack store : List Value) (m : Machine)
    (round : Store → Result) (running : ∀ store m, top store m → m.isRunning = true)
    (once : ∀ store m, top store m → Leads b (least 1 rounds (round store)) m
      (Ends top (Stands vars behind inner) (round store)))
    (here : top store m) :
    Leads b (least 0 rounds (loop round rounds store)) m
      (Ends (Stands vars behind inner) (Exits vars loops outer stack) (loop round rounds store)) := by
  have looped := leads_loop b rounds rounds top _ round store m running once (Nat.le_refl rounds) here
  refine leads_weaken b _ m _ _ ?_ looped
  intro m' ends
  exact ends_weaken _ _ _ _ m' (fun _ _ never => never.elim) ends

theorem and_then_next (result : Result) : andThen result (fun store => some (.next, store)) = result := by
  match result with
  | none | some (.next, _) | some (.exit, _) | some (.leave, _) | some (.fault _, _) => rfl

theorem leads_part_jump (b : Bytecode) (pc a : Nat) (stack : List Value) (exit : Place) (result : Result)
    (m : Machine) (leads : Leads b (least 0 rounds result) m (Ends (Stands vars pc stack) exit result))
    (code : b.code[pc]? = some (.jump a)) :
    Leads b (least 0 rounds result) m (Ends (Stands vars a stack) exit result) := by
  rw [← and_then_next result]
  refine leads_and_then b 0 rounds _ _ _ _ _ m leads ?_
  intro store m' here
  refine leads_weaken b 0 m' _ _ ?_ (leads_less b 0 1 m' _ (by omega) (leads_jump b m' pc a stack store here.1 code))
  intro m'' here'
  exact ⟨here', here.2⟩

theorem while_simulates (cond : Expression) (test : List Instruction) (code items : List Item) (exit : Nat)
    (meaning : Store → Result) (compiled : condition vars cond = .ok test)
    (body : Simulates vars (loops + 1) (base + test.length + 1) rounds code meaning)
    (behind : exit = base + test.length + 1 + code.length + 1)
    (laid : items = ops test ++ [.op (.jumpIfFalse exit)] ++ code.map (·.leaveTo exit) ++ [.op (.jump base)]) :
    let round (store : Store) : Result :=
      given store (converting.expression vars store cond) fun v =>
      if v.isTrue then meaning store else some (.exit, store)
    Simulates vars loops base rounds items (fun store => loop round rounds store) := by
  intro round b turn outer stack store m turned located here
  have stop : base + items.length = exit := by
    simp [laid, ops, behind]
    omega
  simp only [laid, List.map_append, turned_ops turn loops outer turned, List.map_singleton, turned.op,
    List.append_assoc] at located
  obtain ⟨testing, located⟩ := (located_append _ _ _ _).mp located
  obtain ⟨leaving, located⟩ := (located_append _ _ _ _).mp located
  obtain ⟨inside, jumping⟩ := (located_append _ _ _ _).mp located
  simp only [List.length_map, List.length_singleton] at jumping
  rw [stop]
  refine loop_leads vars loops rounds b outer exit (Stands vars base stack) stack stack store m round
    (fun _ _ here => here.1.running) ?_ here
  intro store m here
  refine condition_leads vars base rounds b 1 cond test stack store m _ _ _ compiled testing here ?_ (by omega)
  intro c m₁ at₁
  have branched := leads_jump_if_false b m₁ _ exit c stack store at₁ ((located_singleton _ _ _).mp leaving)
  cases c with
  | false =>
    refine leads_weaken b 0 m₁ _ _ ?_ (leads_less b 0 1 m₁ _ (by omega) branched)
    intro m₂ at₂
    exact ⟨at₂, here.2⟩
  | true =>
    refine leads_less b _ (1 + _) m₁ _ (Nat.le_add_left _ 1) (leads_trans b 1 _ m₁ _ _ branched ?_)
    intro m₂ at₂
    change Leads b (least 0 rounds (meaning store)) m₂ (Ends _ _ (meaning store))
    exact leads_part_jump vars rounds b _ base stack _ _ m₂
      (loop_body_leads vars loops _ rounds b turn outer exit code stack store m₂ meaning turned body inside
        ⟨at₂, here.2⟩) ((located_singleton _ _ _).mp jumping)

theorem repeat_simulates (cond : Expression) (test : List Instruction) (code items : List Item) (exit : Nat)
    (meaning : Store → Result) (body : Simulates vars (loops + 1) base rounds code meaning)
    (compiled : condition vars cond = .ok test) (behind : exit = base + code.length + test.length + 1)
    (laid : items = code.map (·.leaveTo exit) ++ ops test ++ [.op (.jumpIfFalse base)]) :
    let round (store : Store) : Result :=
      andThen (meaning store) fun store =>
      given store (converting.expression vars store cond) fun v =>
      if v.isTrue then some (.exit, store) else some (.next, store)
    Simulates vars loops base rounds items (fun store => loop round rounds store) := by
  intro round b turn outer stack store m turned located here
  have stop : base + items.length = exit := by
    simp [laid, ops, behind]
    omega
  simp only [laid, List.map_append, turned_ops turn loops outer turned, List.map_singleton, turned.op,
    List.append_assoc] at located
  obtain ⟨inside, located⟩ := (located_append _ _ _ _).mp located
  obtain ⟨testing, leaving⟩ := (located_append _ _ _ _).mp located
  simp only [List.length_map] at testing leaving
  rw [stop]
  refine loop_leads vars loops rounds b outer exit (Stands vars base stack) stack stack store m round
    (fun _ _ here => here.1.running) ?_ here
  intro store m here
  refine leads_and_then b 1 rounds _ _ _ _ _ m
    (loop_body_leads vars loops base rounds b turn outer exit code stack store m meaning turned body inside here) ?_
  intro store' m₁ at₁
  refine condition_leads vars _ rounds b 1 cond test stack store' m₁ _ _ _ compiled testing at₁ ?_ (by omega)
  intro c m₂ at₂
  have branched := leads_jump_if_false b m₂ _ base c stack store' at₂ ((located_singleton _ _ _).mp leaving)
  cases c with
  | false =>
    refine leads_weaken b 0 m₂ _ _ ?_ (leads_less b 0 1 m₂ _ (by omega) branched)
    intro m₃ at₃
    exact ⟨at₃, at₁.2⟩
  | true =>
    refine leads_weaken b 0 m₂ _ _ ?_ (leads_less b 0 1 m₂ _ (by omega) branched)
    intro m₃ at₃
    exact ⟨behind ▸ at₃, at₁.2⟩

theorem counting_parts (b : Bytecode) (turn : Item → Instruction) (outer : Nat) (turned : Turned turn loops outer)
    (c : Counting) (code items : List Item) (top front exit : Nat) (topAt : top = base + c.start.length)
    (inner : front = top + c.testLength) (behind : exit = front + code.length + (c.finish top).length - 1)
    (laid : items = ops c.start ++ ops (c.test top exit) ++ code.map (·.leaveTo exit) ++ ops (c.finish top))
    (located : Located b.code base (items.map turn)) :
    base + items.length = exit + 1 ∧ Located b.code base c.start ∧ Located b.code top (c.test top exit) ∧
      Located b.code front ((code.map (·.leaveTo exit)).map turn) ∧
      Located b.code (front + code.length) (c.finish top) := by
  have stop : base + items.length = exit + 1 := by
    simp only [laid, behind, inner, topAt, ops, List.length_append, List.length_map, test_length,
      Counting.finish, List.length_cons, List.length_nil]
    omega
  simp only [laid, List.map_append, turned_ops turn loops outer turned, List.append_assoc] at located
  obtain ⟨starting, located⟩ := (located_append _ _ _ _).mp located
  obtain ⟨testing, located⟩ := (located_append _ _ _ _).mp located
  obtain ⟨inside, finishing⟩ := (located_append _ _ _ _).mp located
  rw [← topAt] at testing inside finishing
  rw [test_length, ← inner] at inside finishing
  simp only [List.length_map] at finishing
  exact ⟨stop, starting, testing, inside, finishing⟩

theorem count_simulates (name : String) (first last : Expression) (step : Option Expression) (c : Counting)
    (code items : List Item) (top bodyAt exit : Nat) (meaning : Store → Result)
    (counts : Counts vars name step c) (firstOk : bound vars c.dataType first = .ok c.first)
    (lastOk : bound vars c.dataType last = .ok c.last) (topAt : top = base + c.start.length)
    (inner : bodyAt = top + c.testLength) (body : Simulates vars (loops + 1) bodyAt rounds code meaning)
    (behind : exit = bodyAt + code.length + (c.finish top).length - 1)
    (laid : items = ops c.start ++ ops (c.test top exit) ++ code.map (·.leaveTo exit) ++ ops (c.finish top)) :
    Simulates vars loops base rounds items (fun store =>
      given store (converting.expression vars store first) fun v =>
      let store := assign vars store name v
      given store (converting.expression vars store last) fun limit =>
      loop (converting.countRound vars name (limit.cast (typeOf vars name)) step meaning) rounds store) := by
  intro b turn outer stack store m turned located here
  obtain ⟨stop, starting, testing, inside, finishing⟩ := counting_parts loops base b turn outer turned c code items top
    bodyAt exit topAt inner behind laid located
  rw [Counting.start, List.append_assoc] at starting
  obtain ⟨firstCode, starting⟩ := (located_append _ _ _ _).mp starting
  obtain ⟨storing, lastCode⟩ := (located_append _ _ _ _).mp starting
  rw [stop, counts.names.typeOf]
  have firstRuns := (bound_computes vars c.dataType first c.first store here.2 firstOk).runs
  refine leads_given b 0 rounds _ stack store _ _ _ (·.cast c.dataType) _ m
    (firstRuns b m base stack firstCode here.1) ?_ (by omega)
  intro v m₁ _ at₁
  have stored := leads_assign b vars m₁ _ c.index name c.dataType v stack store counts.names here.2 at₁
    ((located_singleton _ _ _).mp storing)
  refine leads_less b _ (1 + _) m₁ _ (Nat.le_add_left _ 1) (leads_trans b 1 _ m₁ _ _ stored ?_)
  intro m₂ at₂
  have lastRuns := (bound_computes vars c.dataType last c.last _ at₂.2 lastOk).runs
  refine leads_given b 0 rounds _ stack _ _ _ _ (·.cast c.dataType) _ m₂
    (lastRuns b m₂ _ stack lastCode at₂.1) ?_ (by omega)
  intro limit m₃ _ at₃
  let lastValue := limit.cast c.dataType
  have topHere : m₃.At top (lastValue :: stack) (assign vars store name v) := by
    simpa only [topAt, Counting.start, List.length_append, List.length_singleton, Nat.add_assoc] using at₃
  have looped := loop_leads vars loops rounds b outer exit (Stands vars top (lastValue :: stack))
    (lastValue :: stack) stack _ m₃ (converting.countRound vars name lastValue step meaning)
    (fun _ _ here => here.1.running)
    (by
      intro store m here
      apply count_round_leads b vars name step c rounds meaning m top exit _ lastValue stack store counts
        (limit.dataType_cast c.dataType) testing finishing ?_ here
      intro m entered
      rw [← inner] at entered
      exact loop_body_leads vars loops bodyAt rounds b turn outer exit code _ store m meaning turned body
        inside ⟨entered, here.2⟩)
    ⟨topHere, at₂.2⟩
  rw [← and_then_next (loop _ _ _)]
  refine leads_and_then b 0 rounds _ _ _ _ _ m₃ looped ?_
  intro store' m₄ at₄
  have discards := finish_exit b c _ top finishing
  rw [← behind] at discards
  refine leads_weaken b 0 m₄ _ _ ?_
    (leads_less b 0 1 m₄ _ (by omega) (leads_discard b m₄ exit lastValue stack store' at₄.1 discards))
  intro m₅ at₅
  exact ⟨at₅, at₄.2⟩

end SoftPlc.Compile
