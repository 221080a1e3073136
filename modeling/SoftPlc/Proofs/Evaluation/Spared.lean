import SoftPlc.Proofs.Compile.Variables
import SoftPlc.Proofs.Evaluation.Evaluator

set_option autoImplicit false

namespace SoftPlc.Evaluation

mutual
def Spares (name : String) : Statement → Prop
  | .assign _ _ other _ => other ≠ name
  | .choose _ branches otherwise => BranchesSpare name branches ∧ BlockSpares name otherwise
  | .select _ _ arms otherwise => ArmsSpare name arms ∧ BlockSpares name otherwise
  | .count _ _ other _ _ _ body => other ≠ name ∧ BlockSpares name body
  | .while _ _ body | .repeat _ body _ => BlockSpares name body
  | .exit _ _ | .leave _ => True

def BlockSpares (name : String) : List Statement → Prop
  | [] => True
  | s :: rest => Spares name s ∧ BlockSpares name rest

def BranchesSpare (name : String) : List (Expression × List Statement) → Prop
  | [] => True
  | (_, body) :: rest => BlockSpares name body ∧ BranchesSpare name rest

def ArmsSpare (name : String) : List (List CaseLabel × List Statement) → Prop
  | [] => True
  | (_, body) :: rest => BlockSpares name body ∧ ArmsSpare name rest
end

variable (reading : Reading) (vars : List Variable) (name : String)

theorem lookup_apart (other : String) (i j : Nat) (v w : Variable) (apart : other ≠ name)
    (first : Variable.lookup? other vars = some (i, v)) (second : Variable.lookup? name vars = some (j, w)) : i ≠ j := by
  have called (wanted : String) (k : Nat) (x : Variable) (found : Variable.lookup? wanted vars = some (k, x)) :
      x.name = wanted := by
    obtain ⟨⟨y, k⟩, hit, same⟩ := Option.map_eq_some_iff.mp found
    cases same
    exact beq_iff_eq.mp (List.find?_some (p := fun entry : Variable × Nat => entry.1.name == wanted) hit)
  intro same
  subst same
  have one := (lookup_index vars other i v first).symm.trans (lookup_index vars name i w second)
  cases one
  exact apart ((called other i v first).symm.trans (called name i v second))

theorem read_assign_other (other : String) (store : Store) (v : Value) (apart : other ≠ name) :
    read vars (assign vars store other v) name = read vars store name := by
  unfold read assign
  cases first : Variable.lookup? other vars with
  | none => rfl
  | some found =>
    cases second : Variable.lookup? name vars with
    | none => rfl
    | some wanted =>
      have places := lookup_apart vars name other found.1 wanted.1 found.2 wanted.2 apart first second
      simp only [Option.bind_some, List.getElem?_set_ne places]

def Keeps (meaning : Store → Result) : Prop :=
  ∀ store ending left, meaning store = some (ending, left) → read vars left name = read vars store name

theorem keeps_and_then (meaning rest : Store → Result) (first : Keeps vars name meaning) (later : Keeps vars name rest) :
    Keeps vars name fun store => andThen (meaning store) rest := by
  intro store ending left ended
  match result : meaning store with
  | none => simp [andThen, result] at ended
  | some (.next, mid) =>
    simp only [andThen, result] at ended
    exact (later mid ending left ended).trans (first store .next mid result)
  | some (.exit, mid) | some (.leave, mid) | some (.fault _, mid) =>
    simp only [andThen, result, Option.some.injEq, Prod.mk.injEq] at ended
    exact ended.2 ▸ first store _ mid result

theorem keeps_given {α : Type} (value : Store → Except Fault α) (rest : α → Store → Result)
    (later : ∀ a, Keeps vars name (rest a)) : Keeps vars name fun store => given store (value store) (rest · store) := by
  intro store ending left ended
  cases found : value store with
  | ok a =>
    simp only [given, found] at ended
    exact later a store ending left ended
  | error f =>
    simp only [given, found, Option.some.injEq, Prod.mk.injEq] at ended
    exact ended.2 ▸ rfl

theorem keeps_here (ending : Ending) : Keeps vars name fun store => some (ending, store) := by
  intro store ending' left ended
  cases ended
  rfl

theorem keeps_if (test : Prop) [Decidable test] (yes no : Store → Result) (first : Keeps vars name yes)
    (second : Keeps vars name no) : Keeps vars name fun store => if test then yes store else no store := by
  intro store ending left ended
  by_cases holds : test
  · exact first store ending left ((if_pos holds).symm.trans ended)
  · exact second store ending left ((if_neg holds).symm.trans ended)

theorem keeps_assign (other : String) (v : Value) (apart : other ≠ name) :
    Keeps vars name fun store => some (.next, assign vars store other v) := by
  intro store ending left ended
  cases ended
  exact read_assign_other vars name other store v apart

theorem keeps_loop (round : Store → Result) (each : Keeps vars name round) (rounds : Nat) :
    Keeps vars name (loop round rounds) := by
  induction rounds with
  | zero => exact fun store ending left ended => nomatch ended
  | succ rounds ih =>
    intro store ending left ended
    unfold loop at ended
    match result : round store with
    | none => simp [result] at ended
    | some (.next, mid) =>
      simp only [result] at ended
      exact (ih mid ending left ended).trans (each store .next mid result)
    | some (.exit, mid) | some (.leave, mid) | some (.fault _, mid) =>
      simp only [result, Option.some.injEq, Prod.mk.injEq] at ended
      exact ended.2 ▸ each store _ mid result

theorem keeps_count_round (other : String) (limit : Value) (step : Option Expression) (body : Store → Result)
    (inside : Keeps vars name body) (apart : other ≠ name) : Keeps vars name (reading.countRound vars other limit step body) := by
  refine keeps_given vars name _ (fun down store => _) fun down => ?_
  refine keeps_given vars name _ (fun i store => _) fun i => ?_
  refine keeps_if vars name _ _ _ ?_ (keeps_here vars name .exit)
  refine keeps_and_then vars name body _ inside ?_
  exact keeps_given vars name _ (fun v store => some (.next, assign vars store other v)) fun v =>
    keeps_assign vars name other v apart

mutual
theorem statement_keeps (rounds : Nat) (s : Statement) (spares : Spares name s) :
    Keeps vars name (reading.statement vars rounds s) := by
  cases s with
  | assign _ _ other value =>
    have sets (v : Value) := keeps_assign vars name other v spares
    simpa only [Reading.statement] using keeps_given vars name _ _ sets
  | choose _ branches otherwise =>
    have last := block_keeps rounds otherwise spares.2
    simpa only [Reading.statement] using choice_keeps rounds _ branches spares.1 last
  | select _ e arms otherwise =>
    have last := block_keeps rounds otherwise spares.2
    have arm (v : Value) := select_keeps rounds v.toInt _ arms spares.1 last
    simpa only [Reading.statement] using keeps_given vars name _ _ arm
  | count _ _ other first last step body =>
    have inside := block_keeps rounds body spares.2
    have round (limit : Value) := keeps_count_round reading vars name other limit step _ inside spares.1
    have looped (limit : Value) := keeps_loop vars name _ (round limit) rounds
    intro store ending left ended
    simp only [Reading.statement] at ended
    cases start : reading.expression vars store first with
    | error f =>
      simp only [start, given, Option.some.injEq, Prod.mk.injEq] at ended
      exact ended.2 ▸ rfl
    | ok v =>
      simp only [start, given] at ended
      have set := read_assign_other vars name other store v spares.1
      have counted := keeps_given vars name (reading.expression vars · last) _ fun limit =>
        looped (limit.cast (typeOf vars other))
      exact (counted _ ending left ended).trans set
  | «while» _ cond body =>
    have inside := block_keeps rounds body spares
    have round := keeps_given vars name (reading.expression vars · cond) _ fun v : Value =>
      keeps_if vars name (v.isTrue = true) _ _ inside (keeps_here vars name .exit)
    simpa only [Reading.statement] using keeps_loop vars name _ round rounds
  | «repeat» _ body cond =>
    have inside := block_keeps rounds body spares
    have test := keeps_given vars name (reading.expression vars · cond) _ fun v : Value =>
      keeps_if vars name (v.isTrue = true) _ _ (keeps_here vars name .exit) (keeps_here vars name .next)
    have round := keeps_and_then vars name _ _ inside test
    simpa only [Reading.statement] using keeps_loop vars name _ round rounds
  | exit _ _ => simpa only [Reading.statement] using keeps_here vars name .exit
  | leave _ => simpa only [Reading.statement] using keeps_here vars name .leave

theorem block_keeps (rounds : Nat) (body : List Statement) (spares : BlockSpares name body) :
    Keeps vars name (reading.block vars rounds body) := by
  cases body with
  | nil => simpa only [Reading.block] using keeps_here vars name .next
  | cons s rest =>
    have first := statement_keeps rounds s spares.1
    have later := block_keeps rounds rest spares.2
    simpa only [Reading.block] using keeps_and_then vars name _ _ first later

theorem choice_keeps (rounds : Nat) (otherwise : Store → Result) (branches : List (Expression × List Statement))
    (spares : BranchesSpare name branches) (last : Keeps vars name otherwise) :
    Keeps vars name (reading.choice vars rounds otherwise branches) := by
  cases branches with
  | nil => simpa only [Reading.choice] using last
  | cons branch rest =>
    obtain ⟨cond, body⟩ := branch
    have inside := block_keeps rounds body spares.1
    have others := choice_keeps rounds otherwise rest spares.2 last
    have chosen := keeps_given vars name (reading.expression vars · cond) _ fun v : Value =>
      keeps_if vars name (v.isTrue = true) _ _ inside others
    simpa only [Reading.choice] using chosen

theorem select_keeps (rounds : Nat) (n : Int) (otherwise : Store → Result)
    (arms : List (List CaseLabel × List Statement)) (spares : ArmsSpare name arms) (last : Keeps vars name otherwise) :
    Keeps vars name (reading.select vars rounds n otherwise arms) := by
  cases arms with
  | nil => simpa only [Reading.select] using last
  | cons arm rest =>
    obtain ⟨labels, body⟩ := arm
    have inside := block_keeps rounds body spares.1
    have others := select_keeps rounds n otherwise rest spares.2 last
    simpa only [Reading.select] using keeps_if vars name _ _ _ inside others
end

end SoftPlc.Evaluation
