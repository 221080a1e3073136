import SoftPlc.Proofs.Machine.Leads

set_option autoImplicit false

namespace SoftPlc

namespace Instruction

def Straight : Instruction → Prop
  | .jump _ | .jumpIfFalse _ | .jumpIfTrue _ => False
  | _ => True

-- The same instruction in two programs: a jump goes to the same place within so many addresses.
inductive Moves (base base' reach : Nat) : Instruction → Instruction → Prop where
  | same (i : Instruction) : i.Straight → Moves base base' reach i i
  | jump (d : Nat) : d ≤ reach → Moves base base' reach (.jump (base + d)) (.jump (base' + d))
  | jumpIfFalse (d : Nat) : d ≤ reach → Moves base base' reach (.jumpIfFalse (base + d)) (.jumpIfFalse (base' + d))
  | jumpIfTrue (d : Nat) : d ≤ reach → Moves base base' reach (.jumpIfTrue (base + d)) (.jumpIfTrue (base' + d))

end Instruction

namespace Machine

open Instruction

inductive Does (vars s : List Value) : Instruction → Effect → Prop where
  | computes (i : Instruction) (t : List Value) : i.Straight → Does vars s i { stack := t, vars }
  | stores (index : Nat) (v : Value) (t : List Value) : Does vars s (.store index) { stack := t, vars := vars.set index v }
  | jumps (a : Nat) : Does vars s (.jump a) { stack := s, vars, target := some a }
  | branchesFalse (a : Nat) (c : Bool) (t : List Value) : popBool s = .ok (c, t) →
      Does vars s (.jumpIfFalse a) { stack := t, vars, target := if c then none else some a }
  | branchesTrue (a : Nat) (c : Bool) (t : List Value) : popBool s = .ok (c, t) →
      Does vars s (.jumpIfTrue a) { stack := t, vars, target := if c then some a else none }
  | halts : Does vars s .halt { stack := s, vars, halts := true }

theorem perform_does (vars s : List Value) (i : Instruction) (effect : Effect) (done : perform vars s i = .ok effect) :
    Does vars s i effect := by
  cases i with
  | push v =>
    obtain ⟨t, _, same⟩ := (bind_ok _ _ _).mp done
    cases same
    exact .computes _ t trivial
  | load index =>
    cases found : vars[index]? with
    | none => simp [perform, loadVariable, found] at done
    | some v =>
      simp only [perform, loadVariable, found] at done
      obtain ⟨t, _, same⟩ := (bind_ok _ _ _).mp done
      cases same
      exact .computes _ t trivial
  | store index =>
    obtain ⟨⟨v, rest⟩, _, stored⟩ := (bind_ok _ _ _).mp done
    cases found : vars[index]? with
    | none => simp [found] at stored
    | some old =>
      by_cases same : old.dataType = v.dataType
      · simp only [found, if_pos same] at stored
        cases stored
        exact .stores index v rest
      · simp [found, same] at stored
  | duplicate =>
    cases s with
    | nil => cases done
    | cons v rest =>
      obtain ⟨t, _, same⟩ := (bind_ok _ _ _).mp done
      cases same
      exact .computes _ t trivial
  | discard =>
    obtain ⟨⟨v, rest⟩, _, same⟩ := (bind_ok _ _ _).mp done
    cases same
    exact .computes _ rest trivial
  | cast _ | binary _ _ | negate _ | complement _ | call _ =>
    obtain ⟨⟨_, rest⟩, _, others⟩ := (bind_ok _ _ _).mp done
    obtain ⟨t, _, same⟩ := (bind_ok _ _ _).mp others
    cases same
    exact .computes _ t trivial
  | jumpIfFalse a =>
    obtain ⟨⟨c, rest⟩, popped, same⟩ := (bind_ok _ _ _).mp done
    cases same
    exact .branchesFalse a c rest popped
  | jumpIfTrue a =>
    obtain ⟨⟨c, rest⟩, popped, same⟩ := (bind_ok _ _ _).mp done
    cases same
    exact .branchesTrue a c rest popped
  | jump a =>
    cases done
    exact .jumps a
  | nop =>
    cases done
    exact .computes _ s trivial
  | halt =>
    cases done
    exact .halts
  | illegal _ => cases done

theorem perform_keeps (vars s : List Value) (i : Instruction) (effect : Effect) (done : perform vars s i = .ok effect)
    (index : Nat) (v : Value) (other : i ≠ .store index) (there : vars[index]? = some v) :
    effect.vars[index]? = some v := by
  cases perform_does vars s i effect done with
  | stores other' w t =>
    have apart : other' ≠ index := by
      rintro rfl
      exact other rfl
    rw [List.getElem?_set_ne apart]
    exact there
  | _ => exact there

theorem perform_length (vars s : List Value) (i : Instruction) (effect : Effect) (done : perform vars s i = .ok effect) :
    effect.vars.length = vars.length := by
  cases perform_does vars s i effect done with
  | stores other v t => exact List.length_set
  | _ => rfl

inductive Agrees (base base' reach : Nat) : Attempt Effect → Attempt Effect → Prop where
  | fault (f : Fault) (s : List Value) : Agrees base base' reach (.error (f, s)) (.error (f, s))
  | next (e : Effect) : e.target = none → Agrees base base' reach (.ok e) (.ok e)
  | jump (stack vars : List Value) (d : Nat) : d ≤ reach →
      Agrees base base' reach (.ok { stack, vars, target := some (base + d) })
        (.ok { stack, vars, target := some (base' + d) })

theorem straight_agrees (vars s : List Value) (base base' reach : Nat) (i : Instruction) (straight : i.Straight) :
    Agrees base base' reach (perform vars s i) (perform vars s i) := by
  cases performed : perform vars s i with
  | error e => exact .fault e.1 e.2
  | ok e =>
    refine .next e ?_
    cases perform_does vars s i e performed with
    | computes _ _ _ | stores _ _ _ | halts => rfl
    | jumps _ | branchesFalse _ _ _ _ | branchesTrue _ _ _ _ => exact straight.elim

theorem moves_agree (vars s : List Value) (base base' reach : Nat) (i i' : Instruction)
    (moves : Moves base base' reach i i') : Agrees base base' reach (perform vars s i) (perform vars s i') := by
  cases moves with
  | same _ straight => exact straight_agrees vars s base base' reach i straight
  | jump d within => exact .jump s vars d within
  | jumpIfFalse d within =>
    cases popped : popBool s with
    | error e =>
      simp only [perform, popped]
      exact .fault e.1 e.2
    | ok r =>
      simp only [perform, popped]
      obtain ⟨c, t⟩ := r
      cases c with
      | true => exact .next { stack := t, vars } rfl
      | false => exact .jump t vars d within
  | jumpIfTrue d within =>
    cases popped : popBool s with
    | error e =>
      simp only [perform, popped]
      exact .fault e.1 e.2
    | ok r =>
      simp only [perform, popped]
      obtain ⟨c, t⟩ := r
      cases c with
      | true => exact .jump t vars d within
      | false => exact .next { stack := t, vars } rfl

structure StoppedAlike (m m' : Machine) : Prop where
  stopped : m.isRunning = false
  halted : m.halted = m'.halted
  fault : m.fault = m'.fault
  vars : m.vars = m'.vars

theorem StoppedAlike.stopped_other (m m' : Machine) (alike : StoppedAlike m m') : m'.isRunning = false := by
  have stopped := alike.stopped
  simpa [isRunning, alike.halted, alike.fault] using stopped

def StandAlike (pc pc' : Nat) (stack vars : List Value) (m m' : Machine) : Prop :=
  m.At pc stack vars ∧ m'.At pc' stack vars

theorem faulted_alike (m m' : Machine) (f : Fault) (vars : List Value) (first : m.Faulted f vars)
    (second : m'.Faulted f vars) : StoppedAlike m m' :=
  ⟨not_running_of_fault m f first.fault, first.running.trans second.running.symm, first.fault.trans second.fault.symm,
    first.vars.trans second.vars.symm⟩

theorem step_alike (b b' : Bytecode) (m m' : Machine) (pc pc' base base' reach : Nat) (stack vars : List Value)
    (i i' : Instruction) (here : StandAlike pc pc' stack vars m m') (code : b.code[pc]? = some i)
    (code' : b'.code[pc']? = some i')
    (agrees : Agrees base base' reach (perform vars stack i) (perform vars stack i')) :
    StoppedAlike (m.step b) (m'.step b') ∨
      ∃ e, perform vars stack i = .ok e ∧
        (StandAlike (pc + 1) (pc' + 1) e.stack e.vars (m.step b) (m'.step b') ∨
          ∃ d ≤ reach, StandAlike (base + d) (base' + d) e.stack e.vars (m.step b) (m'.step b')) := by
  obtain ⟨here, here'⟩ := here
  generalize first : perform vars stack i = result at agrees
  generalize second : perform vars stack i' = result' at agrees
  cases agrees with
  | fault f s =>
    exact .inl (faulted_alike _ _ f vars (step_fault b m pc stack vars s i f here code first)
      (step_fault b' m' pc' stack vars s i' f here' code' second))
  | next e straight =>
    obtain ⟨stack', vars', target, halts⟩ := e
    cases straight
    cases halts with
    | true =>
      refine .inl ⟨?_, ?_, ?_, ?_⟩
      · rw [at_fetch b m pc stack vars i here code, first]
        exact not_running_of_halted _ rfl
      all_goals
        rw [at_fetch b m pc stack vars i here code, first, at_fetch b' m' pc' stack vars i' here' code', second]
      exact ((is_running_iff m).mp here.running).2.trans ((is_running_iff m').mp here'.running).2.symm
    | false =>
      refine .inr ⟨_, rfl, .inl ⟨?_, ?_⟩⟩
      · exact step_effect b m pc stack vars stack' vars' i none here code first
      · exact step_effect b' m' pc' stack vars stack' vars' i' none here' code' second
  | jump stack' vars' d within =>
    refine .inr ⟨_, rfl, .inr ⟨d, within, ?_, ?_⟩⟩
    · exact step_effect b m pc stack vars stack' vars' i _ here code first
    · exact step_effect b' m' pc' stack vars stack' vars' i' _ here' code' second

end Machine

end SoftPlc
