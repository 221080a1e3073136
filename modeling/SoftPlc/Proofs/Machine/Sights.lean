import SoftPlc.Proofs.Evaluation.Evaluator
import SoftPlc.Proofs.Machine.Leads

set_option autoImplicit false

namespace SoftPlc.Machine

open Evaluation

-- Where a loop lies: its test goes from `top` to `front`, where the body begins, and it ends at `stop`.
structure Circuit where
  top : Nat
  front : Nat
  stop : Nat
deriving DecidableEq, Repr

variable (b : Bytecode) (c : Circuit)

def stay (m : Machine) : Machine := if m.pc = c.stop then m else m.step b

def enters (m : Machine) : Option Store :=
  if c.top ≤ m.pc ∧ m.pc < c.front ∧ m.isRunning = true ∧ (m.step b).isRunning = true ∧ (m.step b).pc = c.front then
    some (m.step b).vars
  else none

def entries : Nat → Machine → List Store
  | 0, _ => []
  | n + 1, m => (enters b c m).toList ++ entries n (stay b c m)

def ended (m : Machine) : Result :=
  match m.fault with
  | some f => some (.fault f, m.vars)
  | none => if m.halted then some (.leave, m.vars) else if m.pc = c.stop then some (.next, m.vars) else none

def seen (n : Nat) (m : Machine) : List Store × Result := (entries b c n m, ended c ((stay b c)^[n] m))

def Silent (n : Nat) (m : Machine) : Prop := ∀ i < n, seen b c i m = ([], none)

theorem seen_later (n k : Nat) (m : Machine) :
    seen b c (n + k) m =
      (entries b c n m ++ (seen b c k ((stay b c)^[n] m)).1, (seen b c k ((stay b c)^[n] m)).2) := by
  induction n generalizing m with
  | zero => simp [seen, entries]
  | succ n ih =>
    have rest := ih (stay b c m)
    rw [seen, Prod.mk.injEq] at rest
    have steps : n + 1 + k = (n + k) + 1 := by omega
    rw [steps, seen, Function.iterate_succ_apply, entries, rest.1, rest.2, entries, List.append_assoc,
      Function.iterate_succ_apply]

theorem ended_running (m : Machine) (running : m.isRunning = true) :
    ended c m = if m.pc = c.stop then some (.next, m.vars) else none := by
  obtain ⟨halted, fault⟩ := (is_running_iff m).mp running
  simp [ended, halted, fault]

theorem ended_stopped (m : Machine) (stopped : m.isRunning = false) :
    ended c m = some ((m.fault.map Ending.fault).getD .leave, m.vars) := by
  unfold ended
  cases fault : m.fault with
  | some f => rfl
  | none =>
    have halted : m.halted = true := by simpa [isRunning, fault] using stopped
    simp [halted]

theorem seen_ended (m : Machine) (behind : c.front ≤ c.stop) (done : ended c m ≠ none) (n : Nat) :
    seen b c n m = ([], ended c m) := by
  have fixed : stay b c m = m ∧ enters b c m = none := by
    by_cases running : m.isRunning = true
    · rw [ended_running c m running] at done
      have there : m.pc = c.stop := by
        by_contra elsewhere
        exact done (if_neg elsewhere)
      refine ⟨if_pos there, if_neg ?_⟩
      omega
    · have stopped : m.isRunning = false := by simpa using running
      refine ⟨?_, if_neg (fun entering => running entering.2.2.1)⟩
      unfold stay
      split
      · rfl
      · exact step_stopped b m stopped
  have quiet : entries b c n m = [] := by
    induction n with
    | zero => rfl
    | succ n ih => rw [entries, fixed.1, fixed.2, ih]; rfl
  rw [seen, quiet, Function.iterate_fixed fixed.1]

-- Two loops go on to related machines, and until then neither of them shows anything.
def Advances (b : Bytecode) (c : Circuit) (b' : Bytecode) (c' : Circuit) (related : Machine → Machine → Prop)
    (m m' : Machine) : Prop :=
  ∃ n n', 0 < n ∧ 0 < n' ∧ Silent b c n m ∧ Silent b' c' n' m' ∧ entries b c n m = entries b' c' n' m' ∧
    related ((stay b c)^[n] m) ((stay b' c')^[n'] m')

theorem advances_swap (b' : Bytecode) (c' : Circuit) (related : Machine → Machine → Prop) (m m' : Machine)
    (advances : Advances b c b' c' related m m') : Advances b' c' b c (fun m' m => related m m') m' m := by
  obtain ⟨n, n', some, some', silent, silent', same, goes⟩ := advances
  exact ⟨n', n, some', some, silent', silent, same.symm, goes⟩

-- By induction on the steps of the one loop; each stretch of its steps is answered by one of the other.
theorem shown_by_other (b' : Bytecode) (c' : Circuit) (related : Machine → Machine → Prop)
    (behind : c.front ≤ c.stop) (goes : ∀ m m', related m m' →
      (ended c m ≠ none ∧ ended c m = ended c' m') ∨ Advances b c b' c' related m m')
    (n : Nat) (m m' : Machine) (start : related m m') : ∃ n', seen b c n m = seen b' c' n' m' := by
  induction n using Nat.strongRecOn generalizing m m' with
  | _ n ih =>
  rcases goes m m' start with ⟨done, same⟩ | ⟨k, k', some, some', silent, silent', entered, next⟩
  · refine ⟨0, ?_⟩
    rw [seen_ended b c m behind done n, same]
    rfl
  · by_cases within : n < k
    · exact ⟨0, (silent n within).trans (silent' 0 some').symm⟩
    · obtain ⟨r, rfl⟩ := Nat.exists_eq_add_of_le (Nat.le_of_not_lt within)
      obtain ⟨r', rest⟩ := ih r (by omega) _ _ next
      refine ⟨k' + r', ?_⟩
      rw [seen_later, seen_later, entered, rest]

def ShowSame (b : Bytecode) (c : Circuit) (b' : Bytecode) (c' : Circuit) (m m' : Machine) : Prop :=
  (∀ n, ∃ n', seen b c n m = seen b' c' n' m') ∧ ∀ n', ∃ n, seen b' c' n' m' = seen b c n m

theorem show_same (b' : Bytecode) (c' : Circuit) (related : Machine → Machine → Prop)
    (behind : c.front ≤ c.stop) (behind' : c'.front ≤ c'.stop) (goes : ∀ m m', related m m' →
      (ended c m ≠ none ∧ ended c m = ended c' m') ∨ Advances b c b' c' related m m')
    (m m' : Machine) (start : related m m') : ShowSame b c b' c' m m' := by
  have goes' (m' m : Machine) (start : related m m') :
      (ended c' m' ≠ none ∧ ended c' m' = ended c m) ∨ Advances b' c' b c (fun m' m => related m m') m' m := by
    rcases goes m m' start with ⟨done, same⟩ | advances
    · exact .inl ⟨same ▸ done, same.symm⟩
    · exact .inr (advances_swap b c b' c' related m m' advances)
  exact ⟨fun n => shown_by_other b c b' c' related behind goes n m m' start,
    fun n' => shown_by_other b' c' b c (fun m' m => related m m') behind' goes' n' m' m start⟩

inductive Tests : Nat → Machine → Machine → Prop where
  | here (m : Machine) : Tests 0 m m
  | step (n : Nat) (m m' : Machine) : m.isRunning = true → c.top ≤ m.pc → m.pc < c.front → Tests n (m.step b) m' →
      Tests (n + 1) m m'

theorem tests_at (n pc : Nat) (stack vars : List Value) (m m' : Machine) (here : m.At pc stack vars) (low : c.top ≤ pc)
    (high : pc < c.front) (rest : Tests b c n (m.step b) m') : Tests b c (n + 1) m m' :=
  .step n m m' here.running (here.pc ▸ low) (here.pc ▸ high) rest

theorem tests_trans (n k : Nat) (m m' m'' : Machine) (first : Tests b c n m m') (second : Tests b c k m' m'') :
    Tests b c (n + k) m m'' := by
  induction first with
  | here m => simpa using second
  | step n m m' running low high _ ih =>
    rw [Nat.add_right_comm]
    exact .step (n + k) m m'' running low high (ih second)

theorem tests_seen (n : Nat) (m m' : Machine) (behind : c.front ≤ c.stop) (tests : Tests b c (n + 1) m m') :
    Silent b c (n + 1) m ∧ (stay b c)^[n + 1] m = m' ∧
      entries b c (n + 1) m = if m'.isRunning = true ∧ m'.pc = c.front then [m'.vars] else [] := by
  induction n generalizing m with
  | zero =>
    cases tests with
    | step _ _ _ running low high rest =>
    cases rest
    have inside : m.pc ≠ c.stop := by omega
    refine ⟨?_, if_neg inside, ?_⟩
    · intro i first
      obtain rfl : i = 0 := by omega
      simp [seen, entries, ended_running c m running, inside]
    · simp only [entries, enters, low, high, running, true_and, List.append_nil]
      split <;> rfl
  | succ n ih =>
    cases tests with
    | step _ _ _ running low high rest =>
    obtain ⟨silent, reached, entered⟩ := ih (m.step b) rest
    have inside : m.pc ≠ c.stop := by omega
    have stays : stay b c m = m.step b := if_neg inside
    have quiet : enters b c m = none := by
      cases rest with
      | step _ _ _ _ _ high' _ => exact if_neg (by omega)
    refine ⟨?_, ?_, ?_⟩
    · intro i early
      cases i with
      | zero => simp [seen, entries, ended_running c m running, inside]
      | succ i =>
        have later := silent i (by omega)
        simpa [seen, entries, quiet, stays] using later
    · rw [Function.iterate_succ_apply, stays, reached]
    · rw [entries, quiet, stays, entered]
      rfl

theorem step_seen (m : Machine) (running : m.isRunning = true) (inside : m.pc ≠ c.stop)
    (elsewhere : m.pc < c.top ∨ c.front ≤ m.pc) :
    Silent b c 1 m ∧ (stay b c)^[1] m = m.step b ∧ entries b c 1 m = [] := by
  have quiet : enters b c m = none := if_neg (by omega)
  refine ⟨?_, if_neg inside, by simp [entries, quiet]⟩
  intro i first
  obtain rfl : i = 0 := by omega
  simp [seen, entries, ended_running c m running, inside]

end SoftPlc.Machine
