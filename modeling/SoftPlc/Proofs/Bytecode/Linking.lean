import SoftPlc.Bytecode.Labels

set_option autoImplicit false

namespace SoftPlc.Labels

def placeOf (places : List (Int × Nat)) (symbol : Int) : Nat := (places.lookup symbol).getD 0

theorem insert_last (jump : PendingJump) (pending : List PendingJump)
    (before : ∀ other ∈ pending, other.address < jump.address) : insertPending jump pending = pending ++ [jump] := by
  induction pending with
  | nil => rfl
  | cons other rest ih =>
    obtain ⟨first, others⟩ := List.forall_mem_cons.mp before
    rw [insertPending, if_neg (Nat.not_lt.mpr (Nat.le_of_lt first)), if_neg (Nat.ne_of_gt first), ih others]
    rfl

theorem retarget_jumps (i j : Instruction) (a b : Nat) (patched : i.retarget? a = some j) :
    (i.retarget? b).isSome = true := by
  cases i <;> first | rfl | cases patched

section
variable (places : List (Int × Nat))

theorem resolve_cons (jump : PendingJump) (rest : List PendingJump) (code patched : List Instruction)
    (resolved : resolveAll places (jump :: rest) code = (none, patched)) :
    ∃ address i, places.lookup jump.symbol = some address ∧ code[jump.address]?.bind (·.retarget? address) = some i ∧
      resolveAll places rest (code.set jump.address i) = (none, patched) := by
  rw [resolveAll] at resolved
  split at resolved
  · cases resolved
  · rename_i address placed
    split at resolved
    · cases resolved
    · rename_i i there
      exact ⟨address, i, placed, there, resolved⟩

theorem resolve_step (jump : PendingJump) (rest : List PendingJump) (code : List Instruction) (address : Nat)
    (i : Instruction) (placed : places.lookup jump.symbol = some address)
    (there : code[jump.address]?.bind (·.retarget? address) = some i) :
    resolveAll places (jump :: rest) code = resolveAll places rest (code.set jump.address i) := by
  rw [resolveAll]
  simp only [placed, there]

theorem resolve_length (pending : List PendingJump) (code : List Instruction) :
    (resolveAll places pending code).2.length = code.length := by
  induction pending generalizing code with
  | nil => rfl
  | cons jump rest ih =>
    rw [resolveAll]
    split
    · rfl
    · split
      · rfl
      · rw [ih, List.length_set]

theorem resolve_front (pending : List PendingJump) (code more patched : List Instruction)
    (inside : ∀ jump ∈ pending, jump.address < code.length) (resolved : resolveAll places pending code = (none, patched)) :
    resolveAll places pending (code ++ more) = (none, patched ++ more) := by
  induction pending generalizing code with
  | nil =>
    cases resolved
    rfl
  | cons jump rest ih =>
    obtain ⟨address, i, placed, there, others⟩ := resolve_cons places jump rest code patched resolved
    obtain ⟨first, later⟩ := List.forall_mem_cons.mp inside
    have same : (code ++ more)[jump.address]? = code[jump.address]? := List.getElem?_append_left first
    rw [resolve_step places jump rest (code ++ more) address i placed (by rw [same, there]), List.set_append_left _ _ first]
    refine ih (code.set jump.address i) ?_ others
    simpa using later

theorem resolve_last (pending : List PendingJump) (jump : PendingJump) (code patched : List Instruction) (address : Nat)
    (i : Instruction) (resolved : resolveAll places pending code = (none, patched))
    (placed : places.lookup jump.symbol = some address)
    (there : patched[jump.address]?.bind (·.retarget? address) = some i) :
    resolveAll places (pending ++ [jump]) code = (none, patched.set jump.address i) := by
  induction pending generalizing code with
  | nil =>
    cases resolved
    rw [List.nil_append, resolve_step places jump [] patched address i placed there]
    rfl
  | cons other rest ih =>
    obtain ⟨address', i', placed', there', others⟩ := resolve_cons places other rest code patched resolved
    rw [List.cons_append, resolve_step places other _ code address' i' placed' there']
    exact ih (code.set other.address i') others

-- Where linking succeeds, every symbol that is waited for has been placed and every waiting address holds a jump.
theorem resolved_jumps (pending : List PendingJump) (code patched : List Instruction)
    (resolved : resolveAll places pending code = (none, patched)) (jump : PendingJump) (waits : jump ∈ pending) :
    ∃ address i, places.lookup jump.symbol = some address ∧ code[jump.address]? = some i ∧
      (i.retarget? address).isSome = true := by
  induction pending generalizing code with
  | nil => cases waits
  | cons other rest ih =>
    obtain ⟨address', i', placed', there', others⟩ := resolve_cons places other rest code patched resolved
    obtain ⟨i, found, patch⟩ := Option.bind_eq_some_iff.mp there'
    rcases List.mem_cons.mp waits with rfl | later
    · exact ⟨address', i, placed', found, by rw [patch]; rfl⟩
    · obtain ⟨address, j, placed, there, jumps⟩ := ih _ others later
      by_cases same : other.address = jump.address
      · rw [← same] at there ⊢
        exact ⟨address, i, placed, found, retarget_jumps i i' address' address patch⟩
      · rw [List.getElem?_set_ne same] at there
        exact ⟨address, j, placed, there, jumps⟩

end

end SoftPlc.Labels
