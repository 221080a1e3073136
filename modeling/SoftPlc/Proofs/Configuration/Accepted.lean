import SoftPlc.Proofs.Configuration.Codec

set_option autoImplicit false

namespace SoftPlc.Configuration

def Gives {α : Type} (reader : Reader α) (P : α → Prop) : Prop :=
  ∀ bytes x rest, reader bytes = .ok (x, rest) → P x

section
variable {α β : Type} (reader : Reader α) (next : α → Reader β) (P : α → Prop) (Q : β → Prop)

theorem gives_any : Gives reader (fun _ => True) := fun _ _ _ _ => trivial

theorem gives_fail (message : String) : Gives (fail message : Reader α) P := by
  intro bytes x rest read
  cases read

theorem gives_pure (x : α) (holds : P x) : Gives (pure x) P := by
  intro bytes y rest read
  cases read
  exact holds

theorem gives_bind (first : Gives reader P) (second : ∀ x, P x → Gives (next x) Q) : Gives (reader >>= next) Q := by
  intro bytes y rest read
  obtain ⟨⟨x, middle⟩, before, behind⟩ := (bind_ok _ _ _).mp read
  exact second x (first bytes x middle before) middle y rest behind

theorem gives_if (c : Prop) [Decidable c] (other : Reader α) (left : c → Gives reader P) (right : ¬ c → Gives other P) :
    Gives (if c then reader else other) P := by
  by_cases h : c
  · rw [if_pos h]
    exact left h
  · rw [if_neg h]
    exact right h

theorem gives_several (each : Gives reader P) (count : Nat) :
    Gives (several reader count) fun xs => xs.length = count ∧ ∀ x ∈ xs, P x := by
  induction count with
  | zero => exact gives_pure _ [] ⟨rfl, by simp⟩
  | succ count ih =>
    refine gives_bind _ _ _ _ each fun x holds => ?_
    refine gives_bind _ _ _ _ ih fun xs ⟨length, all⟩ => ?_
    refine gives_pure _ _ ⟨by rw [List.length_cons, length], ?_⟩
    intro y member
    rcases List.mem_cons.mp member with rfl | other
    · exact holds
    · exact all y other

end

theorem gives_take (count : Nat) : Gives (take count) fun bytes => bytes.length = count := by
  intro bytes x rest read
  unfold take at read
  split at read
  · cases read
  · cases read
    rw [List.length_take]
    omega

theorem gives_text : Gives text Short := by
  refine gives_bind _ _ _ _ (gives_any byte) fun length _ => ?_
  refine gives_bind _ _ _ _ (gives_take length.toNat) fun bytes count => ?_
  split
  · rename_i s decoded
    refine gives_pure _ _ ?_
    have size := length.toNat_lt
    rw [Short, ← text_length, bytes_of_text bytes s decoded, count]
    omega
  · exact gives_fail _ _

theorem gives_variable :
    Gives variableEntry fun entry => Short entry.1.name ∧ entry.1.initial.dataType = entry.1.dataType ∧
      entry.2.dataType = entry.1.dataType := by
  refine gives_bind _ _ _ _ gives_text fun name short => ?_
  refine gives_bind _ _ _ _ (gives_any dataType) fun t _ => ?_
  refine gives_bind _ _ _ _ (gives_any variableClass) fun c _ => ?_
  refine gives_bind _ _ _ _ (gives_any flag) fun exported _ => ?_
  refine gives_bind _ _ _ _ (gives_any value) fun initial _ => ?_
  refine gives_bind _ _ _ _ (gives_any value) fun current _ => ?_
  exact gives_pure _ _ ⟨short, Value.dataType_cast initial t, Value.dataType_cast current t⟩

theorem gives_instruction : Gives instruction Instruction.Encodable := by
  refine gives_bind _ _ _ _ (gives_any (take 6)) fun bytes _ => ?_
  split
  · rename_i image _
    exact gives_pure _ _ image.instruction_encodable
  · exact gives_fail _ _

theorem gives_program_name : Gives programName fun name => ∀ s, name = some s → Short s := by
  refine gives_bind _ _ _ _ (gives_any flag) fun named _ => ?_
  refine gives_if _ _ _ _ ?_ ?_
  · intro _
    refine gives_bind _ _ _ _ gives_text fun s short => ?_
    refine gives_pure _ _ ?_
    intro t same
    cases same
    exact short
  · intro _
    refine gives_pure _ _ ?_
    intro t same
    cases same

theorem gives_bytecode :
    Gives bytecode fun (b, values) => b.Sound ∧ Fits b.vars values ∧ ShortNames b := by
  refine gives_bind _ _ _ _ gives_program_name fun name shortName => ?_
  refine gives_bind _ _ _ _ (gives_any word) fun count _ => ?_
  refine gives_if _ _ _ _ ?_ ?_
  · intro _
    exact gives_bind _ _ _ _ (gives_fail (fun _ => False) _) (fun _ never => never.elim)
  · intro counted
    refine gives_bind _ _ _ _ (gives_several _ _ gives_instruction count.toNat) fun code ⟨length, encodable⟩ => ?_
    refine gives_bind _ _ _ _ (gives_any byte) fun variableCount _ => ?_
    refine gives_if _ _ _ _ ?_ ?_
    · intro _
      exact gives_bind _ _ _ _ (gives_fail (fun _ => False) _) (fun _ never => never.elim)
    · intro within
      refine gives_bind _ _ _ _ (gives_several _ _ gives_variable variableCount.toNat) fun entries ⟨entryCount, typed⟩ => ?_
      refine gives_pure _ _ ?_
      obtain ⟨positive, room⟩ := not_or.mp counted
      have few : (entries.map (·.1)).length ≤ Bytecode.maxVariables := by
        rw [List.length_map, entryCount]
        exact Nat.not_lt.mp within
      have nonempty : code ≠ [] := by
        rintro rfl
        exact positive (UInt16.toNat_inj.mp length.symm)
      refine ⟨⟨nonempty, length ▸ Nat.not_lt.mp room, few, ?_, encodable⟩, ?_, shortName, ?_⟩
      · intro v member
        obtain ⟨entry, inside, rfl⟩ := List.mem_map.mp member
        exact (typed entry inside).2.1
      · unfold Fits
        rw [List.map_map, List.map_map]
        exact List.map_congr_left fun entry inside => (typed entry inside).2.2
      · intro v member
        obtain ⟨entry, inside, rfl⟩ := List.mem_map.mp member
        exact (typed entry inside).1

theorem gives_word : Gives word fun n => n.toNat < 2 ^ 16 := fun _ n _ _ => n.toNat_lt

theorem gives_record : Gives record Record.Sound := by
  refine gives_bind _ _ _ _ gives_text fun name short => ?_
  refine gives_bind _ _ _ _ (gives_any flag) fun enabled _ => ?_
  refine gives_bind _ _ _ _ gives_word fun length fits => ?_
  refine gives_bind _ _ _ _ (gives_take length.toNat) fun source count => ?_
  refine gives_bind _ _ _ _ (gives_any flag) fun isCompiled _ => ?_
  have finished (compiled : Option (Bytecode × List Value))
      (holds : ∀ b values, compiled = some (b, values) → b.Sound ∧ Fits b.vars values ∧ ShortNames b) :
      Gives (pure { name, enabled, source, compiled }) Record.Sound :=
    gives_pure _ _ ⟨short, count ▸ fits, holds⟩
  refine gives_if _ _ _ _ ?_ ?_
  · intro _
    refine gives_bind _ _ (fun compiled => ∀ b values, compiled = some (b, values) →
      b.Sound ∧ Fits b.vars values ∧ ShortNames b) _ ?_ fun compiled holds => finished compiled holds
    refine gives_bind _ _ _ _ gives_bytecode fun both holds => gives_pure _ _ ?_
    rintro b values same
    cases same
    exact holds
  · intro _
    refine gives_bind _ _ (fun compiled => compiled = none) _ (gives_pure _ _ rfl) fun compiled none => ?_
    exact finished compiled fun b values same => by cases none.symm.trans same

theorem gives_contents : Gives contents fun k => k.records.length = slotCount ∧ ∀ r ∈ k.records, r.Sound := by
  refine gives_bind _ _ _ _ (gives_any word) fun ms _ => ?_
  simp only
  split
  · refine gives_bind _ _ _ _ (gives_any _) fun interval _ => ?_
    refine gives_bind _ _ _ _ (gives_any byte) fun flags _ => ?_
    refine gives_bind _ _ _ _ (gives_several _ _ gives_record slotCount) fun records sound => ?_
    refine gives_bind _ _ _ _ (gives_any get) fun rest _ => ?_
    split
    · exact gives_pure _ _ sound
    · exact gives_fail _ _
  · exact gives_bind _ _ _ _ (gives_fail (fun _ => False) _) fun _ never => never.elim

theorem read_sound (blob : Bytes) (k : Contents) (accepted : read blob = .ok k) :
    k.records.length = slotCount ∧ ∀ r ∈ k.records, r.Sound := by
  unfold read at accepted
  simp only at accepted
  split at accepted
  · cases accepted
  · split at accepted
    · cases accepted
    · rename_i found rest _
      split at accepted
      · cases accepted
      · split at accepted
        · cases accepted
        · cases body : contents rest with
          | error f => simp [body, Except.map] at accepted
          | ok both =>
            simp only [body, Except.map, Except.ok.injEq] at accepted
            exact accepted ▸ gives_contents rest both.1 both.2 body

end SoftPlc.Configuration
