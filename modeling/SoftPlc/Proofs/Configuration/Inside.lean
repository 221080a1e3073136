import SoftPlc.Proofs.Configuration.Codec

set_option autoImplicit false

namespace SoftPlc.Configuration

def truncated : Fault := corrupt "TRUNCATED"

section
variable {α β : Type}

-- A refusal that some front of the bytes settles, unless bytes are missing.
def Refuses (reader : Reader α) (bytes : Bytes) (f : Fault) : Prop :=
  f = truncated ∨ ∃ front, front <+: bytes ∧ ∀ more, reader (front ++ more) = .error f

def Takes (reader : Reader α) : Prop := ∀ bytes, match reader bytes with
  | .ok (x, rest) => ∃ front, bytes = front ++ rest ∧ Reads reader front x
  | .error f => Refuses reader bytes f

-- As `Takes`, and for a reader too that checks whether bytes are left over.
def StaysInside (reader : Reader α) : Prop := ∀ bytes, match reader bytes with
  | .ok (_, rest) => ∃ front, bytes = front ++ rest ∧ ∀ cut, cut <+: front → cut ≠ front → reader cut = .error truncated
  | .error f => Refuses reader bytes f

theorem takes_ok (reader : Reader α) (takes : Takes reader) (bytes rest : Bytes) (x : α)
    (read : reader bytes = .ok (x, rest)) : ∃ front, bytes = front ++ rest ∧ Reads reader front x := by
  have taken := takes bytes
  rwa [read] at taken

theorem takes_error (reader : Reader α) (takes : Takes reader) (bytes : Bytes) (f : Fault)
    (refused : reader bytes = .error f) : Refuses reader bytes f := by
  have taken := takes bytes
  rwa [refused] at taken

theorem takes_pure (x : α) : Takes (pure x : Reader α) := fun _ => ⟨[], rfl, reads_pure x⟩

theorem takes_fail (message : String) : Takes (fail message : Reader α) :=
  fun _ => .inr ⟨[], List.nil_prefix, fun _ => rfl⟩

theorem takes_refused (message : String) (next : α → Reader β) : Takes (fail message >>= next) :=
  fun _ => .inr ⟨[], List.nil_prefix, fun _ => rfl⟩

theorem takes_take (count : Nat) : Takes (take count) := by
  intro bytes
  unfold take
  by_cases short : bytes.length < count
  · rw [if_pos short]
    exact .inl rfl
  · rw [if_neg short]
    exact ⟨bytes.take count, (List.take_append_drop count bytes).symm,
      reads_take _ count (List.length_take_of_le (Nat.not_lt.mp short))⟩

theorem takes_byte : Takes byte
  | [] => .inl rfl
  | b :: _ => ⟨[b], rfl, reads_byte b⟩

theorem takes_word : Takes word
  | [] | [_] => .inl rfl
  | a :: b :: _ => ⟨[a, b], rfl, fun _ => rfl⟩

theorem takes_double_word : Takes doubleWord
  | [] | [_] | [_, _] | [_, _, _] => .inl rfl
  | a :: b :: c :: d :: _ => ⟨[a, b, c, d], rfl, fun _ => rfl⟩

section
variable (reader : Reader α) (next : α → Reader β)

theorem refuses_behind (front back : Bytes) (x : α) (f : Fault) (first : Reads reader front x)
    (refused : Refuses (next x) back f) : Refuses (reader >>= next) (front ++ back) f := by
  rcases refused with missing | ⟨settled, within, always⟩
  · exact .inl missing
  · refine .inr ⟨front ++ settled, (List.prefix_append_right_inj front).mpr within, fun more => ?_⟩
    rw [List.append_assoc, bind_of_reads reader next front (settled ++ more) x first]
    exact always more

theorem refuses_first (bytes : Bytes) (f : Fault) (refused : Refuses reader bytes f) :
    Refuses (reader >>= next) bytes f := by
  rcases refused with missing | ⟨settled, within, always⟩
  · exact .inl missing
  · refine .inr ⟨settled, within, fun more => ?_⟩
    simp only [bind, StateT.bind, always more, Except.bind]

theorem bind_cases (first : Takes reader) (bytes : Bytes) :
    (∃ f, (reader >>= next) bytes = .error f ∧ Refuses (reader >>= next) bytes f) ∨
      ∃ x front middle, bytes = front ++ middle ∧ Reads reader front x ∧ (reader >>= next) bytes = next x middle := by
  cases begun : reader bytes with
  | error f =>
    refine .inl ⟨f, ?_, refuses_first reader next bytes f (takes_error reader first bytes f begun)⟩
    simp only [bind, StateT.bind, begun, Except.bind]
  | ok both =>
    obtain ⟨x, middle⟩ := both
    obtain ⟨front, rfl, reads⟩ := takes_ok reader first bytes middle x begun
    exact .inr ⟨x, front, middle, rfl, reads, bind_of_reads reader next front middle x reads⟩

theorem takes_bind (first : Takes reader) (second : ∀ x, Takes (next x)) : Takes (reader >>= next) := by
  intro bytes
  rcases bind_cases reader next first bytes with ⟨f, answer, refused⟩ | ⟨x, front, middle, rfl, reads, answer⟩
  · rw [answer]
    exact refused
  · rw [answer]
    cases ended : next x middle with
    | error f => exact refuses_behind reader next front middle x f reads (takes_error _ (second x) middle f ended)
    | ok result =>
      obtain ⟨y, rest⟩ := result
      obtain ⟨back, rfl, behind⟩ := takes_ok _ (second x) middle rest y ended
      exact ⟨front ++ back, (List.append_assoc front back rest).symm, reads_bind reader next front back x y reads behind⟩

theorem takes_if (c : Prop) [Decidable c] (other : Reader α) (left : Takes reader) (right : Takes other) :
    Takes (if c then reader else other) := by
  split
  · exact left
  · exact right

theorem takes_several (each : Takes reader) (count : Nat) : Takes (several reader count) := by
  induction count with
  | zero => exact takes_pure []
  | succ count ih =>
    exact takes_bind _ _ each fun first => takes_bind _ _ ih fun others => takes_pure (first :: others)

-- With any of the bytes missing that it takes, a reader says so: an answer, or another refusal,
-- would be one of the whole bytes too.
theorem cut_truncated (takes : Takes reader) (front cut : Bytes) (x : α) (reads : Reads reader front x)
    (shorter : cut <+: front) (less : cut ≠ front) : reader cut = .error truncated := by
  obtain ⟨missing, rfl⟩ := shorter
  have whole : reader (cut ++ missing) = .ok (x, []) := List.append_nil (cut ++ missing) ▸ reads []
  cases answer : reader cut with
  | ok both =>
    obtain ⟨y, rest⟩ := both
    obtain ⟨taken, rfl, early⟩ := takes_ok reader takes cut rest y answer
    have longer := early (rest ++ missing)
    rw [← List.append_assoc, whole] at longer
    have none : rest ++ missing = [] := (Prod.mk.inj (Except.ok.inj longer)).2.symm
    rw [(List.append_eq_nil_iff.mp none).2, List.append_nil] at less
    exact absurd rfl less
  | error f =>
    rcases takes_error reader takes cut f answer with missed | ⟨settled, ⟨unread, rfl⟩, always⟩
    · rw [missed]
    · have refused := always (unread ++ missing)
      rw [← List.append_assoc, whole] at refused
      cases refused

theorem cut_bind (first : Takes reader) (front back cut : Bytes) (x : α) (reads : Reads reader front x)
    (missing : ∀ cut, cut <+: back → cut ≠ back → next x cut = .error truncated)
    (shorter : cut <+: front ++ back) (less : cut ≠ front ++ back) : (reader >>= next) cut = .error truncated := by
  rcases List.prefix_or_prefix_of_prefix shorter (List.prefix_append front back) with early | ⟨some, rfl⟩
  · by_cases all : cut = front
    · subst all
      have read := bind_of_reads reader next cut [] x reads
      rw [List.append_nil] at read
      refine read.trans (missing [] List.nil_prefix fun empty => less ?_)
      rw [← empty, List.append_nil]
    · simp only [bind, StateT.bind, cut_truncated reader first front cut x reads early all, Except.bind]
  · rw [bind_of_reads reader next front some x reads]
    exact missing some ((List.prefix_append_right_inj front).mp shorter) fun all => less (by rw [all])

theorem stays_bind (first : Takes reader) (second : ∀ x, StaysInside (next x)) : StaysInside (reader >>= next) := by
  intro bytes
  rcases bind_cases reader next first bytes with ⟨f, answer, refused⟩ | ⟨x, front, middle, rfl, reads, answer⟩
  · rw [answer]
    exact refused
  · rw [answer]
    have behind := second x middle
    cases ended : next x middle with
    | error f =>
      rw [ended] at behind
      exact refuses_behind reader next front middle x f reads behind
    | ok result =>
      obtain ⟨y, rest⟩ := result
      rw [ended] at behind
      obtain ⟨back, rfl, missing⟩ := behind
      exact ⟨front ++ back, (List.append_assoc front back rest).symm, fun cut shorter less =>
        cut_bind reader next first front back cut x reads missing shorter less⟩

end

end

theorem takes_flag : Takes flag := by
  refine takes_bind _ _ takes_byte fun b => ?_
  split
  · exact takes_pure false
  · exact takes_pure true
  · exact takes_fail _

theorem takes_text : Takes text := by
  refine takes_bind _ _ takes_byte fun length => ?_
  refine takes_bind _ _ (takes_take length.toNat) fun bytes => ?_
  split
  · exact takes_pure _
  · exact takes_fail _

theorem takes_data_type : Takes dataType := by
  refine takes_bind _ _ takes_byte fun code => ?_
  split
  · exact takes_pure _
  · exact takes_fail _

theorem takes_value : Takes value :=
  takes_bind _ _ takes_data_type fun t => takes_bind _ _ takes_double_word fun bits => takes_pure (Value.ofBits t bits)

theorem takes_variable_class : Takes variableClass := by
  refine takes_bind _ _ takes_byte fun code => ?_
  split
  · exact takes_pure _
  · exact takes_fail _

theorem takes_variable : Takes variableEntry := by
  refine takes_bind _ _ takes_text fun name => ?_
  refine takes_bind _ _ takes_data_type fun t => ?_
  refine takes_bind _ _ takes_variable_class fun c => ?_
  refine takes_bind _ _ takes_flag fun exported => ?_
  refine takes_bind _ _ takes_value fun initial => ?_
  exact takes_bind _ _ takes_value fun current => takes_pure _

theorem takes_instruction : Takes instruction := by
  refine takes_bind _ _ (takes_take 6) fun bytes => ?_
  split
  · exact takes_pure _
  · exact takes_fail _

theorem takes_program_name : Takes programName := by
  refine takes_bind _ _ takes_flag fun named => ?_
  exact takes_if _ _ _ (takes_bind _ _ takes_text fun name => takes_pure _) (takes_pure _)

theorem takes_bytecode : Takes bytecode := by
  refine takes_bind _ _ takes_program_name fun name => ?_
  refine takes_bind _ _ takes_word fun count => ?_
  refine takes_if _ _ _ (takes_refused _ _) ?_
  refine takes_bind _ _ (takes_several _ takes_instruction count.toNat) fun code => ?_
  refine takes_bind _ _ takes_byte fun variableCount => ?_
  refine takes_if _ _ _ (takes_refused _ _) ?_
  exact takes_bind _ _ (takes_several _ takes_variable variableCount.toNat) fun entries => takes_pure _

theorem takes_record : Takes record := by
  refine takes_bind _ _ takes_text fun name => ?_
  refine takes_bind _ _ takes_flag fun enabled => ?_
  refine takes_bind _ _ takes_word fun length => ?_
  refine takes_bind _ _ (takes_take length.toNat) fun source => ?_
  refine takes_bind _ _ takes_flag fun isCompiled => ?_
  refine takes_if _ _ _ (takes_bind _ _ ?_ fun compiled => takes_pure _) ?_
  · exact takes_bind _ _ takes_bytecode fun compiled => takes_pure _
  · exact takes_bind _ _ (takes_pure none) fun compiled => takes_pure _

theorem stays_at_end {α : Type} (x : α) :
    StaysInside ((do match ← get with | [] => return x | _ :: _ => fail "TRAILING BYTES") : Reader α)
  | [] => ⟨[], rfl, fun _ shorter less => absurd (List.prefix_nil.mp shorter) less⟩
  | b :: rest => .inr ⟨[b], ⟨rest, rfl⟩, fun _ => rfl⟩

theorem contents_stays_inside : StaysInside contents := by
  refine stays_bind _ _ takes_word fun ms => ?_
  simp only
  split
  · refine stays_bind _ _ (takes_pure _) fun interval => ?_
    refine stays_bind _ _ takes_byte fun flags => ?_
    refine stays_bind _ _ (takes_several _ takes_record slotCount) fun records => ?_
    exact stays_at_end _
  · exact fun _ => .inr ⟨[], List.nil_prefix, fun _ => rfl⟩

end SoftPlc.Configuration
