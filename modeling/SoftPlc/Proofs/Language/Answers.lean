import SoftPlc.Proofs.Language.Calls
import SoftPlc.Proofs.Language.Declarations

set_option autoImplicit false

namespace SoftPlc.Parser

open Grammar

def Call.least : Call → Nat
  | .operationsAfter _ _ | .block | .declarationBlocks => 0
  | _ => 1

theorem takes_weaken {α : Type} {rule : Parser α} {derives weaker : List Token → α → Prop} (takes : Takes rule derives)
    (less : ∀ w a, derives w a → weaker w a) : Takes rule weaker := by
  intro c a c' answer
  obtain ⟨w, front, here⟩ := takes c a c' answer
  exact ⟨w, front, less w a here⟩

theorem operations_after_take (depth strength : Nat) (left : Expression) :
    Takes (operationsAfter depth strength left) fun _ _ => True := by
  induction depth generalizing left with
  | zero => exact takes_too_deep
  | succ depth ih =>
    intro c e c' answer
    by_cases stops : Stops strength c.tokens
    · cases (operations_after_stops depth strength left c stops).symm.trans answer
      exact ⟨[], rfl, trivial⟩
    · obtain ⟨op, next, tight⟩ : ∃ op, c.tokens.head? = some (.operator op) ∧ strength ≤ bindingStrength op := by
        simpa [Stops] using stops
      obtain ⟨rest, tokens⟩ := List.head?_eq_some_iff.mp next
      obtain ⟨behind, same, goes⟩ := operations_after_next depth strength left c op rest tokens tight
      rw [goes, bind_ok] at answer
      obtain ⟨right, middle, read, later⟩ := answer
      obtain ⟨v, front, -⟩ := operation_takes depth _ behind middle right read
      obtain ⟨w, remaining, -⟩ := ih _ middle e c' later
      exact ⟨.operator op :: (v ++ w), by simp [tokens, ← same, front, remaining], trivial⟩

theorem within_takes (depth : Nat) (k : Call) : Takes (within depth k) fun w _ => k.least ≤ w.length := by
  cases k with
  | operation strength =>
    intro c e c' answer
    obtain ⟨w, front, level, -⟩ := operation_takes depth strength c c' e answer
    obtain ⟨t, rest, rfl, -⟩ := level_begins _ _ _ level
    exact ⟨t :: rest, front, Nat.succ_pos _⟩
  | operationsAfter strength left =>
    exact takes_weaken (operations_after_take depth strength left) fun w _ _ => Nat.zero_le _
  | operand =>
    refine takes_weaken (operand_takes depth) fun w e unary => ?_
    obtain ⟨t, rest, rfl, -⟩ := unary_begins _ _ unary
    exact Nat.succ_pos _
  | primary =>
    refine takes_weaken (primary_takes depth) fun w e primary => ?_
    obtain ⟨t, rest, rfl, -⟩ := primary_begins _ _ primary
    exact Nat.succ_pos _
  | arguments =>
    refine takes_weaken (arguments_takes depth) fun w args given => ?_
    obtain ⟨v, rfl, -⟩ := given
    simp [Call.least]
  | caseLabels =>
    refine takes_weaken (case_labels_takes depth) fun w labels known => ?_
    obtain ⟨v, rfl, -⟩ := known
    simp [Call.least]
  | block => exact takes_weaken (block_takes depth) fun w body _ => Nat.zero_le _
  | statement =>
    refine takes_weaken (statement_takes depth) fun w s derived => ?_
    obtain ⟨t, rest, rfl, -⟩ := statement_begins _ _ derived
    exact Nat.succ_pos _
  | branchesAfter =>
    refine takes_weaken (branches_takes depth) fun w both derived => ?_
    obtain ⟨more, other, rfl, -⟩ := derived
    simp only [Call.least, List.length_append, List.length_singleton]
    omega
  | caseArms =>
    refine takes_weaken (arms_takes depth) fun w both derived => ?_
    obtain ⟨more, other, rfl, -⟩ := derived
    simp only [Call.least, List.length_append, List.length_singleton]
    omega
  | declaredNames =>
    refine takes_weaken (names_take depth) fun w places listed => ?_
    obtain ⟨v, rfl, -⟩ := listed
    simp [Call.least]
  | declarationBlock variableClass =>
    refine takes_weaken (declaration_block_takes variableClass depth) fun w ds lines => ?_
    obtain ⟨v, last, rfl, -⟩ := lines
    simp only [Call.least, List.length_append, List.length_cons]
    omega
  | declarationBlocks => exact takes_weaken (declaration_blocks_take depth) fun w ds _ => Nat.zero_le _

theorem running_takes (k : Call) : Takes (running k) fun w _ => k.least ≤ w.length :=
  fun c => within_takes (roomFor c) k c

section
variable {α β : Type} {n : Nat}

def Agree (n : Nat) (rule rule' : Parser α) : Prop := ∀ c, c.rest.length ≤ n → rule c = rule' c

def AgreeAt (n : Nat) (head : Option Token) (rule rule' : Parser α) : Prop :=
  ∀ c, c.rest.length ≤ n → c.tokens.head? = head → rule c = rule' c

theorem agree_self (rule : Parser α) : Agree n rule rule := fun _ _ => rfl

theorem agree_at (head : Option Token) {rule rule' : Parser α} (agree : Agree n rule rule') :
    AgreeAt n head rule rule' := fun c few _ => agree c few

theorem bind_same {rule rule' : Parser α} {next next' : α → Parser β} (c : Cursor) (first : rule c = rule' c)
    (second : ∀ a c', rule' c = .ok (a, c') → next a c' = next' a c') : (rule >>= next) c = (rule' >>= next') c := by
  simp only [bind, StateT.bind, Except.bind, first]
  cases answer : rule' c with
  | error f => rfl
  | ok both => exact second both.1 both.2 answer

theorem taken_length {rule : Parser α} {derives : List Token → α → Prop} (takes : Takes rule derives) (c c' : Cursor)
    (a : α) (answer : rule c = .ok (a, c')) : ∃ w, derives w a ∧ c.rest.length = w.length + c'.rest.length := by
  obtain ⟨w, front, here⟩ := takes c a c' answer
  have lengths := congrArg List.length front
  simp only [Cursor.tokens, List.length_map, List.length_append] at lengths
  exact ⟨w, here, lengths⟩

theorem agree_bind {rule rule' : Parser α} {next next' : α → Parser β} {derives : List Token → α → Prop}
    (first : Agree n rule rule') (takes : Takes rule' derives) (second : ∀ a, Agree n (next a) (next' a)) :
    Agree n (rule >>= next) (rule' >>= next') := by
  intro c few
  refine bind_same c (first c few) fun a c' answer => second a c' ?_
  obtain ⟨w, -, lengths⟩ := taken_length takes c c' a answer
  omega

theorem agree_bind_less {rule rule' : Parser α} {next next' : α → Parser β} {derives : List Token → α → Prop}
    (first : Agree n rule rule') (takes : Takes rule' derives) (some : ∀ w a, derives w a → 0 < w.length)
    (second : ∀ a m, m < n → Agree m (next a) (next' a)) : Agree n (rule >>= next) (rule' >>= next') := by
  intro c few
  refine bind_same c (first c few) fun a c' answer => ?_
  obtain ⟨w, here, lengths⟩ := taken_length takes c c' a answer
  have taken := some w a here
  exact second a c'.rest.length (by omega) c' (Nat.le_refl _)

theorem agree_then {rule : Parser α} {next next' : α → Parser β} {derives : List Token → α → Prop}
    (takes : Takes rule derives) (second : ∀ a, Agree n (next a) (next' a)) : Agree n (rule >>= next) (rule >>= next') :=
  agree_bind (agree_self rule) takes second

theorem agree_if {p : Prop} [Decidable p] {yes yes' no no' : Parser α} (holds : Agree n yes yes')
    (fails : Agree n no no') : Agree n (if p then yes else no) (if p then yes' else no') := by
  by_cases h : p
  · simpa only [if_pos h] using holds
  · simpa only [if_neg h] using fails

theorem agree_next {next' next'' : Option Token → Parser β} (none : Agree n (next' none) (next'' none))
    (some : ∀ t m, m < n → Agree m (next' (some t)) (next'' (some t))) : Agree n (next >>= next') (next >>= next'') := by
  rintro ⟨rest, line, span⟩ few
  cases rest with
  | nil => exact none _ few
  | cons l rest => exact some l.token rest.length few ⟨rest, l.line, l.span⟩ (Nat.le_refl _)

theorem agree_peek {next' next'' : Option Token → Parser β} (second : ∀ t, AgreeAt n t (next' t) (next'' t)) :
    Agree n (peek >>= next') (peek >>= next'') :=
  fun c few => second _ c few List.head?_map

theorem agree_skip {rule rule' : Parser β} (t : Token) (second : ∀ m, m < n → Agree m rule rule') :
    AgreeAt n (some t) (skip >>= fun _ => rule) (skip >>= fun _ => rule') := by
  rintro ⟨rest, line, span⟩ few head
  cases rest with
  | nil => cases head
  | cons l rest => exact second rest.length few ⟨rest, l.line, l.span⟩ (Nat.le_refl _)

end

section
variable {call : Rules} {n : Nat}

theorem agree_call {β : Type} {k : Call} {next next' : k.Answer → Parser β} (same : Agree n (call k) (running k))
    (second : ∀ a, Agree n (next a) (next' a)) : Agree n (call k >>= next) (running k >>= next') :=
  agree_bind same (running_takes k) second

theorem agree_call_less {β : Type} {k : Call} {next next' : k.Answer → Parser β} (same : Agree n (call k) (running k))
    (some : 0 < k.least) (second : ∀ a m, m < n → Agree m (next a) (next' a)) :
    Agree n (call k >>= next) (running k >>= next') :=
  agree_bind_less same (running_takes k) (fun _ _ least => Nat.lt_of_lt_of_le some least) second

theorem agree_last {α : Type} {k : Call} {make : k.Answer → α} (same : Agree n (call k) (running k)) :
    Agree n (call k >>= fun a => pure (make a)) (running k >>= fun a => pure (make a)) :=
  agree_call same fun _ => agree_self _

theorem agree_led {β : Type} (t : Token) {next next' : Option Expression → Parser β}
    (same : Agree n (call (.operation 0)) (running (.operation 0))) (second : ∀ value, Agree n (next value) (next' value)) :
    Agree n
      (accept t >>= fun given =>
        if given then (call (.operation 0) >>= fun e => pure (some e)) >>= next else pure none >>= next)
      (accept t >>= fun given =>
        if given then (running (.operation 0) >>= fun e => pure (some e)) >>= next' else pure none >>= next') := by
  have takes : Takes (running (.operation 0) >>= fun e => pure (some e)) fun _ _ => True :=
    takes_map (running_takes _) fun _ _ _ => trivial
  exact agree_then (takes_accept t) fun _ => agree_if (agree_bind (agree_last same) takes second) (second none)

variable (fewer : ∀ k m, m < n → Agree m (call k) (running k))
include fewer

theorem operation_agrees (strength : Nat) (same : Agree n (call .operand) (running .operand)) :
    Agree n (body call (.operation strength)) (body running (.operation strength)) :=
  agree_call_less same (Nat.le_refl _) fun _ m less => fewer _ m less

theorem operations_after_agree (strength : Nat) (left : Expression) :
    Agree n (body call (.operationsAfter strength left)) (body running (.operationsAfter strength left)) := by
  refine agree_peek fun t => ?_
  split
  · rename_i op
    by_cases loose : bindingStrength op < strength
    · simp only [if_pos loose]
      exact agree_at _ (agree_self _)
    · simp only [if_neg loose]
      refine agree_skip _ fun m less => agree_then takes_columns fun span => ?_
      exact agree_call (fewer _ m less) fun right => fewer _ m less
  · exact agree_at _ (agree_self _)

theorem operand_agrees (same : Agree n (call .primary) (running .primary)) :
    Agree n (body call .operand) (body running .operand) := by
  refine agree_peek fun t => ?_
  split
  · exact agree_skip _ fun m less => agree_then takes_columns fun span => agree_last (fewer _ m less)
  · exact agree_skip _ fun m less => agree_then takes_columns fun span => agree_last (fewer _ m less)
  · exact agree_at _ same

theorem primary_agrees : Agree n (body call .primary) (body running .primary) := by
  refine agree_next (agree_self _) fun t m less => ?_
  split
  · exact agree_call (fewer _ m less) fun e => agree_self _
  · refine agree_then takes_columns fun span => agree_then (takes_accept _) fun opened => agree_if ?_ (agree_self _)
    exact agree_then (takes_accept _) fun closed => agree_if (agree_self _) (agree_last (fewer _ m less))
  · exact agree_self _
  · exact agree_self _
  · exact agree_self _
  · exact agree_self _

theorem arguments_agree (same : Agree n (call (.operation 0)) (running (.operation 0))) :
    Agree n (body call .arguments) (body running .arguments) := by
  refine agree_call_less same (Nat.le_refl _) fun first m less => agree_then takes_next fun t => ?_
  split
  · exact agree_self _
  · exact agree_last (fewer _ m less)
  · exact agree_self _

theorem case_labels_agree : Agree n (body call .caseLabels) (body running .caseLabels) := by
  refine agree_then case_label_takes fun label => agree_next (agree_self _) fun t m less => ?_
  split
  · exact agree_last (fewer _ m less)
  · exact agree_self _
  · exact agree_self _

theorem block_agrees (same : Agree n (call .statement) (running .statement)) :
    Agree n (body call .block) (body running .block) := by
  refine agree_peek fun t => ?_
  split
  · exact agree_skip _ fun m less => fewer _ m less
  · refine agree_at _ (agree_if ?_ (agree_self _))
    exact agree_call_less same (Nat.le_refl _) fun first m less => agree_last (fewer _ m less)
  · exact agree_at _ (agree_self _)

theorem statement_agrees : Agree n (body call .statement) (body running .statement) := by
  refine agree_next (agree_self _) fun t m less => ?_
  have all (k : Call) : Agree m (call k) (running k) := fewer k m less
  refine agree_then takes_here fun line => agree_then takes_columns fun span => ?_
  split
  · exact agree_then (takes_expect _) fun _ => agree_call (all _) fun value => agree_self _
  · refine agree_call (all _) fun condition => agree_then (takes_expect _) fun _ => ?_
    exact agree_call (all _) fun body => agree_call (all _) fun both => agree_self _
  · refine agree_call (all _) fun selector => agree_then (takes_expect _) fun _ => ?_
    exact agree_call (all _) fun both => agree_self _
  · refine agree_then takes_identifier fun name => agree_then takes_columns fun span => ?_
    refine agree_then (takes_expect _) fun _ => agree_call (all _) fun first => ?_
    refine agree_then (takes_expect _) fun _ => agree_call (all _) fun last => ?_
    refine agree_led _ (all _) fun step => agree_then (takes_expect _) fun _ => ?_
    exact agree_call (all _) fun body => agree_self _
  · refine agree_call (all _) fun condition => agree_then (takes_expect _) fun _ => ?_
    exact agree_call (all _) fun body => agree_self _
  · refine agree_call (all _) fun body => agree_then (takes_expect _) fun _ => ?_
    exact agree_call (all _) fun condition => agree_self _
  · exact agree_self _
  · exact agree_self _
  · exact agree_self _
  · exact agree_self _

theorem branches_agree : Agree n (body call .branchesAfter) (body running .branchesAfter) := by
  refine agree_next (agree_self _) fun t m less => ?_
  have all (k : Call) : Agree m (call k) (running k) := fewer k m less
  split
  · refine agree_call (all _) fun condition => agree_then (takes_expect _) fun _ => ?_
    exact agree_call (all _) fun body => agree_last (all _)
  · exact agree_call (all _) fun otherwise => agree_self _
  · exact agree_self _
  · exact agree_self _

theorem arms_agree (same : Agree n (call .caseLabels) (running .caseLabels)) :
    Agree n (body call .caseArms) (body running .caseArms) := by
  refine agree_peek fun t => ?_
  split
  · exact agree_skip _ fun m less => agree_call (fewer _ m less) fun otherwise => agree_self _
  · exact agree_at _ (agree_self _)
  · refine agree_at _ (agree_call_less same (Nat.le_refl _) fun labels m less => ?_)
    exact agree_call (fewer _ m less) fun body => agree_last (fewer _ m less)

theorem names_agree : Agree n (body call .declaredNames) (body running .declaredNames) := by
  refine agree_then takes_identifier fun name => agree_then takes_here fun line => agree_then takes_columns fun span => ?_
  refine agree_next (agree_self _) fun t m less => ?_
  split
  · exact agree_last (fewer _ m less)
  · exact agree_self _
  · exact agree_self _

theorem line_agrees (variableClass : VariableClass) (same : Agree n (call .declaredNames) (running .declaredNames)) :
    Agree n (lineBy call variableClass) (lineBy running variableClass) := by
  refine agree_call_less same (Nat.le_refl _) fun names m less => agree_then takes_next fun t => ?_
  split
  · exact agree_then (takes_accept _) fun exported => agree_led _ (fewer _ m less) fun initializer => agree_self _
  · exact agree_self _

theorem declaration_block_agrees (variableClass : VariableClass)
    (same : Agree n (call .declaredNames) (running .declaredNames)) :
    Agree n (body call (.declarationBlock variableClass)) (body running (.declarationBlock variableClass)) := by
  refine agree_peek fun t => ?_
  split
  · exact agree_at _ (agree_self _)
  · refine agree_at _ (agree_bind_less (line_agrees fewer variableClass same) (declarations_take variableClass) ?_ ?_)
    · intro w ds line
      obtain ⟨name, rest, rfl⟩ := line_begins variableClass w _ line
      exact Nat.succ_pos _
    · exact fun first m less => agree_last (fewer _ m less)
  · exact agree_at _ (agree_self _)

theorem declaration_blocks_agree : Agree n (body call .declarationBlocks) (body running .declarationBlocks) := by
  refine agree_peek fun t => ?_
  split
  · exact agree_at _ (agree_self _)
  · rename_i opened opens
    obtain ⟨t, rfl, -⟩ := Option.bind_eq_some_iff.mp opens
    refine agree_skip t fun m less => ?_
    have block (variableClass : VariableClass) : Agree m
        (call (.declarationBlock variableClass) >>= fun first =>
          call .declarationBlocks >>= fun others => pure (first ++ others))
        (running (.declarationBlock variableClass) >>= fun first =>
          running .declarationBlocks >>= fun others => pure (first ++ others)) :=
      agree_call (fewer _ m less) fun first => agree_last (fewer _ m less)
    have takes : Takes (accept (.word .constant) >>= fun fixed =>
        pure (if fixed then VariableClass.constant else .ordinary)) fun _ _ => True :=
      takes_map (takes_accept _) fun _ _ _ => trivial
    exact agree_if (agree_then takes block) (block opened)

end

-- What a rule answers hangs on smaller calls alone.
theorem body_agrees (call : Rules) (k : Call) (c : Cursor)
    (same : ∀ k' c', Smaller (k', c') (k, c) → call k' c' = running k' c') : body call k c = body running k c := by
  have fewer (k' : Call) (m : Nat) (less : m < c.rest.length) : Agree m (call k') (running k') :=
    fun c' few => same k' c' (.inl (Nat.lt_of_le_of_lt few less))
  have lower (k' : Call) (less : k'.rank < k.rank) : Agree c.rest.length (call k') (running k') :=
    fun c' few => same k' c' ((Nat.lt_or_eq_of_le few).imp_right fun equal => ⟨equal, less⟩)
  have agrees : Agree c.rest.length (body call k) (body running k) := by
    cases k with
    | operation strength => exact operation_agrees fewer strength (lower _ (Nat.lt_succ_self 1))
    | operationsAfter strength left => exact operations_after_agree fewer strength left
    | operand => exact operand_agrees fewer (lower _ (by decide))
    | primary => exact primary_agrees fewer
    | arguments => exact arguments_agree fewer (lower _ (by decide))
    | caseLabels => exact case_labels_agree fewer
    | block => exact block_agrees fewer (lower _ (by decide))
    | statement => exact statement_agrees fewer
    | branchesAfter => exact branches_agree fewer
    | caseArms => exact arms_agree fewer (lower _ (by decide))
    | declaredNames => exact names_agree fewer
    | declarationBlock variableClass => exact declaration_block_agrees fewer variableClass (lower _ Nat.one_pos)
    | declarationBlocks => exact declaration_blocks_agree fewer
  exact agrees c (Nat.le_refl _)

theorem below_running (depth : Nat) (k : Call) (c : Cursor) (same : within depth k c = running k c) :
    below depth k c = running k c := by
  cases k with
  | operation | declaredNames => rfl
  | _ => exact same

-- Once a depth is enough it does not matter any more. The induction is on the calls, so that the depth that is left is
-- enough for each call that is made.
theorem within_settled (call : Call × Cursor) :
    ∀ depth, size call ≤ depth → within depth call.1 call.2 = body running call.1 call.2 := by
  induction call using smaller_well_founded.induction with
  | _ call ih =>
    intro depth room
    obtain ⟨k, c⟩ := call
    obtain ⟨depth, rfl⟩ : ∃ d, depth = d + 1 := ⟨depth - 1, by rw [size] at room; omega⟩
    have answered (k' : Call) (c' : Cursor) (smaller : Smaller (k', c') (k, c)) : within depth k' c' = running k' c' := by
      have less := size_smaller _ _ smaller
      exact (ih (k', c') smaller depth (by omega)).trans (ih (k', c') smaller (roomFor c') (size_allowed k' c')).symm
    rcases within_body k with same | same
    · rw [same]
      exact body_agrees _ k c answered
    · rw [same]
      exact body_agrees _ k c fun k' c' smaller => below_running depth k' c' (answered k' c' smaller)

theorem running_body (k : Call) : body running k = running k :=
  funext fun c => (within_settled (k, c) (roomFor c) (size_allowed k c)).symm

theorem running_unique (call : Rules) (solves : ∀ k, body call k = call k) : call = running := by
  have same (asked : Call × Cursor) : call asked.1 asked.2 = running asked.1 asked.2 := by
    induction asked using smaller_well_founded.induction with
    | _ asked ih =>
      have agrees := body_agrees call asked.1 asked.2 fun k' c' smaller => ih (k', c') smaller
      rwa [solves, running_body] at agrees
  exact funext fun k => funext fun c => same (k, c)

end SoftPlc.Parser
