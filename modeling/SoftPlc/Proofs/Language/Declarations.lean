import SoftPlc.Proofs.Language.Statements

set_option autoImplicit false

namespace SoftPlc.Parser

open Grammar

theorem names_take (depth : Nat) : Takes (declaredNames depth) fun w places =>
    ∃ v, w = v ++ [.colon] ∧ Names v (places.map (·.2.2)) := by
  induction depth with
  | zero => exact takes_too_deep
  | succ depth ih =>
    rw [declaredNames]
    refine takes_bind takes_identifier fun i name ident => takes_bind takes_here fun _ line none => ?_
    subst ident none
    refine takes_bind takes_columns fun _ span none => takes_bind takes_next fun v t taken => ?_
    subst none taken
    split
    · refine takes_map ih fun w places others => ?_
      obtain ⟨v, rfl, rest⟩ := others
      exact ⟨.ident name :: .comma :: v, rfl, .more name rest⟩
    · exact takes_pure _ ⟨[.ident name], rfl, .one name⟩
    · exact takes_fail _

section
variable (variableClass : VariableClass)

theorem declarations_take : Takes (declarations variableClass) fun w ds =>
    Line variableClass w (ds.map Declaration.bare) := by
  have names : Takes (fun c => declaredNames (roomFor c) c) fun w places =>
      ∃ v, w = v ++ [.colon] ∧ Names v (places.map (·.2.2)) := fun c => names_take (roomFor c) c
  refine takes_bind names fun u places listed => takes_bind takes_next fun w t taken => ?_
  subst taken
  split
  · rename_i dataType
    refine takes_bind (takes_accept _) fun v exported flag => takes_led _ fun w value initial => ?_
    refine takes_bind (takes_expect _) fun z _ semicolon => takes_pure _ ?_
    subst semicolon
    obtain ⟨u, rfl, listed⟩ := listed
    simpa [Declaration.bare, Function.comp_def] using Line.names dataType listed flag initial
  · exact takes_fail _

theorem declaration_block_takes (depth : Nat) : Takes (declarationBlock variableClass depth) fun w ds =>
    ∃ v last, w = v ++ .word .endVar :: last ∧ (∃ ended, Optional .semicolon last ended) ∧
      Lines variableClass v (ds.map Declaration.bare) := by
  induction depth with
  | zero => exact takes_too_deep
  | succ depth ih =>
    rw [declarationBlock]
    refine takes_peek fun t => ?_
    split
    · exact takes_skip _ (takes_map takes_optional_semicolon fun last _ ended => ⟨[], last, rfl, ended, .none⟩)
    · refine takes_at _ (takes_bind (declarations_take variableClass) fun u first line => ?_)
      refine takes_map ih fun w others rest => ?_
      obtain ⟨v, last, rfl, ended, lines⟩ := rest
      exact ⟨u ++ v, last, by simp, ended, by simpa using Lines.more line lines⟩
    · refine takes_at _ fun c ds c' answer => ?_
      obtain ⟨_, _, _, failed⟩ := (bind_ok _ _ c c' ds).mp answer
      cases failed

end

theorem takes_opening {β : Type} (t : Token) (opened : VariableClass) (opens : blockClass? t = some opened)
    {next : VariableClass → Parser β} {whole : List Token → β → Prop}
    (second : ∀ u variableClass, Opening u variableClass → Takes (next variableClass) fun v b => whole (u ++ v) b) :
    TakesAt (some t) (skip >>= fun _ => if opened = .ordinary then
      (accept (.word .constant) >>= fun fixed => pure (if fixed then .constant else .ordinary)) >>= next
        else pure opened >>= next) whole := by
  refine takes_skip t ?_
  cases t with
  | word w =>
    cases w <;> cases opens
    · have opening : Takes (accept (.word .constant) >>= fun fixed => pure (if fixed then .constant else .ordinary))
          fun w variableClass => Opening (.word .var :: w) variableClass := by
        refine takes_map (takes_accept _) fun w fixed flag => ?_
        cases flag with
        | absent => exact .ordinary
        | present => exact .constant
      exact takes_bind opening fun w variableClass opening => second (.word .var :: w) variableClass opening
    · exact second _ _ .input
    · exact second _ _ .output
  | _ => cases opens

theorem declaration_blocks_take (depth : Nat) : Takes (declarationBlocks depth) fun w ds =>
    Blocks w (ds.map Declaration.bare) := by
  induction depth with
  | zero => exact takes_too_deep
  | succ depth ih =>
    rw [declarationBlocks]
    refine takes_peek fun t => ?_
    split
    · exact takes_at _ (takes_pure [] .none)
    · rename_i opened opens
      obtain ⟨t, rfl, opens⟩ := Option.bind_eq_some_iff.mp opens
      refine takes_opening t opened opens fun u variableClass opening => ?_
      refine takes_bind (declaration_block_takes variableClass depth) fun v first block => ?_
      refine takes_map ih fun w others rest => ?_
      obtain ⟨v, last, rfl, ⟨ended, semicolon⟩, lines⟩ := block
      simpa using Blocks.more opening lines semicolon rest

theorem names_read (w : List Token) (names : List String) (listed : Names w names) (depth : Nat)
    (room : w.length + 1 ≤ depth) (rest : List Token) :
    Reads (declaredNames depth) (w ++ .colon :: rest) fun places left =>
      places.map (·.2.2) = names ∧ left = rest := by
  induction listed generalizing depth with
  | one name =>
    obtain ⟨depth, rfl⟩ : ∃ d, depth = d + 1 := ⟨depth - 1, by omega⟩
    refine reads_identifier (reads_here fun line => reads_columns fun span => reads_next ?_)
    exact reads_pure _ rest ⟨rfl, rfl⟩
  | more name others ih =>
    obtain ⟨depth, rfl⟩ : ∃ d, depth = d + 1 := ⟨depth - 1, by omega⟩
    simp only [List.length_cons] at room
    refine reads_identifier (reads_here fun line => reads_columns fun span => reads_next ?_)
    refine reads_bind (ih depth (by omega)) ?_
    rintro places _ ⟨same, rfl⟩
    exact reads_pure _ _ ⟨congrArg (name :: ·) same, rfl⟩

section
variable {β : Type} {post : β → List Token → Prop}

theorem reads_opening (next : VariableClass → Parser β) {u rest : List Token} {variableClass : VariableClass}
    (opening : Opening u variableClass) (other : rest.head? ≠ some (.word .constant))
    (second : Reads (next variableClass) rest post) :
    ∃ t opened, (u ++ rest).head? = some t ∧ blockClass? t = some opened ∧
      Reads (skip >>= fun _ => if opened = .ordinary then
        (accept (.word .constant) >>= fun fixed => pure (if fixed then .constant else .ordinary)) >>= next
          else pure opened >>= next) (u ++ rest) post := by
  cases opening with
  | ordinary =>
    refine ⟨_, .ordinary, rfl, rfl, reads_skip (reads_bind_of ?_ second)⟩
    exact reads_absent other (reads_pure _ _ ⟨rfl, rfl⟩)
  | constant =>
    refine ⟨_, .ordinary, rfl, rfl, reads_skip (reads_bind_of ?_ second)⟩
    exact reads_present (reads_pure _ _ ⟨rfl, rfl⟩)
  | input => exact ⟨_, .input, rfl, rfl, reads_skip second⟩
  | output => exact ⟨_, .output, rfl, rfl, reads_skip second⟩

end

theorem names_begin (w : List Token) (names : List String) (listed : Names w names) :
    ∃ name rest, w = .ident name :: rest := by
  cases listed <;> exact ⟨_, _, rfl⟩

section
variable (variableClass : VariableClass)

theorem line_begins (w : List Token) (ds : List Declaration) (line : Line variableClass w ds) :
    ∃ name rest, w = .ident name :: rest := by
  cases line with
  | names dataType listed flag initial =>
    obtain ⟨name, rest, rfl⟩ := names_begin _ _ listed
    exact ⟨name, _, rfl⟩

theorem line_reads (w : List Token) (ds : List Declaration) (line : Line variableClass w ds) (rest : List Token) :
    Reads (declarations variableClass) (w ++ rest) fun found left =>
      found.map Declaration.bare = ds ∧ left = rest := by
  cases line with
  | @names u v w names dataType exported initializer listed flag initial =>
    simp only [List.append_assoc, List.cons_append, List.nil_append]
    have places : Reads (fun c => declaredNames (roomFor c) c) (u ++ .colon :: .word (.type dataType) ::
        (v ++ (w ++ .semicolon :: rest))) fun places left => places.map (·.2.2) = names ∧
          left = .word (.type dataType) :: (v ++ (w ++ .semicolon :: rest)) := fun c front => by
      have length : c.rest.length = u.length + (v.length + (w.length + (rest.length + 1)) + 1 + 1) := by
        simpa [Cursor.tokens] using congrArg List.length front
      exact names_read u names listed (roomFor c) (by rw [roomFor]; omega) _ c front
    have free : Free 0 (.semicolon :: rest) := ⟨by simp, by simp⟩
    have unassigned : (Token.semicolon :: rest).head? ≠ some .assign := by simp
    have unflagged : (w ++ .semicolon :: rest).head? ≠ some (.word .exported) := by cases initial <;> simp
    refine reads_bind places ?_
    rintro places _ ⟨same, rfl⟩
    refine reads_next (reads_accept flag unflagged (reads_led initial unassigned free fun found value => ?_))
    refine reads_expect (reads_pure _ _ ⟨?_, rfl⟩)
    subst same value
    simp [Declaration.bare, Function.comp_def]

theorem lines_read (v : List Token) (ds : List Declaration) (lines : Lines variableClass v ds) (depth : Nat)
    (room : v.length + 1 ≤ depth) (last : List Token) (ended : Bool) (semicolon : Optional .semicolon last ended)
    (rest : List Token) : Reads (declarationBlock variableClass depth) (v ++ .word .endVar :: (last ++ rest))
      fun found left => found.map Declaration.bare = ds ∧ Short left rest := by
  induction lines generalizing depth with
  | none =>
    obtain ⟨depth, rfl⟩ : ∃ d, depth = d + 1 := ⟨depth - 1, by omega⟩
    exact reads_peek (reads_skip (reads_optional_semicolon semicolon fun left short => reads_pure _ _ ⟨rfl, short⟩))
  | @more u v first others line _ ih =>
    obtain ⟨name, more, long⟩ := line_begins variableClass _ _ line
    obtain ⟨depth, rfl⟩ : ∃ d, depth = d + 1 := ⟨depth - 1, by omega⟩
    have length := congrArg List.length long
    simp only [List.length_append, List.length_cons] at room length
    have reads := line_reads variableClass u first line (v ++ .word .endVar :: (last ++ rest))
    rw [List.append_assoc, declarationBlock]
    rw [long, List.cons_append] at reads ⊢
    refine reads_peek (reads_bind reads ?_)
    rintro first _ ⟨sameFirst, rfl⟩
    refine reads_bind (ih depth (by omega)) ?_
    rintro others left ⟨sameOthers, short⟩
    exact reads_pure _ _ ⟨by rw [List.map_append, sameFirst, sameOthers], short⟩

end

def Unopened (rest : List Token) : Prop :=
  ∀ left t, Short left rest → left.head? = some t → blockClass? t = none

theorem opening_begins (u rest left : List Token) (variableClass : VariableClass) (opening : Opening u variableClass)
    (short : Short left (u ++ rest)) : left = u ++ rest := by
  obtain same | skipped := short
  · exact same
  · cases opening <;> cases skipped

theorem lines_other (variableClass : VariableClass) (v rest : List Token) (ds : List Declaration)
    (lines : Lines variableClass v ds) : (v ++ .word .endVar :: rest).head? ≠ some (.word .constant) := by
  cases lines with
  | none => exact nofun
  | more line others =>
    obtain ⟨name, more, rfl⟩ := line_begins variableClass _ _ line
    exact nofun

theorem blocks_read (w : List Token) (ds : List Declaration) (blocks : Blocks w ds) (depth : Nat)
    (room : w.length + 1 ≤ depth) (rest : List Token) (unopened : Unopened rest) (tokens : List Token)
    (short : Short tokens (w ++ rest)) : Reads (declarationBlocks depth) tokens
      fun found left => found.map Declaration.bare = ds ∧ Short left rest := by
  induction blocks generalizing depth tokens with
  | none =>
    obtain ⟨depth, rfl⟩ : ∃ d, depth = d + 1 := ⟨depth - 1, by omega⟩
    have ended : tokens.head?.bind blockClass? = none := by
      cases head : tokens.head? with
      | none => rfl
      | some t => exact unopened tokens t short head
    rw [declarationBlocks]
    refine reads_peek ?_
    rw [ended]
    exact reads_pure _ _ ⟨rfl, short⟩
  | @more u v w others variableClass first last ended opening lines semicolon _ ih =>
    obtain ⟨depth, rfl⟩ : ∃ d, depth = d + 1 := ⟨depth - 1, by omega⟩
    simp only [List.length_append, List.length_cons] at room
    simp only [List.append_assoc, List.cons_append] at short
    rw [opening_begins _ _ tokens variableClass opening short, declarationBlocks]
    have body : Reads (declarationBlock variableClass depth >>= fun first => declarationBlocks depth >>= fun others =>
        pure (first ++ others)) (v ++ .word .endVar :: (w ++ (others ++ rest)))
        fun found left => found.map Declaration.bare = first ++ last ∧ Short left rest := by
      refine reads_bind (lines_read variableClass v _ lines depth (by omega) w ended semicolon _) ?_
      rintro first left ⟨sameFirst, skipped⟩
      refine reads_bind (ih depth (by omega) left skipped) ?_
      rintro others left ⟨sameOthers, short⟩
      exact reads_pure _ _ ⟨by rw [List.map_append, sameFirst, sameOthers], short⟩
    obtain ⟨t, opened, head, opens, reads⟩ := reads_opening
      (fun variableClass => declarationBlock variableClass depth >>= fun first => declarationBlocks depth >>=
        fun others => pure (first ++ others)) opening (lines_other variableClass v _ _ lines) body
    refine reads_peek ?_
    rw [head, Option.bind_some, opens]
    exact reads

end SoftPlc.Parser
