import SoftPlc.Proofs.Language.Declarations

set_option autoImplicit false

namespace SoftPlc

namespace Parser

open Grammar

def Accepts {α : Type} (rule : Parser α) (derives : List Token → α → Prop) : Prop :=
  ∀ c a c', rule c = .ok (a, c') → derives c.tokens a

theorem accepts_bind {α β : Type} {rule : Parser α} {next : α → Parser β} {derives : List Token → α → Prop}
    {whole : List Token → β → Prop} (first : Takes rule derives)
    (second : ∀ u a, derives u a → Accepts (next a) fun v b => whole (u ++ v) b) :
    Accepts (rule >>= next) whole := by
  intro c b c' answer
  obtain ⟨a, middle, taken, behind⟩ := (bind_ok rule next c c' b).mp answer
  obtain ⟨u, front, here⟩ := first c a middle taken
  rw [front]
  exact second u a here middle b c' behind

def finish (p : SourceProgram) : Parser SourceProgram := do
  match ← next with
  | none => return p
  | some t => fail ("UNEXPECTED " ++ t.text)

theorem finish_accepts (p : SourceProgram) : Accepts (finish p) fun w q => w = [] ∧ q = p := by
  rintro ⟨rest, line, span⟩ q c' answer
  cases rest with
  | nil =>
    cases answer
    exact ⟨rfl, rfl⟩
  | cons l rest => cases answer

theorem program_accepts : Accepts program fun w p => Program w p.bare := by
  refine accepts_bind (takes_accept _) fun a wrapped word => ?_
  have declared : Takes (fun c => declarationBlocks (roomFor c) c) fun w ds => Blocks w (ds.map Declaration.bare) :=
    fun c => declaration_blocks_take (roomFor c) c
  have statements : Takes (fun c => block (roomFor c) c) fun w body => Block w (Statement.bareBlock body) :=
    fun c => block_takes (roomFor c) c
  cases word with
  | absent =>
    have unnamed : Takes (pure none) fun w (name : Option String) => w = [] ∧ name = none :=
      takes_pure none ⟨rfl, rfl⟩
    refine accepts_bind unnamed ?_
    rintro _ _ ⟨rfl, rfl⟩
    refine accepts_bind declared fun u ds declared => accepts_bind (takes_accept _) fun v begun begins => ?_
    refine accepts_bind statements fun w body inner => ?_
    intro c p c' answer
    obtain ⟨ended, rfl⟩ := finish_accepts _ c p c' answer
    simpa [ended, SourceProgram.bare] using Program.plain declared begins inner
  | present =>
    have named : Takes (identifier >>= fun name => pure (some name)) fun w name =>
        ∃ n, w = [.ident n] ∧ name = some n :=
      takes_map takes_identifier fun w name ident => ⟨name, ident, rfl⟩
    refine accepts_bind named ?_
    rintro _ _ ⟨name, rfl, rfl⟩
    refine accepts_bind declared fun u ds declared => accepts_bind (takes_accept _) fun v begun begins => ?_
    refine accepts_bind statements fun w body inner => accepts_bind (takes_expect _) fun e _ closed => ?_
    refine accepts_bind takes_optional_semicolon fun last _ ended => ?_
    intro c p c' answer
    obtain ⟨none, rfl⟩ := finish_accepts _ c p c' answer
    obtain ⟨ended, semicolon⟩ := ended
    subst closed
    simpa [none, SourceProgram.bare] using Program.wrapped name declared begins inner semicolon

def Bodily (t : Token) : Prop := t = .semicolon ∨ beginsStatement t = true ∨ t = .word .endProgram

theorem block_bodily (w : List Token) (body : List Statement) (derived : Block w body) (tail : List Token)
    (closed : ∀ t, tail.head? = some t → t = .word .endProgram) (left : List Token) (short : Short left (w ++ tail))
    (t : Token) (head : left.head? = some t) : Bodily t := by
  have front (w : List Token) (body : List Statement) (derived : Block w body) (t : Token)
      (head : (w ++ tail).head? = some t) : Bodily t := by
    cases derived with
    | empty => exact .inr (.inr (closed t head))
    | stray others => exact .inl (Option.some.inj head).symm
    | cons first others =>
      obtain ⟨t, more, rfl, begins⟩ := statement_begins _ _ first
      cases head
      exact .inr (.inl begins)
  obtain rfl | skipped := short
  · exact front w body derived t head
  · cases derived with
    | empty => exact absurd (closed .semicolon (by rw [← List.nil_append tail, ← skipped]; rfl)) nofun
    | stray others =>
      rw [(List.cons.inj skipped).2] at head
      exact front _ _ others t head
    | cons first others =>
      obtain ⟨t, more, rfl, begins⟩ := statement_begins _ _ first
      cases (List.cons.inj skipped).1
      cases begins

theorem bodily_other (t : Token) (bodily : Bodily t) :
    blockClass? t = none ∧ t ≠ .word .begin ∧ t ≠ .word .program := by
  obtain rfl | begins | rfl := bodily
  · exact ⟨rfl, nofun, nofun⟩
  · cases t with
    | ident name => exact ⟨rfl, nofun, nofun⟩
    | word w => cases w <;> first | (cases begins; done) | exact ⟨rfl, nofun, nofun⟩
    | _ => cases begins
  · exact ⟨rfl, nofun, nofun⟩

theorem blocks_begin (w : List Token) (ds : List Declaration) (blocks : Blocks w ds) :
    w = [] ∨ ∃ t rest, w = t :: rest ∧ t ≠ .word .program := by
  cases blocks with
  | none => exact .inl rfl
  | more opening lines semicolon blocks => cases opening <;> exact .inr ⟨_, _, rfl, nofun⟩

section
variable (u v w tail : List Token) (ds : List Declaration) (begun : Bool) (body : List Statement)
  (declared : Blocks u ds) (begins : Optional (.word .begin) v begun) (inner : Block w body)
  (closed : ∀ t, tail.head? = some t → t = .word .endProgram)
include declared begins inner closed

theorem unwrapped_begins : (u ++ (v ++ (w ++ tail))).head? ≠ some (.word .program) := by
  obtain rfl | ⟨t, rest, rfl, other⟩ := blocks_begin u ds declared
  · cases begins with
    | present => exact nofun
    | absent =>
      intro head
      exact (bodily_other _ (block_bodily w body inner tail closed _ (.inl rfl) _ head)).2.2 rfl
  · intro head
    exact other (Option.some.inj head)

theorem reads_program {post : SourceProgram → List Token → Prop}
    {next : List Declaration → List Statement → Parser SourceProgram}
    (second : ∀ found statements, found.map Declaration.bare = ds → Statement.bareBlock statements = body →
      Reads (next found statements) tail post) :
    Reads ((fun c => declarationBlocks (roomFor c) c) >>= fun found => accept (.word .begin) >>= fun _ =>
      (fun c => block (roomFor c) c) >>= fun statements => next found statements) (u ++ (v ++ (w ++ tail))) post := by
  have bodily := block_bodily w body inner tail closed
  have unopened : Unopened (v ++ (w ++ tail)) := by
    intro left t short head
    cases begins with
    | absent => exact (bodily_other t (bodily left short t head)).1
    | present =>
      obtain rfl | skipped := short
      · cases head
        rfl
      · cases skipped
  have closes : Closes tail := by
    intro t head
    rw [closed t head]
    exact ⟨nofun, rfl⟩
  have declarations : Reads (fun c => declarationBlocks (roomFor c) c) (u ++ (v ++ (w ++ tail)))
      fun found left => found.map Declaration.bare = ds ∧ Short left (v ++ (w ++ tail)) := fun c front => by
    have length : c.rest.length = u.length + (v.length + (w.length + tail.length)) := by
      simpa [Cursor.tokens] using congrArg List.length front
    exact blocks_read u ds declared (roomFor c) (by rw [roomFor]; omega) _ unopened _ (.inl rfl) c front
  have statements (left : List Token) (short : Short left (w ++ tail)) : Reads (fun c => block (roomFor c) c) left
      fun found rest => Statement.bareBlock found = body ∧ rest = tail := fun c front => by
    have length : w.length ≤ c.rest.length + 1 := by
      have whole : left.length = c.rest.length := by rw [← front, Cursor.tokens, List.length_map]
      obtain rfl | skipped := short
      · simp only [List.length_append] at whole
        omega
      · have longer := congrArg List.length skipped
        simp only [List.length_cons, List.length_append] at longer
        omega
    exact block_reads w body inner (roomFor c) (by rw [roomFor]; omega) tail closes _ short c front
  refine reads_bind declarations ?_
  rintro found left ⟨sameDeclarations, short⟩
  have behind (left : List Token) (short : Short left (w ++ tail)) :
      Reads ((fun c => block (roomFor c) c) >>= fun statements => next found statements) left post := by
    refine reads_bind (statements left short) ?_
    rintro given _ ⟨sameBody, rfl⟩
    exact second found given sameDeclarations sameBody
  cases begins with
  | absent =>
    refine reads_absent (fun head => ?_) (behind left short)
    exact (bodily_other _ (bodily left short _ head)).2.1 rfl
  | present =>
    obtain rfl | skipped := short
    · exact reads_present (behind _ (.inl rfl))
    · cases skipped

end

theorem finish_reads (p : SourceProgram) (post : SourceProgram → List Token → Prop) (here : post p []) :
    Reads (finish p) [] post :=
  reads_next (reads_pure p [] here)

theorem program_reads (w : List Token) (p : SourceProgram) (derived : Program w p) :
    Reads program w fun found left => found.bare = p ∧ left = [] := by
  cases derived with
  | @plain u v w ds begun body declared begins inner =>
    have closed : ∀ t : Token, ([] : List Token).head? = some t → t = .word .endProgram := nofun
    have unnamed : Reads (pure none) (u ++ (v ++ (w ++ []))) fun (found : Option String) left =>
        found = none ∧ left = u ++ (v ++ (w ++ [])) := reads_pure none _ ⟨rfl, rfl⟩
    rw [← List.append_nil w]
    refine reads_absent (unwrapped_begins u v w [] ds begun body declared begins inner closed) ?_
    refine reads_bind_of unnamed ?_
    refine reads_program u v w [] ds begun body declared begins inner closed fun found statements same alike => ?_
    refine finish_reads _ _ ⟨?_, rfl⟩
    rw [SourceProgram.bare, same, alike]
  | @wrapped name u v w last ds begun ended body declared begins inner semicolon =>
    have named (rest : List Token) : Reads (identifier >>= fun name => pure (some name)) (.ident name :: rest)
        fun found left => found = some name ∧ left = rest := reads_identifier (reads_pure _ _ ⟨rfl, rfl⟩)
    refine reads_present (reads_bind_of (named _) ?_)
    have closed : ∀ t, (Token.word .endProgram :: last).head? = some t → t = .word .endProgram :=
      fun t head => (Option.some.inj head).symm
    refine reads_program u v w _ ds begun body declared begins inner closed
      fun found statements same alike => reads_expect ?_
    rw [← List.append_nil last]
    refine reads_optional_semicolon semicolon fun left short => ?_
    obtain rfl | skipped := short
    · refine finish_reads _ _ ⟨?_, rfl⟩
      rw [SourceProgram.bare, same, alike]
    · cases skipped

end Parser

-- The parser accepts what derives from the grammar and nothing else. What it gives is, but for the
-- places in the text, the tree of the derivation, and there is no other tree.
theorem parse_derives (lexemes : List Lexeme) :
    match parse lexemes with
    | .ok p => ∀ t, Grammar.Program (lexemes.map (·.token)) t ↔ t = p.bare
    | .error _ => ∀ t, ¬ Grammar.Program (lexemes.map (·.token)) t := by
  have complete (t : SourceProgram) (derived : Grammar.Program (lexemes.map (·.token)) t) :
      ∃ p, parse lexemes = .ok p ∧ p.bare = t := by
    obtain ⟨p, c, read, same, -⟩ := Parser.program_reads _ t derived ⟨lexemes, 1, .unknown⟩ rfl
    exact ⟨p, by rw [parse, read]; rfl, same⟩
  cases parsed : parse lexemes with
  | error fault =>
    intro t derived
    obtain ⟨p, accepted, -⟩ := complete t derived
    cases parsed.symm.trans accepted
  | ok p =>
    intro t
    constructor
    · intro derived
      obtain ⟨q, accepted, same⟩ := complete t derived
      cases parsed.symm.trans accepted
      exact same.symm
    · rintro rfl
      rw [parse] at parsed
      cases taken : Parser.program ⟨lexemes, 1, .unknown⟩ with
      | error fault =>
        rw [taken] at parsed
        cases parsed
      | ok both =>
        rw [taken] at parsed
        cases parsed
        exact Parser.program_accepts _ both.1 both.2 taken

end SoftPlc
