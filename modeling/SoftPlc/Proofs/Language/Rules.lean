import SoftPlc.Language.Parser
import SoftPlc.Proofs.Language.Grammar

set_option autoImplicit false

namespace SoftPlc

def Cursor.tokens (c : Cursor) : List Token := c.rest.map (·.token)

namespace Parser

open Grammar

-- Whenever the rule gives something, that stands in the relation to the tokens taken from the front.
def Takes {α : Type} (rule : Parser α) (derives : List Token → α → Prop) : Prop :=
  ∀ c a c', rule c = .ok (a, c') → ∃ w, c.tokens = w ++ c'.tokens ∧ derives w a

section
variable {α β : Type} {derives : List Token → α → Prop}

theorem bind_ok (rule : Parser α) (next : α → Parser β) (c c' : Cursor) (b : β) :
    (rule >>= next) c = .ok (b, c') ↔ ∃ a middle, rule c = .ok (a, middle) ∧ next a middle = .ok (b, c') := by
  simp only [bind, StateT.bind, Except.bind]
  cases rule c with
  | error f => simp
  | ok both =>
    constructor
    · exact fun answer => ⟨both.1, both.2, rfl, answer⟩
    · rintro ⟨_, _, ⟨⟩, answer⟩
      exact answer

theorem takes_pure (a : α) (here : derives [] a) : Takes (pure a) derives := by
  intro c b c' answer
  cases answer
  exact ⟨[], rfl, here⟩

theorem takes_fail (message : String) : Takes (fail message) derives := by
  intro c a c' answer
  cases answer

theorem takes_too_deep : Takes tooDeep derives := by
  intro c a c' answer
  cases answer

theorem takes_bind {rule : Parser α} {next : α → Parser β} {whole : List Token → β → Prop}
    (first : Takes rule derives)
    (second : ∀ u a, derives u a → Takes (next a) fun v b => whole (u ++ v) b) : Takes (rule >>= next) whole := by
  intro c b c' answer
  obtain ⟨a, middle, taken, behind⟩ := (bind_ok rule next c c' b).mp answer
  obtain ⟨u, front, here⟩ := first c a middle taken
  obtain ⟨v, back, there⟩ := second u a here middle b c' behind
  exact ⟨u ++ v, by rw [front, back, List.append_assoc], there⟩

theorem takes_map {rule : Parser α} {make : α → β} {whole : List Token → β → Prop} (first : Takes rule derives)
    (made : ∀ w a, derives w a → whole w (make a)) : Takes (rule >>= fun a => pure (make a)) whole :=
  takes_bind first fun w a here => takes_pure _ (by simpa using made w a here)

theorem takes_if {p : Prop} [Decidable p] {yes no : Parser α} (holds : p → Takes yes derives)
    (fails : ¬ p → Takes no derives) : Takes (if p then yes else no) derives := by
  split
  · exact holds ‹_›
  · exact fails ‹_›

end

theorem takes_next : Takes next fun w t => w = t.toList := by
  rintro ⟨rest, line, span⟩ t c' answer
  cases rest with
  | nil =>
    cases answer
    exact ⟨[], rfl, rfl⟩
  | cons l rest =>
    cases answer
    exact ⟨[l.token], rfl, rfl⟩

theorem takes_here : Takes here fun w _ => w = [] := by
  intro c a c' answer
  cases answer
  exact ⟨[], rfl, rfl⟩

theorem takes_columns : Takes columns fun w _ => w = [] := by
  intro c a c' answer
  cases answer
  exact ⟨[], rfl, rfl⟩

def TakesAt {α : Type} (head : Option Token) (rule : Parser α) (derives : List Token → α → Prop) : Prop :=
  ∀ c a c', c.tokens.head? = head → rule c = .ok (a, c') → ∃ w, c.tokens = w ++ c'.tokens ∧ derives w a

section
variable {α β : Type} {derives : List Token → α → Prop} {rule : Parser α}

theorem takes_at (head : Option Token) (takes : Takes rule derives) : TakesAt head rule derives :=
  fun c a c' _ answer => takes c a c' answer

theorem takes_peek {next : Option Token → Parser β} {whole : List Token → β → Prop}
    (second : ∀ t, TakesAt t (next t) whole) : Takes (peek >>= next) whole := by
  intro c b c' answer
  exact second _ c b c' List.head?_map answer

theorem takes_skip (t : Token) (takes : Takes rule fun w a => derives (t :: w) a) :
    TakesAt (some t) (skip >>= fun _ => rule) derives := by
  rintro ⟨rest, line, span⟩ a c' head answer
  cases rest with
  | nil => cases head
  | cons l rest =>
    cases head
    obtain ⟨w, front, here⟩ := takes ⟨rest, l.line, l.span⟩ a c' answer
    exact ⟨l.token :: w, congrArg (l.token :: ·) front, here⟩

end

theorem takes_accept (t : Token) : Takes (accept t) (Optional t) := by
  refine takes_peek fun head => ?_
  split
  · rename_i same
    subst same
    exact takes_skip t (takes_pure true .present)
  · exact takes_at _ (takes_pure false .absent)

theorem takes_optional_semicolon : Takes optionalSemicolon fun w _ => ∃ ended, Optional .semicolon w ended :=
  takes_map (takes_accept .semicolon) fun _ ended here => ⟨ended, here⟩

theorem takes_ended {α : Type} {a : α} {whole : List Token → α → Prop}
    (made : ∀ last ended, Optional .semicolon last ended → whole last a) :
    Takes (optionalSemicolon >>= fun _ => pure a) whole := by
  refine takes_map takes_optional_semicolon fun last _ ended => ?_
  obtain ⟨ended, semicolon⟩ := ended
  exact made last ended semicolon

theorem takes_expect (t : Token) : Takes (expect t) fun w _ => w = [t] := by
  refine takes_bind takes_next fun w found taken => ?_
  subst taken
  cases found with
  | none => exact takes_fail _
  | some found =>
    refine takes_if (fun same => takes_pure () ?_) fun _ => takes_fail _
    subst same
    rfl

theorem takes_identifier : Takes identifier fun w name => w = [.ident name] := by
  refine takes_bind takes_next fun w found taken => ?_
  subst taken
  split
  · exact takes_pure _ rfl
  · exact takes_fail _

def Reads {α : Type} (rule : Parser α) (tokens : List Token) (post : α → List Token → Prop) : Prop :=
  ∀ c, c.tokens = tokens → ∃ a c', rule c = .ok (a, c') ∧ post a c'.tokens

section
variable {α β : Type} {post : β → List Token → Prop}

theorem reads_pure (b : β) (tokens : List Token) (here : post b tokens) : Reads (pure b) tokens post := by
  intro c front
  exact ⟨b, c, rfl, front ▸ here⟩

theorem reads_bind {rule : Parser α} {later : α → Parser β} {tokens : List Token}
    {middle : α → List Token → Prop} (first : Reads rule tokens middle)
    (second : ∀ a rest, middle a rest → Reads (later a) rest post) :
    Reads (rule >>= later) tokens post := by
  intro c front
  obtain ⟨a, c1, taken, between⟩ := first c front
  obtain ⟨b, c2, later, after⟩ := second a c1.tokens between c1 rfl
  exact ⟨b, c2, (bind_ok _ _ _ _ _).mpr ⟨a, c1, taken, later⟩, after⟩

theorem reads_bind_of {rule : Parser α} {later : α → Parser β} {tokens rest : List Token} {a : α}
    (first : Reads rule tokens fun found left => found = a ∧ left = rest) (second : Reads (later a) rest post) :
    Reads (rule >>= later) tokens post := by
  refine reads_bind first ?_
  rintro _ _ ⟨rfl, rfl⟩
  exact second

theorem reads_here {later : UInt16 → Parser β} {tokens : List Token}
    (second : ∀ line, Reads (later line) tokens post) : Reads (here >>= later) tokens post :=
  fun c front => second c.line c front

theorem reads_columns {later : Span → Parser β} {tokens : List Token}
    (second : ∀ span, Reads (later span) tokens post) : Reads (columns >>= later) tokens post :=
  fun c front => second c.span c front

theorem reads_next {later : Option Token → Parser β} {tokens : List Token}
    (second : Reads (later tokens.head?) tokens.tail post) : Reads (next >>= later) tokens post := by
  rintro ⟨rest, line, span⟩ front
  subst front
  cases rest with
  | nil => exact second ⟨[], line, span⟩ rfl
  | cons l rest => exact second ⟨rest, l.line, l.span⟩ rfl

theorem reads_peek {later : Option Token → Parser β} {tokens : List Token}
    (second : Reads (later tokens.head?) tokens post) : Reads (peek >>= later) tokens post := by
  intro c front
  subst front
  have same : c.rest.head?.map (·.token) = c.tokens.head? := List.head?_map.symm
  simpa only [bind, StateT.bind, peek, same, Except.bind] using second c rfl

theorem reads_skip {later : Unit → Parser β} {t : Token} {rest : List Token}
    (second : Reads (later ()) rest post) : Reads (skip >>= later) (t :: rest) post := by
  rintro ⟨lexemes, line, span⟩ front
  cases lexemes with
  | nil => cases front
  | cons l lexemes =>
    obtain ⟨-, rfl⟩ := List.cons.inj front
    exact second ⟨lexemes, l.line, l.span⟩ rfl

theorem reads_expect {later : Unit → Parser β} {t : Token} {rest : List Token}
    (second : Reads (later ()) rest post) : Reads (expect t >>= later) (t :: rest) post := by
  refine reads_bind_of (reads_next ?_) second
  simp only [List.head?_cons, List.tail_cons, if_pos]
  exact reads_pure () rest ⟨trivial, rfl⟩

theorem reads_identifier {later : String → Parser β} {name : String} {rest : List Token}
    (second : Reads (later name) rest post) : Reads (identifier >>= later) (.ident name :: rest) post :=
  reads_bind_of (reads_next (reads_pure name rest ⟨rfl, rfl⟩)) second

theorem reads_present {later : Bool → Parser β} {t : Token} {rest : List Token}
    (second : Reads (later true) rest post) : Reads (accept t >>= later) (t :: rest) post := by
  refine reads_bind_of (reads_peek ?_) second
  simp only [List.head?_cons, if_pos]
  exact reads_skip (reads_pure true rest ⟨rfl, rfl⟩)

theorem reads_absent {later : Bool → Parser β} {t : Token} {tokens : List Token} (other : tokens.head? ≠ some t)
    (second : Reads (later false) tokens post) : Reads (accept t >>= later) tokens post := by
  refine reads_bind_of (reads_peek ?_) second
  rw [if_neg other]
  exact reads_pure false tokens ⟨rfl, rfl⟩

theorem reads_accept {later : Bool → Parser β} {t : Token} {w rest : List Token} {found : Bool}
    (taken : Optional t w found) (other : rest.head? ≠ some t) (second : Reads (later found) rest post) :
    Reads (accept t >>= later) (w ++ rest) post := by
  cases taken with
  | absent => exact reads_absent other second
  | present => exact reads_present second

end

end Parser

end SoftPlc
