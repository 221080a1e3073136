import SoftPlc.Proofs.Language.Rules

set_option autoImplicit false

namespace SoftPlc.Parser

open Grammar

def atLeast (strength : Nat) : List (List BinaryOp) := levels.drop (strength - 1)

theorem level_of (op : BinaryOp) : ∃ ops,
    atLeast (bindingStrength op) = ops :: atLeast (bindingStrength op + 1) ∧ op ∈ ops := by
  cases op <;> exact ⟨_, rfl, by decide⟩

theorem level_loosened (skipped ls : List (List BinaryOp)) (w : List Token) (e : Expression) (level : Level ls w e) :
    Level (skipped ++ ls) w e := by
  induction skipped with
  | nil => exact level
  | cons ops rest ih => exact .tighter ih

theorem level_weaken (loose tight : Nat) (less : loose ≤ tight) (w : List Token) (e : Expression)
    (level : Level (atLeast tight) w e) : Level (atLeast loose) w e := by
  have split : atLeast loose = (atLeast loose).take (tight - 1 - (loose - 1)) ++ atLeast tight := by
    have rest : atLeast tight = (atLeast loose).drop (tight - 1 - (loose - 1)) := by
      rw [atLeast, atLeast, List.drop_drop]
      congr 1
      omega
    rw [rest, List.take_append_drop]
  rw [split]
  exact level_loosened _ _ w e level

theorem level_binary (op : BinaryOp) (u v : List Token) (l r : Expression)
    (left : Level (atLeast (bindingStrength op)) u l) (right : Level (atLeast (bindingStrength op + 1)) v r) :
    Level (atLeast (bindingStrength op)) (u ++ .operator op :: v) (.binary .unknown op l r) := by
  obtain ⟨ops, levels, known⟩ := level_of op
  rw [levels] at left ⊢
  exact .binary known left right

def Stops (strength : Nat) (tokens : List Token) : Prop :=
  ∀ op, tokens.head? = some (.operator op) → bindingStrength op < strength

section
variable (depth strength : Nat) (left : Expression) (c : Cursor)

theorem operations_after_stops (stops : Stops strength c.tokens) :
    operationsAfter (depth + 1) strength left c = .ok (left, c) := by
  have here : c.rest.head?.map (·.token) = c.tokens.head? := List.head?_map.symm
  simp only [operationsAfter, bind, StateT.bind, peek, here, Except.bind]
  cases next : c.tokens.head? with
  | none => rfl
  | some t =>
    cases t with
    | operator op =>
      simp only [if_pos (stops op next)]
      rfl
    | _ => rfl

theorem operations_after_next (op : BinaryOp) (rest : List Token) (next : c.tokens = .operator op :: rest)
    (tight : strength ≤ bindingStrength op) : ∃ behind, behind.tokens = rest ∧
      operationsAfter (depth + 1) strength left c = (operation depth (bindingStrength op + 1) >>= fun right =>
        operationsAfter depth strength (.binary behind.span op left right)) behind := by
  obtain ⟨lexemes, line, span⟩ := c
  cases lexemes with
  | nil => cases next
  | cons l lexemes =>
    obtain ⟨same, rfl⟩ := List.cons.inj next
    refine ⟨⟨lexemes, l.line, l.span⟩, rfl, ?_⟩
    simp only [operationsAfter, bind, StateT.bind, peek, List.head?_cons, Option.map_some, same, Except.bind,
      if_neg (Nat.not_lt.mpr tight)]
    rfl

end

theorem whole_takes (rule : Parser Expression) (sound : ∀ c c' e, rule c = .ok (e, c') →
    ∃ w, c.tokens = w ++ c'.tokens ∧ Level (atLeast 0) w e.bare ∧ Stops 0 c'.tokens) :
    Takes rule fun w e => Expr w e.bare := by
  intro c e c' answer
  obtain ⟨w, front, level, _⟩ := sound c c' e answer
  exact ⟨w, front, level⟩

mutual
theorem operation_takes (depth strength : Nat) (c c' : Cursor) (e : Expression)
    (answer : operation depth strength c = .ok (e, c')) :
    ∃ w, c.tokens = w ++ c'.tokens ∧ Level (atLeast strength) w e.bare ∧ Stops strength c'.tokens := by
  match depth with
  | 0 => cases answer
  | depth + 1 =>
    rw [operation, bind_ok] at answer
    obtain ⟨left, middle, read, behind⟩ := answer
    obtain ⟨u, front, unary⟩ := operand_takes depth c left middle read
    have level (s : Nat) : Level (atLeast s) u left.bare := by
      simpa using level_loosened (atLeast s) [] u left.bare (.unary unary)
    obtain ⟨w, later, whole, stops⟩ := operations_after_takes depth strength middle c' left e u (level strength)
      (fun op _ _ => level (bindingStrength op)) behind
    exact ⟨u ++ w, by rw [front, later, List.append_assoc], whole, stops⟩

-- The operators in what stands in front bind as tightly as the one that is next, so that it can be
-- the left operand of that one.
theorem operations_after_takes (depth strength : Nat) (c c' : Cursor) (left e : Expression) (u : List Token)
    (level : Level (atLeast strength) u left.bare)
    (bound : ∀ op, c.tokens.head? = some (.operator op) → strength ≤ bindingStrength op →
      Level (atLeast (bindingStrength op)) u left.bare)
    (answer : operationsAfter depth strength left c = .ok (e, c')) :
    ∃ w, c.tokens = w ++ c'.tokens ∧ Level (atLeast strength) (u ++ w) e.bare ∧ Stops strength c'.tokens := by
  match depth with
  | 0 => cases answer
  | depth + 1 =>
    by_cases stops : Stops strength c.tokens
    · cases (operations_after_stops depth strength left c stops).symm.trans answer
      exact ⟨[], rfl, by simpa using level, stops⟩
    · obtain ⟨op, next, tight⟩ : ∃ op, c.tokens.head? = some (.operator op) ∧ strength ≤ bindingStrength op := by
        simpa [Stops] using stops
      obtain ⟨rest, tokens⟩ := List.head?_eq_some_iff.mp next
      obtain ⟨behind, same, goes⟩ := operations_after_next depth strength left c op rest tokens tight
      rw [goes, bind_ok] at answer
      obtain ⟨right, middle, read, later⟩ := answer
      obtain ⟨v, front, operand, ended⟩ := operation_takes depth _ behind middle right read
      have whole := level_binary op u v _ _ (bound op next tight) operand
      obtain ⟨w, remaining, level, stopped⟩ := operations_after_takes depth strength middle c'
        (.binary behind.span op left right) e (u ++ .operator op :: v) (level_weaken _ _ tight _ _ whole)
        (fun other another _ => level_weaken _ _ (Nat.le_of_lt_succ (ended other another)) _ _ whole) later
      refine ⟨.operator op :: (v ++ w), ?_, by simpa using level, stopped⟩
      rw [tokens, ← same, front, remaining, List.cons_append, List.append_assoc]

theorem operand_takes (depth : Nat) : Takes (operand depth) fun w e => Unary w e.bare := by
  match depth with
  | 0 => exact takes_too_deep
  | depth + 1 =>
    rw [operand]
    refine takes_peek fun t => ?_
    split
    · refine takes_skip _ (takes_bind takes_columns fun _ span none => ?_)
      subst none
      exact takes_map (operand_takes depth) fun w e inner => .negation inner
    · refine takes_skip _ (takes_bind takes_columns fun _ span none => ?_)
      subst none
      exact takes_map (operand_takes depth) fun w e inner => .complement inner
    · refine takes_at _ fun c e c' answer => ?_
      obtain ⟨w, front, inner⟩ := primary_takes depth c e c' answer
      exact ⟨w, front, .primary inner⟩

theorem primary_takes (depth : Nat) : Takes (primary depth) fun w e => Primary w e.bare := by
  match depth with
  | 0 => exact takes_too_deep
  | depth + 1 =>
    have whole := whole_takes (operation depth 0) (operation_takes depth 0)
    rw [primary]
    refine takes_bind takes_next fun w t taken => ?_
    subst taken
    split
    · refine takes_bind whole fun w e inner => takes_bind (takes_expect _) fun u _ closed => takes_pure e ?_
      subst closed
      simpa using Primary.parenthesized inner
    · rename_i name
      refine takes_bind takes_columns fun _ span none => ?_
      subst none
      refine takes_bind (takes_accept _) fun u opened paren => takes_if (fun yes => ?_) fun no => ?_
      · subst yes
        cases paren
        refine takes_bind (takes_accept _) fun v closed paren => takes_if (fun yes => ?_) fun no => ?_
        · subst yes
          cases paren
          exact takes_pure _ (.call name)
        · cases paren with
          | present => exact absurd rfl no
          | absent =>
            refine takes_map (arguments_takes depth) fun w args taken => ?_
            obtain ⟨v, rfl, given⟩ := taken
            exact .callWith name given
      · cases paren with
        | present => exact absurd rfl no
        | absent => exact takes_pure _ (.named name)
    · exact takes_map takes_columns fun _ span none => by subst none; exact .integer _
    · exact takes_map takes_columns fun _ span none => by subst none; exact .real _
    · exact takes_map takes_columns fun _ span none => by subst none; exact .bool _
    · exact takes_fail _

theorem arguments_takes (depth : Nat) :
    Takes (arguments depth) fun w args => ∃ v, w = v ++ [.rightParen] ∧ Arguments v (Expression.bareAll args) := by
  match depth with
  | 0 => exact takes_too_deep
  | depth + 1 =>
    have whole := whole_takes (operation depth 0) (operation_takes depth 0)
    rw [arguments]
    refine takes_bind whole fun u e first => takes_bind takes_next fun v t taken => ?_
    subst taken
    split
    · exact takes_pure _ ⟨u, by simp, .one first⟩
    · refine takes_map (arguments_takes depth) fun w args others => ?_
      obtain ⟨v, rfl, rest⟩ := others
      exact ⟨u ++ .comma :: v, by simp, .more first rest⟩
    · exact takes_fail _
end

structure Free (strength : Nat) (rest : List Token) : Prop where
  noCall : rest.head? ≠ some .leftParen
  loose : ∀ op, rest.head? = some (.operator op) → bindingStrength op ≤ strength

theorem Free.mono {loose tight : Nat} {rest : List Token} (free : Free loose rest) (le : loose ≤ tight) :
    Free tight rest where
  noCall := free.noCall
  loose op head := Nat.le_trans (free.loose op head) le

theorem level_at (strength : Nat) (positive : 0 < strength) (ops : List BinaryOp) (tighter : List (List BinaryOp))
    (here : atLeast strength = ops :: tighter) :
    tighter = atLeast (strength + 1) ∧ ∀ op ∈ ops, bindingStrength op = strength := by
  match strength with
  | 1 | 2 | 3 | 4 | 5 =>
    cases here
    exact ⟨rfl, by decide⟩
  | strength + 6 => simp [atLeast, levels] at here

theorem primary_begins (w : List Token) (e : Expression) (primary : Primary w e) :
    ∃ t rest, w = t :: rest ∧ t ≠ .rightParen := by
  cases primary <;> exact ⟨_, _, rfl, nofun⟩

theorem unary_begins (w : List Token) (e : Expression) (unary : Unary w e) :
    ∃ t rest, w = t :: rest ∧ t ≠ .rightParen := by
  cases unary with
  | negation | complement => exact ⟨_, _, rfl, nofun⟩
  | primary operand => exact primary_begins w e operand

theorem level_begins (ls : List (List BinaryOp)) (w : List Token) (e : Expression) (level : Level ls w e) :
    ∃ t rest, w = t :: rest ∧ t ≠ .rightParen :=
  match level with
  | .unary operand => unary_begins _ _ operand
  | .tighter inner => level_begins _ _ _ inner
  | .binary _ left _ =>
    have ⟨t, rest, front, other⟩ := level_begins _ _ _ left
    ⟨t, rest ++ _, congrArg (· ++ _) front, other⟩

theorem arguments_begin (w : List Token) (args : List Expression) (given : Arguments w args) :
    ∃ t rest, w = t :: rest ∧ t ≠ .rightParen := by
  cases given with
  | one only => exact level_begins _ _ _ only
  | more first others =>
    obtain ⟨t, rest, rfl, other⟩ := level_begins _ _ _ first
    exact ⟨t, _, rfl, other⟩

theorem operand_first (depth strength : Nat) (e : Expression) (w rest : List Token)
    (reads : Reads (operand depth) (w ++ rest) fun found left => found.bare = e ∧ left = rest)
    (c : Cursor) (front : c.tokens = w ++ rest) :
    ∃ left c', operation (depth + 1) strength c = operationsAfter depth strength left c' ∧ left.bare = e ∧
      c'.tokens = rest := by
  obtain ⟨left, c', read, same, ended⟩ := reads c front
  refine ⟨left, c', ?_, same, ended⟩
  simp only [operation, bind, StateT.bind, read, Except.bind]

-- Reading comes to where the expression is the left operand of what may follow. Of the depth each of
-- its tokens has used up four at most: the deepest way to the next token is from an argument over an
-- operation and an operand to a name or a parenthesis.
def Reaches (depth strength : Nat) (w : List Token) (e : Expression) (rest : List Token) : Prop :=
  ∀ c, c.tokens = w ++ rest → ∃ d left c', operation depth strength c = operationsAfter d strength left c' ∧
    left.bare = e ∧ c'.tokens = rest ∧ depth ≤ d + 4 * w.length

theorem reads_of_reaches (depth : Nat) (w : List Token) (e : Expression) (rest : List Token) (free : Free 0 rest)
    (room : 4 * w.length + 2 ≤ depth)
    (reaches : Free 1 rest → 4 * w.length + 2 ≤ depth → Reaches depth 0 w e rest) :
    Reads (operation depth 0) (w ++ rest) fun found left => found.bare = e ∧ left = rest := by
  intro c front
  obtain ⟨d, found, c', reads, same, ended, used⟩ := reaches (free.mono (Nat.zero_le 1)) room c front
  obtain ⟨d, rfl⟩ : ∃ less, d = less + 1 := ⟨d - 1, by omega⟩
  have stops : Stops 0 c'.tokens := fun op head => by
    have loose := free.loose op (ended ▸ head)
    cases op <;> cases loose
  exact ⟨found, c', reads.trans (operations_after_stops d 0 found c' stops), same, ended⟩

mutual
theorem level_reads (ls : List (List BinaryOp)) (w : List Token) (e : Expression) (level : Level ls w e)
    (depth strength k : Nat) (here : ls = atLeast k) (positive : 0 < k) (within : strength ≤ k)
    (rest : List Token) (free : Free k rest) (room : 4 * w.length + 2 ≤ depth) :
    Reaches depth strength w e rest :=
  match level with
  | .unary operand => by
    intro c front
    obtain ⟨depth, rfl⟩ : ∃ d, depth = d + 1 := ⟨depth - 1, by omega⟩
    obtain ⟨t, more, long, -⟩ := unary_begins w e operand
    have length : w.length = more.length + 1 := congrArg List.length long
    obtain ⟨left, c', read, same, ended⟩ := operand_first depth strength e w rest
      (unary_reads w e operand depth (by omega) rest free.noCall) c front
    exact ⟨depth, left, c', read, same, ended, by omega⟩
  | .tighter inner => by
    obtain ⟨tighter, -⟩ := level_at k positive _ _ here.symm
    exact level_reads _ w e inner depth strength (k + 1) tighter (Nat.succ_pos k) (Nat.le_succ_of_le within) rest
      (free.mono (Nat.le_succ k)) room
  | @Level.binary _ _ op u v _ _ known left right => by
    obtain ⟨tighter, strengths⟩ := level_at k positive _ _ here.symm
    have binds := strengths op known
    intro c front
    simp only [List.length_append, List.length_cons, List.append_assoc, List.cons_append] at room front ⊢
    obtain ⟨d, l, c1, first, leftSame, after, used⟩ := level_reads _ u _ left depth strength k here positive within
      (.operator op :: (v ++ rest)) ⟨by simp, by simp [binds]⟩ (by omega) c front
    obtain ⟨d, rfl⟩ : ∃ less, d = less + 1 := ⟨d - 1, by omega⟩
    obtain ⟨c2, behind, goes⟩ := operations_after_next d strength l c1 op (v ++ rest) after (binds ▸ within)
    obtain ⟨d', r, c3, second, rightSame, ended, spent⟩ := level_reads _ v _ right d (bindingStrength op + 1)
      (k + 1) tighter (Nat.succ_pos k) (by omega) rest (free.mono (Nat.le_succ k)) (by omega) c2 behind
    obtain ⟨d', rfl⟩ : ∃ less, d' = less + 1 := ⟨d' - 1, by omega⟩
    have stops : Stops (bindingStrength op + 1) c3.tokens := fun other head => by
      have loose := free.loose other (ended ▸ head)
      omega
    refine ⟨d, .binary c2.span op l r, c3, ?_, ?_, ended, by omega⟩
    · rw [first, goes]
      simp only [bind, StateT.bind, second, operations_after_stops d' _ r c3 stops, Except.bind]
    · rw [Expression.bare, leftSame, rightSame]

theorem unary_reads (w : List Token) (e : Expression) (unary : Unary w e) (depth : Nat)
    (room : 4 * w.length + 1 ≤ depth) (rest : List Token) (noCall : rest.head? ≠ some .leftParen) :
    Reads (operand depth) (w ++ rest) fun found left => found.bare = e ∧ left = rest := by
  obtain ⟨depth, rfl⟩ : ∃ d, depth = d + 1 := ⟨depth - 1, by omega⟩
  rw [operand]
  exact match unary with
  | .negation operand => by
    refine reads_peek (reads_skip (reads_columns fun span => ?_))
    simp only [List.length_cons] at room
    refine reads_bind (unary_reads _ _ operand depth (by omega) rest noCall) ?_
    rintro e _ ⟨rfl, rfl⟩
    exact reads_pure _ _ ⟨rfl, rfl⟩
  | .complement operand => by
    refine reads_peek (reads_skip (reads_columns fun span => ?_))
    simp only [List.length_cons] at room
    refine reads_bind (unary_reads _ _ operand depth (by omega) rest noCall) ?_
    rintro e _ ⟨rfl, rfl⟩
    exact reads_pure _ _ ⟨rfl, rfl⟩
  | .primary operand => by
    have reads := primary_reads w e operand depth (by omega) rest noCall
    refine reads_peek ?_
    cases operand <;> exact reads

theorem primary_reads (w : List Token) (e : Expression) (operand : Primary w e) (depth : Nat)
    (room : 4 * w.length ≤ depth) (rest : List Token) (noCall : rest.head? ≠ some .leftParen) :
    Reads (primary depth) (w ++ rest) fun found left => found.bare = e ∧ left = rest := by
  obtain ⟨depth, rfl⟩ : ∃ d, depth = d + 1 := by
    obtain ⟨t, more, rfl, -⟩ := primary_begins w e operand
    exact ⟨depth - 1, by simp only [List.length_cons] at room; omega⟩
  rw [primary]
  exact match operand with
  | .integer n | .real n | .bool n => reads_next (reads_columns fun span => reads_pure _ _ ⟨rfl, rfl⟩)
  | .named name => reads_next (reads_columns fun span => reads_absent noCall (reads_pure _ _ ⟨rfl, rfl⟩))
  | .call name => reads_next (reads_columns fun span => reads_present (reads_present (reads_pure _ _ ⟨rfl, rfl⟩)))
  | .callWith (w := w) name given => by
    simp only [List.length_cons, List.length_append] at room
    obtain ⟨t, more, long, other⟩ := arguments_begin w _ given
    have open_ : (w ++ .rightParen :: rest).head? ≠ some .rightParen := by simpa [long] using other
    simp only [List.cons_append, List.append_assoc, List.nil_append]
    refine reads_next (reads_columns fun span => reads_present (reads_absent open_ ?_))
    refine reads_bind (arguments_reads w _ given depth (by omega) rest) ?_
    rintro args _ ⟨same, rfl⟩
    exact reads_pure _ _ ⟨by rw [Expression.bare, same], rfl⟩
  | .parenthesized (w := w) inner => by
    simp only [List.length_cons, List.length_append] at room
    simp only [List.cons_append, List.append_assoc, List.nil_append]
    refine reads_next (reads_bind (reads_of_reaches depth w e (.rightParen :: rest) ⟨nofun, nofun⟩ (by omega)
      (level_reads levels w e inner depth 0 1 rfl Nat.one_pos (Nat.zero_le 1) _)) ?_)
    rintro e _ ⟨rfl, rfl⟩
    exact reads_expect (reads_pure _ _ ⟨rfl, rfl⟩)

theorem arguments_reads (w : List Token) (args : List Expression) (given : Arguments w args) (depth : Nat)
    (room : 4 * w.length + 3 ≤ depth) (rest : List Token) :
    Reads (arguments depth) (w ++ .rightParen :: rest) fun found left =>
      Expression.bareAll found = args ∧ left = rest := by
  obtain ⟨depth, rfl⟩ : ∃ d, depth = d + 1 := ⟨depth - 1, by omega⟩
  rw [arguments]
  exact match given with
  | .one only => by
    refine reads_bind (reads_of_reaches depth w _ (.rightParen :: rest) ⟨nofun, nofun⟩ (by omega)
      (level_reads levels w _ only depth 0 1 rfl Nat.one_pos (Nat.zero_le 1) _)) ?_
    rintro e _ ⟨rfl, rfl⟩
    exact reads_next (reads_pure _ _ ⟨rfl, rfl⟩)
  | .more (u := u) (v := v) first others => by
    simp only [List.length_cons, List.length_append] at room
    simp only [List.cons_append, List.append_assoc]
    refine reads_bind (reads_of_reaches depth u _ (.comma :: (v ++ .rightParen :: rest)) ⟨nofun, nofun⟩ (by omega)
      (level_reads levels u _ first depth 0 1 rfl Nat.one_pos (Nat.zero_le 1) _)) ?_
    rintro e _ ⟨rfl, rfl⟩
    refine reads_next (reads_bind (arguments_reads v _ others depth (by omega) rest) ?_)
    rintro args _ ⟨rfl, rfl⟩
    exact reads_pure _ _ ⟨rfl, rfl⟩
end

section
variable {β : Type}

theorem expression_takes : Takes expression fun w e => Expr w e.bare :=
  whole_takes expression fun c => operation_takes (roomFor c) 0 c

theorem expression_reads (w rest : List Token) (e : Expression) (expr : Expr w e) (free : Free 0 rest) :
    Reads expression (w ++ rest) fun found left => found.bare = e ∧ left = rest := by
  intro c front
  have room : 4 * w.length + 2 ≤ roomFor c := by
    have length : c.rest.length = w.length + rest.length := by
      simpa [Cursor.tokens] using congrArg List.length front
    rw [roomFor]
    omega
  exact reads_of_reaches (roomFor c) w e rest free room
    (level_reads levels w e expr (roomFor c) 0 1 rfl Nat.one_pos (Nat.zero_le 1) rest) c front

theorem reads_expression {post : β → List Token → Prop} {later : Expression → Parser β} {w rest : List Token}
    {e : Expression} (expr : Expr w e) (free : Free 0 rest)
    (second : ∀ found, found.bare = e → Reads (later found) rest post) :
    Reads (expression >>= later) (w ++ rest) post := by
  refine reads_bind (expression_reads w rest e expr free) ?_
  rintro found _ ⟨same, rfl⟩
  exact second found same

variable {next : Option Expression → Parser β}

theorem takes_led (t : Token) {whole : List Token → β → Prop}
    (second : ∀ u value, Led t u (value.map Expression.bare) → Takes (next value) fun v b => whole (u ++ v) b) :
    Takes (accept t >>= fun given =>
      if given then (expression >>= fun e => pure (some e)) >>= next else pure none >>= next) whole := by
  refine takes_bind (takes_accept t) fun u given lead => ?_
  cases lead with
  | absent => exact second [] none .none
  | present =>
    have taken : Takes (expression >>= fun e => pure (some e)) fun w value =>
        Led t (t :: w) (value.map Expression.bare) := takes_map expression_takes fun w e value => .some value
    exact takes_bind taken fun w value led => second (t :: w) value led

theorem reads_led {t : Token} {post : β → List Token → Prop} {w rest : List Token} {value : Option Expression}
    (led : Led t w value) (other : rest.head? ≠ some t) (free : Free 0 rest)
    (second : ∀ found, found.map Expression.bare = value → Reads (next found) rest post) :
    Reads (accept t >>= fun given =>
      if given then (expression >>= fun e => pure (some e)) >>= next else pure none >>= next) (w ++ rest) post := by
  cases led with
  | none => exact reads_absent other (second none rfl)
  | @some w e whole =>
    have first : Reads (expression >>= fun e => pure (some e)) (w ++ rest) fun found left =>
        found.map Expression.bare = some e ∧ left = rest :=
      reads_expression whole free fun found same => reads_pure _ rest ⟨congrArg some same, rfl⟩
    refine reads_present (reads_bind first ?_)
    rintro found _ ⟨same, rfl⟩
    exact second found same

end

end SoftPlc.Parser
