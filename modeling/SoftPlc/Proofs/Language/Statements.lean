import SoftPlc.Proofs.Language.Expressions

set_option autoImplicit false

namespace SoftPlc.Parser

open Grammar

theorem takes_then_expect {α β : Type} {t : Token} {next : α → Parser β} {rule : Parser α}
    {derives : List Token → α → Prop} {whole : List Token → β → Prop} (first : Takes rule derives)
    (second : ∀ u a, derives u a → Takes (next a) fun v b => whole (u ++ t :: v) b) :
    Takes (rule >>= fun a => expect t >>= fun _ => next a) whole := by
  refine takes_bind first fun u a here => takes_bind (takes_expect t) fun w _ one => ?_
  subst one
  exact second u a here

theorem signed_integer_takes : Takes signedInteger Number := by
  refine takes_bind (takes_accept _) fun u negative sign => takes_bind takes_next fun w t taken => ?_
  subst taken
  split
  · cases sign with
    | absent => exact takes_pure _ (.plain _)
    | present => exact takes_pure _ (.negative _)
  · exact takes_fail _

theorem case_label_takes : Takes caseLabel Label := by
  refine takes_bind signed_integer_takes fun u low first => takes_bind (takes_accept _) fun v range dots => ?_
  cases dots with
  | absent => exact takes_pure _ (by simpa using Label.single first)
  | present =>
    refine takes_bind signed_integer_takes fun w high last => takes_if (fun _ => takes_fail _) fun ordered => ?_
    exact takes_pure _ (by simpa using Label.range first last (Int.not_lt.mp ordered))

theorem case_labels_takes (depth : Nat) :
    Takes (caseLabels depth) fun w labels => ∃ v, w = v ++ [.colon] ∧ Labels v labels := by
  induction depth with
  | zero => exact takes_too_deep
  | succ depth ih =>
    rw [caseLabels]
    refine takes_bind case_label_takes fun u label first => takes_bind takes_next fun v t taken => ?_
    subst taken
    split
    · refine takes_map ih fun w labels others => ?_
      obtain ⟨v, rfl, rest⟩ := others
      exact ⟨u ++ .comma :: v, by simp, .more first rest⟩
    · exact takes_pure _ ⟨u, by simp, .one first⟩
    · exact takes_fail _

mutual
theorem block_takes (depth : Nat) : Takes (block depth) fun w body => Block w (Statement.bareBlock body) := by
  match depth with
  | 0 => exact takes_too_deep
  | depth + 1 =>
    rw [block]
    refine takes_peek fun t => ?_
    split
    · refine takes_skip _ fun c body c' answer => ?_
      obtain ⟨w, front, others⟩ := block_takes depth c body c' answer
      exact ⟨w, front, .stray others⟩
    · refine takes_at _ (takes_if (fun _ => ?_) fun _ => takes_pure [] .empty)
      exact takes_bind (statement_takes depth) fun u s first => takes_map (block_takes depth) fun v body others =>
        .cons first others
    · exact takes_at _ (takes_pure [] .empty)

theorem statement_takes (depth : Nat) : Takes (statement depth) fun w s => Stmt w s.bare := by
  match depth with
  | 0 => exact takes_too_deep
  | depth + 1 =>
    rw [statement]
    refine takes_bind takes_next fun w t taken => takes_bind takes_here fun _ line none => ?_
    subst none
    refine takes_bind takes_columns fun _ span none => ?_
    subst none taken
    split
    · rename_i name
      refine takes_bind (takes_expect _) fun a _ assign => takes_then_expect expression_takes fun w e value => ?_
      refine takes_pure _ ?_
      subst assign
      exact .assign name value
    · refine takes_then_expect expression_takes fun c e condition => ?_
      refine takes_bind (block_takes depth) fun w body inner => ?_
      refine takes_bind (branches_takes depth) fun u both rest => takes_ended fun last ended semicolon => ?_
      obtain ⟨more, other, rfl, branches, otherwise⟩ := rest
      simpa [Statement.bare, Statement.bareBranches] using Stmt.choose condition inner branches otherwise semicolon
    · refine takes_then_expect expression_takes fun c e selector => ?_
      refine takes_bind (arms_takes depth) fun u both rest => takes_ended fun last ended semicolon => ?_
      obtain ⟨w, other, rfl, choices, otherwise⟩ := rest
      simpa [Statement.bare] using Stmt.select selector choices otherwise semicolon
    · refine takes_bind takes_identifier fun i name ident => takes_bind takes_columns fun _ span none => ?_
      subst ident none
      refine takes_bind (takes_expect _) fun a _ assign => takes_then_expect expression_takes fun u low start => ?_
      subst assign
      refine takes_bind expression_takes fun v high stop => takes_led _ fun x step steps => ?_
      refine takes_bind (takes_expect _) fun d _ word => takes_then_expect (block_takes depth) fun w body inner => ?_
      subst word
      refine takes_ended fun last ended semicolon => ?_
      simpa [Statement.bare] using Stmt.count name start stop steps inner semicolon
    · refine takes_then_expect expression_takes fun c e condition => ?_
      refine takes_then_expect (block_takes depth) fun w body inner => ?_
      refine takes_ended fun last ended semicolon => ?_
      simpa [Statement.bare] using Stmt.while condition inner semicolon
    · refine takes_then_expect (block_takes depth) fun w body inner => ?_
      refine takes_then_expect expression_takes fun c e condition => ?_
      refine takes_ended fun last ended semicolon => ?_
      simpa [Statement.bare] using Stmt.repeat inner condition semicolon
    · exact takes_map (takes_expect _) fun w _ semicolon => by subst semicolon; exact .exit
    · exact takes_map (takes_expect _) fun w _ semicolon => by subst semicolon; exact .leave
    · exact takes_fail _
    · exact takes_fail _

theorem branches_takes (depth : Nat) : Takes (branchesAfter depth) fun w both =>
    ∃ more other, w = more ++ (other ++ [.word .endIf]) ∧ Branches more (Statement.bareBranches both.1) ∧
      Otherwise other (Statement.bareBlock both.2) := by
  match depth with
  | 0 => exact takes_too_deep
  | depth + 1 =>
    rw [branchesAfter]
    refine takes_bind takes_next fun w t taken => ?_
    subst taken
    split
    · refine takes_then_expect expression_takes fun c e condition => ?_
      refine takes_bind (block_takes depth) fun w body inner => ?_
      refine takes_map (branches_takes depth) fun u both rest => ?_
      obtain ⟨more, other, rfl, others, otherwise⟩ := rest
      exact ⟨.word .elsif :: (c ++ .word .thenWord :: (w ++ more)), other, by simp,
        .more condition inner others, otherwise⟩
    · refine takes_then_expect (block_takes depth) fun w body inner => ?_
      exact takes_pure _ ⟨[], .word .elseWord :: w, by simp, .none, .block inner⟩
    · exact takes_pure _ ⟨[], [], rfl, .none, .nothing⟩
    · exact takes_fail _

theorem arms_takes (depth : Nat) : Takes (caseArms depth) fun w both =>
    ∃ u other, w = u ++ (other ++ [.word .endCase]) ∧ Arms u (Statement.bareArms both.1) ∧
      Otherwise other (Statement.bareBlock both.2) := by
  match depth with
  | 0 => exact takes_too_deep
  | depth + 1 =>
    rw [caseArms]
    refine takes_peek fun t => ?_
    split
    · refine takes_skip _ (takes_then_expect (block_takes depth) fun w body inner => ?_)
      exact takes_pure _ ⟨[], .word .elseWord :: w, by simp, .none, .block inner⟩
    · exact takes_skip _ (takes_pure _ ⟨[], [], rfl, .none, .nothing⟩)
    · refine takes_at _ (takes_bind (case_labels_takes depth) fun u labels known => ?_)
      refine takes_bind (block_takes depth) fun w body inner => ?_
      refine takes_map (arms_takes depth) fun v both rest => ?_
      obtain ⟨u, rfl, known⟩ := known
      obtain ⟨more, other, rfl, others, otherwise⟩ := rest
      exact ⟨u ++ .colon :: (w ++ more), other, by simp, .more known inner others, otherwise⟩
end

-- What is left to read, or that without the semicolon in front of it.
def Short (left rest : List Token) : Prop := left = rest ∨ .semicolon :: left = rest

def Closes (rest : List Token) : Prop :=
  ∀ t, rest.head? = some t → t ≠ .semicolon ∧ beginsStatement t = false

theorem closes_at (t : Token) (rest : List Token) (other : t ≠ .semicolon) (ends : beginsStatement t = false) :
    Closes (t :: rest) := by
  rintro _ ⟨⟩
  exact ⟨other, ends⟩

section
variable {β : Type} {post : β → List Token → Prop}

theorem reads_optional_semicolon {later : Unit → Parser β} {last rest : List Token} {ended : Bool}
    (semicolon : Optional .semicolon last ended) (second : ∀ left, Short left rest → Reads (later ()) left post) :
    Reads (optionalSemicolon >>= later) (last ++ rest) post := by
  refine reads_bind (?_ : Reads optionalSemicolon _ fun _ left => Short left rest) fun _ left short => second left short
  cases semicolon with
  | present => exact reads_present (reads_pure () rest (.inl rfl))
  | absent =>
    by_cases more : rest.head? = some .semicolon
    · obtain ⟨left, rfl⟩ := List.head?_eq_some_iff.mp more
      exact reads_present (reads_pure () left (.inr rfl))
    · exact reads_absent more (reads_pure () rest (.inl rfl))

theorem reads_number {later : Int → Parser β} {w rest : List Token} {n : Int} (number : Number w n)
    (second : Reads (later n) rest post) : Reads (signedInteger >>= later) (w ++ rest) post := by
  refine reads_bind_of ?_ second
  cases number with
  | plain n => exact reads_absent nofun (reads_next (reads_pure _ rest ⟨rfl, rfl⟩))
  | negative n => exact reads_present (reads_next (reads_pure _ rest ⟨rfl, rfl⟩))

theorem reads_label {later : CaseLabel → Parser β} {w rest : List Token} {label : CaseLabel} (derived : Label w label)
    (other : rest.head? ≠ some .range) (second : Reads (later label) rest post) :
    Reads (caseLabel >>= later) (w ++ rest) post := by
  refine reads_bind_of ?_ second
  cases derived with
  | single number => exact reads_number number (reads_absent other (reads_pure _ rest ⟨rfl, rfl⟩))
  | range first last ordered =>
    rw [List.append_assoc]
    refine reads_number first (reads_present (reads_number last ?_))
    rw [if_neg (Int.not_lt.mpr ordered)]
    exact reads_pure _ rest ⟨rfl, rfl⟩

end

theorem labels_read (w : List Token) (labels : List CaseLabel) (derived : Labels w labels) (depth : Nat)
    (room : w.length + 1 ≤ depth) (rest : List Token) :
    Reads (caseLabels depth) (w ++ .colon :: rest) fun found left => found = labels ∧ left = rest := by
  induction derived generalizing depth with
  | one only =>
    obtain ⟨depth, rfl⟩ : ∃ d, depth = d + 1 := ⟨depth - 1, by omega⟩
    exact reads_label only nofun (reads_next (reads_pure _ rest ⟨rfl, rfl⟩))
  | more first others ih =>
    obtain ⟨depth, rfl⟩ : ∃ d, depth = d + 1 := ⟨depth - 1, by omega⟩
    simp only [List.length_append, List.length_cons] at room
    simp only [List.append_assoc, List.cons_append]
    exact reads_label first nofun (reads_next (reads_bind_of (ih depth (by omega)) (reads_pure _ _ ⟨rfl, rfl⟩)))

theorem labels_begin (w : List Token) (labels : List CaseLabel) (derived : Labels w labels) :
    (∃ n rest, w = .integer n :: rest) ∨ ∃ rest, w = .operator .subtract :: rest := by
  have of_number (u v : List Token) (n : Int) (number : Number u n) :
      (∃ n rest, u ++ v = .integer n :: rest) ∨ ∃ rest, u ++ v = .operator .subtract :: rest := by
    cases number with
    | plain n => exact .inl ⟨n, v, rfl⟩
    | negative n => exact .inr ⟨.integer n :: v, rfl⟩
  have of_label (u v : List Token) (label : CaseLabel) (derived : Label u label) :
      (∃ n rest, u ++ v = .integer n :: rest) ∨ ∃ rest, u ++ v = .operator .subtract :: rest := by
    cases derived with
    | single number => exact of_number u v _ number
    | range first last ordered =>
      rw [List.append_assoc]
      exact of_number _ _ _ first
  cases derived with
  | one only => simpa using of_label w [] _ only
  | more first others => exact of_label _ _ _ first

theorem statement_begins (w : List Token) (s : Statement) (derived : Stmt w s) :
    ∃ t rest, w = t :: rest ∧ beginsStatement t = true := by
  cases derived <;> exact ⟨_, _, rfl, rfl⟩

theorem branches_close (w other rest : List Token) (branches : List (Expression × List Statement))
    (otherwise : List Statement) (others : Branches w branches) (last : Otherwise other otherwise) :
    Closes (w ++ (other ++ .word .endIf :: rest)) := by
  cases others <;> cases last <;> exact closes_at _ _ nofun rfl

theorem arms_close (w other rest : List Token) (arms : List (List CaseLabel × List Statement))
    (otherwise : List Statement) (choices : Arms w arms) (last : Otherwise other otherwise) :
    Closes (w ++ (other ++ .word .endCase :: rest)) := by
  cases choices with
  | none => cases last <;> exact closes_at _ _ nofun rfl
  | more known inner others =>
    obtain ⟨n, more, rfl⟩ | ⟨more, rfl⟩ := labels_begin _ _ known
    · exact closes_at _ _ nofun rfl
    · exact closes_at _ _ nofun rfl

theorem block_reads_first (depth : Nat) (t : Token) (rest : List Token) (begins : beginsStatement t = true)
    {post : List Statement → List Token → Prop}
    (second : Reads (statement depth >>= fun first => block depth >>= fun others => pure (first :: others))
      (t :: rest) post) : Reads (block (depth + 1)) (t :: rest) post := by
  rw [block]
  refine reads_peek ?_
  cases t with
  | ident name => exact second
  | word w => cases w <;> first | exact second | cases begins
  | _ => cases begins

theorem block_reads_end (depth : Nat) (rest : List Token) (closes : Closes rest) :
    Reads (block (depth + 1)) rest fun found left => found = [] ∧ left = rest := by
  rw [block]
  refine reads_peek ?_
  cases rest with
  | nil => exact reads_pure _ _ ⟨rfl, rfl⟩
  | cons t rest =>
    obtain ⟨other, ends⟩ := closes t rfl
    split
    · rename_i same
      exact absurd (Option.some.inj same) other
    · rename_i same
      rw [← Option.some.inj same, ends]
      exact reads_pure _ _ ⟨rfl, rfl⟩
    · exact reads_pure _ _ ⟨rfl, rfl⟩

theorem arms_reads_arm (depth : Nat) (w rest : List Token) (labels : List CaseLabel) (known : Labels w labels)
    {post : List (List CaseLabel × List Statement) × List Statement → List Token → Prop}
    (second : Reads (caseLabels depth >>= fun labels => block depth >>= fun body => caseArms depth >>= fun both =>
      pure ((labels, body) :: both.1, both.2)) (w ++ rest) post) :
    Reads (caseArms (depth + 1)) (w ++ rest) post := by
  rw [caseArms]
  refine reads_peek ?_
  obtain ⟨n, more, rfl⟩ | ⟨more, rfl⟩ := labels_begin w labels known
  · exact second
  · exact second

theorem step_free (w rest : List Token) (step : Option Expression) (steps : Led (.word .byWord) w step) :
    Free 0 (w ++ .word .doWord :: rest) := by
  cases steps <;> exact ⟨nofun, nofun⟩

mutual
theorem block_reads (w : List Token) (body : List Statement) (derived : Block w body) (depth : Nat)
    (room : 2 * w.length + 1 ≤ depth) (rest : List Token) (closes : Closes rest) (tokens : List Token)
    (short : Short tokens (w ++ rest)) :
    Reads (block depth) tokens fun found left => Statement.bareBlock found = body ∧ left = rest := by
  obtain ⟨depth, rfl⟩ : ∃ d, depth = d + 1 := ⟨depth - 1, by omega⟩
  exact match derived with
  | .empty => by
    obtain rfl | skipped := short
    · refine fun c front => ?_
      obtain ⟨found, c', read, rfl, ended⟩ := block_reads_end depth _ closes c front
      exact ⟨[], c', read, rfl, ended⟩
    · exact absurd rfl (closes .semicolon (by rw [← List.nil_append rest, ← skipped]; rfl)).1
  | .stray (w := w) others => by
    simp only [List.length_cons] at room
    obtain rfl | skipped := short
    · rw [block]
      exact reads_peek (reads_skip (block_reads w _ others depth (by omega) rest closes _ (.inl rfl)))
    · exact block_reads w _ others (depth + 1) (by omega) rest closes tokens (.inl (List.cons.inj skipped).2)
  | .cons (u := u) (v := v) first others => by
    obtain ⟨t, more, long, begins⟩ := statement_begins u _ first
    have length : u.length = more.length + 1 := congrArg List.length long
    simp only [List.length_append] at room
    obtain rfl | skipped := short
    · have reads := statement_reads u _ first depth (by omega) (v ++ rest)
      rw [List.append_assoc]
      rw [long, List.cons_append] at reads ⊢
      refine block_reads_first depth t _ begins (reads_bind reads ?_)
      rintro s left ⟨same, short⟩
      refine reads_bind (block_reads v _ others depth (by omega) rest closes left short) ?_
      rintro body _ ⟨rest, rfl⟩
      exact reads_pure _ _ ⟨by rw [Statement.bareBlock, same, rest], rfl⟩
    · rw [long] at skipped
      rw [← (List.cons.inj skipped).1] at begins
      cases begins

theorem statement_reads (w : List Token) (s : Statement) (derived : Stmt w s) (depth : Nat)
    (room : 2 * w.length ≤ depth) (rest : List Token) :
    Reads (statement depth) (w ++ rest) fun found left => found.bare = s ∧ Short left rest := by
  obtain ⟨depth, rfl⟩ : ∃ d, depth = d + 1 := by
    obtain ⟨t, more, rfl, -⟩ := statement_begins w s derived
    exact ⟨depth - 1, by simp only [List.length_cons] at room; omega⟩
  rw [statement]
  exact match derived with
  | .assign name value => by
    simp only [List.cons_append, List.append_assoc, List.nil_append]
    refine reads_next (reads_here fun line => reads_columns fun span => reads_expect ?_)
    refine reads_expression value ⟨nofun, nofun⟩ fun e same => reads_expect (reads_pure _ _ ⟨?_, .inl rfl⟩)
    rw [Statement.bare, same]
  | @Stmt.choose _ w more other _ _ _ _ _ _ condition inner others otherwise semicolon => by
    simp only [List.length_cons, List.length_append] at room
    simp only [List.cons_append, List.append_assoc]
    refine reads_next (reads_here fun line => reads_columns fun span => ?_)
    refine reads_expression condition ⟨nofun, nofun⟩ fun e sameCondition => reads_expect ?_
    have ends rest := branches_close _ _ rest _ _ others otherwise
    refine reads_bind (block_reads w _ inner depth (by omega) _ (ends _) _ (.inl rfl)) ?_
    rintro body _ ⟨sameBody, rfl⟩
    have tail := else_reads other _ otherwise
    refine reads_bind (branches_read more _ others other _ otherwise _ (tail _) depth (by omega)) ?_
    rintro ⟨branches, last⟩ _ ⟨sameBranches, sameLast, rfl⟩
    refine reads_optional_semicolon semicolon fun left short => reads_pure _ _ ⟨?_, short⟩
    rw [Statement.bare, Statement.bareBranches, sameCondition, sameBody, sameBranches, sameLast]
  | @Stmt.select _ w other _ _ _ _ _ selector choices otherwise semicolon => by
    simp only [List.length_cons, List.length_append] at room
    simp only [List.cons_append, List.append_assoc]
    refine reads_next (reads_here fun line => reads_columns fun span => ?_)
    refine reads_expression selector ⟨nofun, nofun⟩ fun e sameSelector => reads_expect ?_
    have tail := case_else_reads other _ otherwise
    refine reads_bind (arms_read w _ choices other _ otherwise _ (tail _) depth (by omega)) ?_
    rintro ⟨arms, last⟩ _ ⟨sameArms, sameLast, rfl⟩
    refine reads_optional_semicolon semicolon fun left short => reads_pure _ _ ⟨?_, short⟩
    rw [Statement.bare, sameSelector, sameArms, sameLast]
  | .count (w := w) name start stop steps inner semicolon => by
    simp only [List.length_cons, List.length_append] at room
    simp only [List.cons_append, List.append_assoc]
    refine reads_next (reads_here fun line => reads_columns fun _ => reads_identifier (reads_columns fun span => ?_))
    refine reads_expect (reads_expression start ⟨nofun, nofun⟩ fun low sameLow => reads_expect ?_)
    refine reads_expression stop (step_free _ _ _ steps) fun high sameHigh => ?_
    refine reads_led steps nofun ⟨nofun, nofun⟩ fun step sameStep => reads_expect ?_
    have ends rest := closes_at (.word .endFor) rest nofun rfl
    refine reads_bind (block_reads w _ inner depth (by omega) _ (ends _) _ (.inl rfl)) ?_
    rintro body _ ⟨sameBody, rfl⟩
    refine reads_expect (reads_optional_semicolon semicolon fun left short => reads_pure _ _ ⟨?_, short⟩)
    rw [Statement.bare, sameLow, sameHigh, sameStep, sameBody]
  | .while (w := w) condition inner semicolon => by
    simp only [List.length_cons, List.length_append] at room
    simp only [List.cons_append, List.append_assoc]
    refine reads_next (reads_here fun line => reads_columns fun span => ?_)
    refine reads_expression condition ⟨nofun, nofun⟩ fun e sameCondition => reads_expect ?_
    have ends rest := closes_at (.word .endWhile) rest nofun rfl
    refine reads_bind (block_reads w _ inner depth (by omega) _ (ends _) _ (.inl rfl)) ?_
    rintro body _ ⟨sameBody, rfl⟩
    refine reads_expect (reads_optional_semicolon semicolon fun left short => reads_pure _ _ ⟨?_, short⟩)
    rw [Statement.bare, sameCondition, sameBody]
  | .repeat (w := w) inner condition semicolon => by
    simp only [List.length_cons, List.length_append] at room
    simp only [List.cons_append, List.append_assoc]
    refine reads_next (reads_here fun line => reads_columns fun span => ?_)
    have ends rest := closes_at (.word .until) rest nofun rfl
    refine reads_bind (block_reads w _ inner depth (by omega) _ (ends _) _ (.inl rfl)) ?_
    rintro body _ ⟨sameBody, rfl⟩
    refine reads_expect (reads_expression condition ⟨nofun, nofun⟩ fun e sameCondition => reads_expect ?_)
    refine reads_optional_semicolon semicolon fun left short => reads_pure _ _ ⟨?_, short⟩
    rw [Statement.bare, sameBody, sameCondition]
  | .exit | .leave =>
    reads_next (reads_here fun line => reads_columns fun span => reads_expect (reads_pure _ _ ⟨rfl, .inl rfl⟩))

theorem branches_read (w : List Token) (branches : List (Expression × List Statement)) (derived : Branches w branches)
    (other : List Token) (otherwise : List Statement) (last : Otherwise other otherwise) (rest : List Token)
    (tail : ∀ depth, 2 * other.length + 2 ≤ depth → Reads (branchesAfter depth) (other ++ .word .endIf :: rest)
      fun both left => Statement.bareBranches both.1 = [] ∧ Statement.bareBlock both.2 = otherwise ∧ left = rest)
    (depth : Nat) (room : 2 * (w.length + other.length) + 2 ≤ depth) :
    Reads (branchesAfter depth) (w ++ (other ++ .word .endIf :: rest)) fun both left =>
      Statement.bareBranches both.1 = branches ∧ Statement.bareBlock both.2 = otherwise ∧ left = rest :=
  match derived with
  | .none => tail depth (by simpa using room)
  | @Branches.more _ w more _ _ _ condition inner others => by
    obtain ⟨depth, rfl⟩ : ∃ d, depth = d + 1 := ⟨depth - 1, by omega⟩
    simp only [List.length_cons, List.length_append] at room
    simp only [List.cons_append, List.append_assoc]
    rw [branchesAfter]
    refine reads_next (reads_expression condition ⟨nofun, nofun⟩ fun e sameCondition => reads_expect ?_)
    refine reads_bind (block_reads w _ inner depth (by omega) _ (branches_close _ _ _ _ _ others last) _ (.inl rfl)) ?_
    rintro body _ ⟨sameBody, rfl⟩
    refine reads_bind (branches_read more _ others other otherwise last rest tail depth (by omega)) ?_
    rintro ⟨branches, last⟩ _ ⟨sameBranches, sameLast, rfl⟩
    refine reads_pure _ _ ⟨?_, sameLast, rfl⟩
    rw [Statement.bareBranches, sameCondition, sameBody, sameBranches]

theorem else_reads (w : List Token) (body : List Statement) (derived : Otherwise w body) (rest : List Token)
    (depth : Nat) (room : 2 * w.length + 2 ≤ depth) : Reads (branchesAfter depth) (w ++ .word .endIf :: rest)
      fun both left => Statement.bareBranches both.1 = [] ∧ Statement.bareBlock both.2 = body ∧ left = rest := by
  obtain ⟨depth, rfl⟩ : ∃ d, depth = d + 1 := ⟨depth - 1, by omega⟩
  rw [branchesAfter]
  exact match derived with
  | .nothing => reads_next (reads_pure _ _ ⟨rfl, rfl, rfl⟩)
  | .block (w := w) inner => by
    simp only [List.length_cons] at room
    have ends := closes_at (.word .endIf) rest nofun rfl
    refine reads_next (reads_bind (block_reads w _ inner depth (by omega) _ ends _ (.inl rfl)) ?_)
    rintro body _ ⟨same, rfl⟩
    exact reads_expect (reads_pure _ _ ⟨rfl, same, rfl⟩)

theorem arms_read (w : List Token) (arms : List (List CaseLabel × List Statement)) (derived : Arms w arms)
    (other : List Token) (otherwise : List Statement) (last : Otherwise other otherwise) (rest : List Token)
    (tail : ∀ depth, 2 * other.length + 2 ≤ depth → Reads (caseArms depth) (other ++ .word .endCase :: rest)
      fun both left => Statement.bareArms both.1 = [] ∧ Statement.bareBlock both.2 = otherwise ∧ left = rest)
    (depth : Nat) (room : 2 * (w.length + other.length) + 2 ≤ depth) :
    Reads (caseArms depth) (w ++ (other ++ .word .endCase :: rest)) fun both left =>
      Statement.bareArms both.1 = arms ∧ Statement.bareBlock both.2 = otherwise ∧ left = rest :=
  match derived with
  | .none => tail depth (by simpa using room)
  | @Arms.more u w more labels _ _ known inner others => by
    obtain ⟨depth, rfl⟩ : ∃ d, depth = d + 1 := ⟨depth - 1, by omega⟩
    simp only [List.length_cons, List.length_append] at room
    simp only [List.cons_append, List.append_assoc]
    refine arms_reads_arm depth u _ labels known (reads_bind_of (labels_read u labels known depth (by omega) _) ?_)
    refine reads_bind (block_reads w _ inner depth (by omega) _ (arms_close _ _ _ _ _ others last) _ (.inl rfl)) ?_
    rintro body _ ⟨sameBody, rfl⟩
    refine reads_bind (arms_read more _ others other otherwise last rest tail depth (by omega)) ?_
    rintro ⟨arms, last⟩ _ ⟨sameArms, sameLast, rfl⟩
    refine reads_pure _ _ ⟨?_, sameLast, rfl⟩
    rw [Statement.bareArms, sameBody, sameArms]

theorem case_else_reads (w : List Token) (body : List Statement) (derived : Otherwise w body) (rest : List Token)
    (depth : Nat) (room : 2 * w.length + 2 ≤ depth) : Reads (caseArms depth) (w ++ .word .endCase :: rest)
      fun both left => Statement.bareArms both.1 = [] ∧ Statement.bareBlock both.2 = body ∧ left = rest := by
  obtain ⟨depth, rfl⟩ : ∃ d, depth = d + 1 := ⟨depth - 1, by omega⟩
  rw [caseArms]
  exact match derived with
  | .nothing => reads_peek (reads_skip (reads_pure _ _ ⟨rfl, rfl, rfl⟩))
  | .block (w := w) inner => by
    simp only [List.length_cons] at room
    have ends := closes_at (.word .endCase) rest nofun rfl
    refine reads_peek (reads_skip (reads_bind (block_reads w _ inner depth (by omega) _ ends _ (.inl rfl)) ?_))
    rintro body _ ⟨same, rfl⟩
    exact reads_expect (reads_pure _ _ ⟨rfl, same, rfl⟩)
end

end SoftPlc.Parser
