import SoftPlc.Proofs.Language.Stretches

set_option autoImplicit false

namespace SoftPlc.Scan

def lineBehind (before : List Char) : Nat := before.count '\n' + 1

def columnBehind (before : List Char) : Nat := (before.reverse.takeWhile (· != '\n')).length

def StandsAt (l : Lexeme) (before : List Char) (width : Nat) : Prop :=
  l.line.toNat = lineBehind before ∧ l.span = ⟨columnBehind before, columnBehind before + width⟩

def Covers (l : Lexeme) (before : List Char) : Prop :=
  l.line.toNat = lineBehind before ∧ l.span.start ≤ columnBehind before ∧ columnBehind before < l.span.stop

instance (l : Lexeme) (before : List Char) : Decidable (Covers l before) :=
  inferInstanceAs (Decidable (_ ∧ _ ∧ _))

def covered (l : Lexeme) (before : List Char) : List Char → List Char
  | [] => []
  | c :: rest => if Covers l before then c :: covered l (before ++ [c]) rest else covered l (before ++ [c]) rest

def Before (l l' : Lexeme) : Prop := l.line < l'.line ∨ l.line = l'.line ∧ l.span.stop ≤ l'.span.start

-- What a token is read from. A block comment that is never closed takes the rest of the text, but the token stands on
-- what opens it alone.
def ReadFrom (t : Token) (text more : List Char) : Prop :=
  TokenText t text more ∨ t = .unknown "(*" ∧ text = ['(', '*'] ∧ ¬ ['*', ')'] <:+: more

inductive Tiles : List Char → List Char → List Lexeme → Prop
  | done (before : List Char) : Tiles before [] []
  | gap (before text more : List Char) (ls : List Lexeme) (gap : Gap text more)
    (tail : Tiles (before ++ text) more ls) : Tiles before (text ++ more) ls
  | token (before text more : List Char) (l : Lexeme) (ls : List Lexeme) (read : TokenText l.token text more)
    (stands : StandsAt l before text.length) (tail : Tiles (before ++ text) more ls) :
    Tiles before (text ++ more) (l :: ls)
  | unended (before body : List Char) (l : Lexeme) (read : l.token = .unknown "(*")
    (unended : ¬ ['*', ')'] <:+: body) (stands : StandsAt l before 2) : Tiles before ('(' :: '*' :: body) [l]

theorem line_append (before text : List Char) : lineBehind (before ++ text) = lineBehind before + text.count '\n' := by
  rw [lineBehind, lineBehind, List.count_append]
  omega

theorem column_append (before text : List Char) (unbroken : '\n' ∉ text) :
    columnBehind (before ++ text) = columnBehind before + text.length := by
  have inside : ∀ c ∈ text.reverse, (c != '\n') = true := fun c member =>
    bne_iff_ne.mpr fun same => unbroken (same ▸ List.mem_reverse.mp member)
  rw [columnBehind, List.reverse_append, List.takeWhile_append_of_pos inside, List.length_append, List.length_reverse,
    Nat.add_comm, columnBehind]

theorem column_break (before : List Char) : columnBehind (before ++ ['\n']) = 0 := by
  simp [columnBehind]

theorem place_append (before text : List Char) :
    lineBehind before < lineBehind (before ++ text) ∨ '\n' ∉ text ∧ lineBehind (before ++ text) = lineBehind before ∧
      columnBehind (before ++ text) = columnBehind before + text.length := by
  by_cases broken : '\n' ∈ text
  · have more := List.count_pos_iff.mpr broken
    exact .inl (by rw [line_append]; omega)
  · refine .inr ⟨broken, ?_, column_append before text broken⟩
    rw [line_append, List.count_eq_zero.mpr broken, Nat.add_zero]

def Tells (p : Position) (before : List Char) : Prop :=
  p.line.toNat = lineBehind before ∧ p.column = columnBehind before

theorem after_tells (p : Position) (before : List Char) (c : Char) (few : (before ++ [c]).count '\n' < 65535)
    (tells : Tells p before) : Tells (p.after c) (before ++ [c]) := by
  obtain ⟨line, column⟩ := tells
  by_cases same : c = '\n'
  · subst same
    rw [lineBehind] at line
    rw [List.count_append, List.count_singleton_self] at few
    have room : ¬ p.line = 65535 := fun full => by
      rw [full] at line
      exact absurd (show 65535 = before.count '\n' + 1 from line) (by omega)
    have next : (p.line + 1).toNat = p.line.toNat + 1 := by
      rw [UInt16.toNat_add]
      exact Nat.mod_eq_of_lt (show p.line.toNat + 1 < 65536 by omega)
    rw [Position.after, if_pos rfl, if_neg room]
    exact ⟨by rw [next, line, line_append, List.count_singleton_self, lineBehind], (column_break before).symm⟩
  · rw [Position.after, if_neg same]
    have unbroken : '\n' ∉ [c] := fun member => same (List.mem_singleton.mp member).symm
    exact ⟨by rw [line, line_append, List.count_eq_zero.mpr unbroken, Nat.add_zero],
      by rw [column, column_append before [c] unbroken, List.length_singleton]⟩

theorem behind_tells (p : Position) (before text : List Char) (few : (before ++ text).count '\n' < 65535)
    (tells : Tells p before) : Tells (text.foldl Position.after p) (before ++ text) := by
  induction text generalizing p before with
  | nil => rwa [List.append_nil]
  | cons c text ih =>
    have parts : before ++ c :: text = before ++ [c] ++ text := by simp
    rw [parts] at few ⊢
    have first : (before ++ [c]).count '\n' < 65535 := by
      rw [List.count_append] at few
      omega
    exact ih (p.after c) (before ++ [c]) few (after_tells p before c first tells)

section
variable (l : Lexeme) (start : List Char) (width : Nat) (stands : StandsAt l start width)
include stands

theorem covers_within (text : List Char) (unbroken : '\n' ∉ text) (short : text.length < width) :
    Covers l (start ++ text) := by
  obtain ⟨line, span⟩ := stands
  have column := column_append start text unbroken
  refine ⟨?_, ?_, ?_⟩
  · rw [line, line_append, List.count_eq_zero.mpr unbroken, Nat.add_zero]
  · rw [span, column]
    exact Nat.le_add_right _ _
  · rw [span, column]
    exact Nat.add_lt_add_left short _

theorem covers_short (text : List Char) (covers : Covers l (start ++ text)) : text.length < width := by
  obtain ⟨line, span⟩ := stands
  obtain ⟨same, -, ends⟩ := covers
  rcases place_append start text with later | ⟨-, -, column⟩
  · omega
  · rw [span, column] at ends
    exact Nat.lt_of_add_lt_add_left ends

theorem not_covers_ahead (a b : List Char) (parts : start = a ++ b) (given : b ≠ []) : ¬ Covers l a := by
  rintro ⟨same, starts, -⟩
  obtain ⟨line, span⟩ := stands
  subst parts
  rcases place_append a b with later | ⟨-, -, column⟩
  · omega
  · have length := List.length_pos_iff.mpr given
    rw [span] at starts
    dsimp only at starts
    omega

end

theorem covered_append (l : Lexeme) (before a b : List Char) :
    covered l before (a ++ b) = covered l before a ++ covered l (before ++ a) b := by
  induction a generalizing before with
  | nil => rw [List.append_nil]; rfl
  | cons c a ih =>
    have parts : before ++ [c] ++ a = before ++ c :: a := by simp
    rw [List.cons_append, covered, covered, ih, parts]
    split <;> rfl

theorem covered_all (l : Lexeme) (before text : List Char)
    (all : ∀ a b, text = a ++ b → b ≠ [] → Covers l (before ++ a)) : covered l before text = text := by
  induction text generalizing before with
  | nil => rfl
  | cons c text ih =>
    have first : Covers l before := by simpa using all [] (c :: text) rfl (List.cons_ne_nil _ _)
    rw [covered, if_pos first, ih]
    intro a b parts given
    have later := all (c :: a) b (by rw [parts, List.cons_append]) given
    rwa [← List.append_cons]

theorem covered_none (l : Lexeme) (before text : List Char)
    (none : ∀ a b, text = a ++ b → b ≠ [] → ¬ Covers l (before ++ a)) : covered l before text = [] := by
  induction text generalizing before with
  | nil => rfl
  | cons c text ih =>
    have first : ¬ Covers l before := by simpa using none [] (c :: text) rfl (List.cons_ne_nil _ _)
    rw [covered, if_neg first, ih]
    intro a b parts given
    have later := none (c :: a) b (by rw [parts, List.cons_append]) given
    rwa [← List.append_cons]

theorem covered_exactly (l : Lexeme) (start text more : List Char) (unbroken : '\n' ∉ text)
    (stands : StandsAt l start text.length) : covered l [] (start ++ (text ++ more)) = text := by
  have ahead : covered l [] start = [] := covered_none l [] start fun a b parts given =>
    not_covers_ahead l start text.length stands a b parts given
  have within : covered l start text = text := covered_all l start text fun a b parts given => by
    have length := List.length_pos_iff.mpr given
    refine covers_within l start text.length stands a (fun member => unbroken ?_) ?_
    · rw [parts]
      exact List.mem_append_left b member
    · rw [parts, List.length_append]
      omega
  have behind : covered l (start ++ text) more = [] := covered_none l _ more fun a b _ _ covers => by
    rw [List.append_assoc] at covers
    have short := covers_short l start text.length stands (text ++ a) covers
    rw [List.length_append] at short
    omega
  rw [covered_append, List.nil_append, covered_append, ahead, within, behind, List.nil_append, List.append_nil]

theorem read_within_line (t : Token) (text more : List Char) (read : ReadFrom t text more) :
    text ≠ [] ∧ '\n' ∉ text := by
  rcases read with read | ⟨-, rfl, -⟩
  · exact ⟨read.given, read.unbroken⟩
  · decide

theorem tiles_stand (before cs : List Char) (ls : List Lexeme) (tiles : Tiles before cs ls) :
    ∀ l ∈ ls, ∃ a text b, cs = a ++ (text ++ b) ∧ StandsAt l (before ++ a) text.length ∧
      ReadFrom l.token text b := by
  induction tiles with
  | done => exact fun _ member => nomatch member
  | gap before text more ls _ _ ih =>
    intro l member
    obtain ⟨a, text', b, rfl, stands, read⟩ := ih l member
    exact ⟨text ++ a, text', b, (List.append_assoc _ _ _).symm, by rwa [← List.append_assoc], read⟩
  | token before text more l ls read stands _ ih =>
    refine List.forall_mem_cons.mpr ⟨?_, fun l' member => ?_⟩
    · exact ⟨[], text, more, rfl, by rwa [List.append_nil], .inl read⟩
    · obtain ⟨a, text', b, rfl, stands, read⟩ := ih l' member
      exact ⟨text ++ a, text', b, (List.append_assoc _ _ _).symm, by rwa [← List.append_assoc], read⟩
  | unended before body l read unended stands =>
    refine List.forall_mem_singleton.mpr ⟨[], ['(', '*'], body, rfl, ?_, .inr ⟨read, rfl, unended⟩⟩
    rwa [List.append_nil]

theorem before_of_stand (l l' : Lexeme) (start text : List Char) (width width' : Nat) (wide : width ≤ text.length)
    (stands : StandsAt l start width) (behind : StandsAt l' (start ++ text) width') : Before l l' := by
  obtain ⟨line, span⟩ := stands
  obtain ⟨line', span'⟩ := behind
  rcases place_append start text with later | ⟨-, same, column⟩
  · exact .inl (UInt16.lt_iff_toNat_lt.mpr (by omega))
  · refine .inr ⟨UInt16.toNat_inj.mp (by omega), ?_⟩
    rw [span, span', column]
    exact Nat.add_le_add_left wide _

theorem tiles_ordered (before cs : List Char) (ls : List Lexeme) (tiles : Tiles before cs ls) :
    ls.Pairwise Before := by
  induction tiles with
  | done => exact .nil
  | gap _ _ _ _ _ _ ih => exact ih
  | token before text more l ls _ stands tail ih =>
    refine List.pairwise_cons.mpr ⟨fun l' member => ?_, ih⟩
    obtain ⟨a, text', b, -, behind, -⟩ := tiles_stand _ _ _ tail l' member
    rw [List.append_assoc] at behind
    refine before_of_stand l l' before (text ++ a) text.length text'.length ?_ stands behind
    rw [List.length_append]
    exact Nat.le_add_right _ _
  | unended => exact List.pairwise_singleton _ _

-- Each character of a text is covered by a token, or it is a blank, or it belongs to a comment.
def Accounted (ls : List Lexeme) (before cs : List Char) : Prop :=
  ∀ i c, cs[i]? = some c → (∃ l ∈ ls, Covers l (before ++ cs.take i)) ∨ c ∈ [' ', '\t', '\r', '\n'] ∨
    (comments .code cs)[i]? = some true

theorem blank_iff (c : Char) : isBlank c = true ↔ c ∈ [' ', '\t', '\r', '\n'] := by
  simp [isBlank, or_assoc]

theorem accounted_append (ls : List Lexeme) (before text more : List Char) (within : Bool)
    (mask : comments .code (text ++ more) = List.replicate text.length within ++ comments .code more)
    (front : ∀ i c, text[i]? = some c → (∃ l ∈ ls, Covers l (before ++ text.take i)) ∨
      c ∈ [' ', '\t', '\r', '\n'] ∨ within = true)
    (behind : Accounted ls (before ++ text) more) : Accounted ls before (text ++ more) := by
  intro i c here
  rw [mask]
  by_cases inside : i < text.length
  · rw [List.getElem?_append_left inside] at here
    rw [List.take_append_of_le_length (Nat.le_of_lt inside), List.getElem?_append_left (by rwa [List.length_replicate]),
      List.getElem?_replicate, if_pos inside]
    exact (front i c here).imp_right (Or.imp_right (congrArg some))
  · have later : text.length ≤ i := Nat.le_of_not_lt inside
    rw [List.getElem?_append_right later] at here
    rw [List.take_append, List.take_of_length_le later, ← List.append_assoc,
      List.getElem?_append_right (by rwa [List.length_replicate]), List.length_replicate]
    exact behind (i - text.length) c here

theorem tiles_accounted (before cs : List Char) (ls : List Lexeme) (tiles : Tiles before cs ls) :
    Accounted ls before cs := by
  induction tiles with
  | done => exact fun _ _ none => nomatch none
  | gap before text more ls gap _ ih =>
    obtain ⟨within, mask, told⟩ := comments_gap text more gap
    refine accounted_append ls before text more within mask (fun i c here => .inr ?_) ih
    exact told.symm.imp_left fun blank => (blank_iff c).mp (blank c (List.mem_of_getElem? here))
  | token before text more l ls read stands _ ih =>
    refine accounted_append (l :: ls) before text more false (comments_unopened text more read.unopened) ?_ ?_
    · intro i c here
      have inside := (List.getElem?_eq_some_iff.mp here).1
      refine .inl ⟨l, List.mem_cons_self, covers_within l before text.length stands (text.take i) ?_ ?_⟩
      · exact fun member => read.unbroken (List.mem_of_mem_take member)
      · rwa [List.length_take_of_le (Nat.le_of_lt inside)]
    · exact fun i c here => (ih i c here).imp_left fun ⟨l', member, covers⟩ =>
        ⟨l', List.mem_cons_of_mem l member, covers⟩
  | unended before body l _ unended _ =>
    intro i c here
    have inside := (List.getElem?_eq_some_iff.mp here).1
    have mask : comments .code ('(' :: '*' :: body) = List.replicate ('(' :: '*' :: body).length true := by
      rw [comments.eq_3, comments_unended body unended]
      rfl
    exact .inr (.inr (by rw [mask, List.getElem?_replicate, if_pos inside]))

-- One stretch at a time: what is behind a stretch is shorter, and its place is known when that of the stretch is.
theorem lexemes_tile (p : Position) (before cs : List Char) (few : (before ++ cs).count '\n' < 65535)
    (tells : Tells p before) : Tiles before cs (lexemes p 0 cs) := by
  induction length : cs.length using Nat.strongRecOn generalizing p before cs with
  | _ n ih =>
  have behind (text more : List Char) (parts : cs = text ++ more) (given : text ≠ []) :
      Tiles (before ++ text) more (lexemes (text.foldl Position.after p) 0 more) := by
    subst parts
    rw [← List.append_assoc] at few
    have front : (before ++ text).count '\n' < 65535 := by
      rw [List.count_append] at few
      omega
    have shorter : more.length < n := by
      have positive := List.length_pos_iff.mpr given
      rw [List.length_append] at length
      omega
    exact ih more.length shorter _ _ more few (behind_tells p before text front tells) rfl
  cases cs with
  | nil => exact .done before
  | cons c rest =>
    cases begins c rest with
    | gap text more parts gap read =>
      subst parts
      have tail := behind (c :: text) more rfl (List.cons_ne_nil _ _)
      rw [lexemes_gap p c text more read]
      exact .gap before (c :: text) more _ gap tail
    | token t text more parts told read =>
      subst parts
      have tail := behind (c :: text) more rfl (List.cons_ne_nil _ _)
      rw [lexemes_token p c text more t _ read]
      exact .token before (c :: text) more _ _ told ⟨tells.1, by rw [tells.2]; rfl⟩ tail
    | unended body opens unended read =>
      obtain ⟨rfl, rfl⟩ := opens
      have last := lexemes_token p '(' ('*' :: body) [] (.unknown "(*") 2 (by rwa [List.append_nil])
      rw [List.append_nil] at last
      rw [last]
      exact .unended before body _ rfl unended ⟨tells.1, by rw [tells.2]⟩

theorem scan_tiles (source : String) (few : source.toList.count '\n' < 65535) :
    Tiles [] source.toList (scan source) :=
  lexemes_tile ⟨1, 0⟩ [] source.toList few ⟨rfl, rfl⟩

def Unclosed (l : Lexeme) (cs : List Char) : Prop :=
  l.token = .unknown "(*" ∧ ∃ before body, cs = before ++ '(' :: '*' :: body ∧ StandsAt l before 2 ∧
    ¬ ['*', ')'] <:+: body

-- The tokens stand in order and apart, each reads alone as it reads in the text, and a character that none of them covers
-- is a blank or belongs to a comment.
theorem spans_cover_source (source : String) (few : source.toList.count '\n' < 65535) :
    Tiles [] source.toList (scan source) ∧ (scan source).Pairwise Before ∧
    (∀ l ∈ scan source, l.span.start < l.span.stop) ∧ Accounted (scan source) [] source.toList ∧
    ∀ l ∈ scan source, Unclosed l source.toList ∨ scan (String.ofList (covered l [] source.toList)) =
      [⟨l.token, 1, ⟨0, l.span.stop - l.span.start⟩⟩] := by
  have tiles := scan_tiles source few
  refine ⟨tiles, tiles_ordered _ _ _ tiles, fun l member => ?_, tiles_accounted _ _ _ tiles, fun l member => ?_⟩
  · obtain ⟨a, text, b, -, stands, read⟩ := tiles_stand _ _ _ tiles l member
    have wide := List.length_pos_iff.mpr (read_within_line _ _ _ read).1
    rw [stands.2]
    exact Nat.lt_add_of_pos_right wide
  · obtain ⟨a, text, b, parts, stands, read⟩ := tiles_stand _ _ _ tiles l member
    rcases read with read | ⟨told, rfl, unended⟩
    · have exactly := covered_exactly l a text b read.unbroken stands
      have width : l.span.stop - l.span.start = text.length := by
        rw [stands.2]
        exact Nat.add_sub_cancel_left _ _
      exact .inr (by rw [parts, exactly, width, read.alone])
    · exact .inl ⟨told, a, b, parts, stands, unended⟩

theorem open_ended_text_is_covered :
    let source := "x := 1..2e; // \u00e9\n(* y"
    source.toList.count '\n' < 65535 ∧ scan source =
      [⟨.ident "X", 1, ⟨0, 1⟩⟩, ⟨.assign, 1, ⟨2, 4⟩⟩, ⟨.integer 1, 1, ⟨5, 6⟩⟩, ⟨.range, 1, ⟨6, 8⟩⟩,
        ⟨.integer 2, 1, ⟨8, 9⟩⟩, ⟨.ident "E", 1, ⟨9, 10⟩⟩, ⟨.semicolon, 1, ⟨10, 11⟩⟩, ⟨.unknown "(*", 2, ⟨0, 2⟩⟩] ∧
    Tiles [] source.toList (scan source) ∧ Accounted (scan source) [] source.toList := by
  intro source
  have told := spans_cover_source source (by decide)
  exact ⟨by decide, by decide +kernel, told.1, told.2.2.2.1⟩

end SoftPlc.Scan
