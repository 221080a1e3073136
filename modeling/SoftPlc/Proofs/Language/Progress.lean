import SoftPlc.Proofs.Language.Answers
import SoftPlc.Proofs.Language.Origins
import SoftPlc.Proofs.Language.Stretches

set_option autoImplicit false

namespace SoftPlc

namespace Scan

theorem piece_takes (c : Char) (rest : List Char) : ∃ text more, rest = text ++ more ∧
    (piece c rest = .gap (text.length + 1) ∨ ∃ t width, piece c rest = .token t width (text.length + 1)) := by
  cases begins c rest with
  | gap text more parts _ read => exact ⟨text, more, parts, .inl read⟩
  | token t text more parts _ read => exact ⟨text, more, parts, .inr ⟨t, _, read⟩⟩
  | unended body _ _ read => exact ⟨rest, [], (List.append_nil rest).symm, .inr ⟨_, 2, read⟩⟩

theorem gap_positive (c : Char) (rest : List Char) (n : Nat) (read : piece c rest = .gap n) : 0 < n := by
  obtain ⟨text, more, -, same | ⟨t, width, other⟩⟩ := piece_takes c rest
  · cases read.symm.trans same
    exact Nat.succ_pos _
  · cases read.symm.trans other

-- The next token of a text, with the place and the characters behind it. What stands in front of it is passed over, and
-- at the end of the text there is none.
def nextLexeme (p : Position) : List Char → Option Lexeme × Position × List Char
  | [] => (none, p, [])
  | c :: rest =>
    match _ : piece c rest with
    | .gap n => nextLexeme (((c :: rest).take n).foldl Position.after p) ((c :: rest).drop n)
    | .token t width n =>
      (some ⟨t, p.line, ⟨p.column, p.column + width⟩⟩, ((c :: rest).take n).foldl Position.after p,
        (c :: rest).drop n)
termination_by cs => cs.length
decreasing_by
  have positive := gap_positive c rest n ‹_›
  simp only [List.length_drop, List.length_cons]
  omega

section
variable (p : Position) (c : Char) (text more : List Char)

theorem next_behind : (c :: (text ++ more)).take (text.length + 1) = c :: text ∧
    (c :: (text ++ more)).drop (text.length + 1) = more :=
  ⟨congrArg (c :: ·) List.take_left, List.drop_left⟩

theorem next_gap (read : piece c (text ++ more) = .gap (text.length + 1)) :
    nextLexeme p (c :: (text ++ more)) = nextLexeme ((c :: text).foldl Position.after p) more := by
  obtain ⟨front, behind⟩ := next_behind c text more
  rw [nextLexeme]
  split
  next n same =>
    cases read.symm.trans same
    rw [front, behind]
  next same => cases read.symm.trans same

theorem next_token (t : Token) (width : Nat) (read : piece c (text ++ more) = .token t width (text.length + 1)) :
    nextLexeme p (c :: (text ++ more)) =
      (some ⟨t, p.line, ⟨p.column, p.column + width⟩⟩, (c :: text).foldl Position.after p, more) := by
  obtain ⟨front, behind⟩ := next_behind c text more
  rw [nextLexeme]
  split
  next same => cases read.symm.trans same
  next same =>
    cases read.symm.trans same
    rw [front, behind]

end

def Advances (p : Position) (cs : List Char) : Prop :=
  nextLexeme p cs = (none, cs.foldl Position.after p, []) ∧ lexemes p 0 cs = [] ∨
    ∃ l text more, text ≠ [] ∧ cs = text ++ more ∧ nextLexeme p cs = (some l, text.foldl Position.after p, more) ∧
      lexemes p 0 cs = l :: lexemes (text.foldl Position.after p) 0 more

theorem advances (p : Position) (cs : List Char) : Advances p cs := by
  cases cs with
  | nil => exact .inl ⟨by rw [nextLexeme]; rfl, rfl⟩
  | cons c rest =>
    obtain ⟨text, more, rfl, read | ⟨t, width, read⟩⟩ := piece_takes c rest
    · have passed := next_gap p c text more read
      have skipped := lexemes_gap p c text more read
      rcases advances ((c :: text).foldl Position.after p) more with ⟨ended, none⟩ | ⟨l, token, behind, given, rfl, next, some⟩
      · exact .inl ⟨by rw [passed, ended, ← List.cons_append, List.foldl_append], skipped.trans none⟩
      · refine .inr ⟨l, c :: text ++ token, behind, by simp, by simp, ?_, ?_⟩
        · rw [passed, next, List.foldl_append]
        · rw [skipped, some, List.foldl_append]
    · exact .inr ⟨_, c :: text, more, List.cons_ne_nil _ _, rfl, next_token p c text more t width read,
        lexemes_token p c text more t width read⟩
termination_by cs.length

end Scan

open Scan SoftPlc.Parser

theorem parse_answers (ls : List Lexeme) :
    (∃ p, parse ls = .ok p) ∨ ∃ f, parse ls = .error f ∧ f.kind = .syntaxError := by
  cases answer : parse ls with
  | ok p => exact .inl ⟨p, rfl⟩
  | error f => exact .inr ⟨f, rfl, (parse_refused ls f answer).1⟩

-- A rule that calls itself for the next round of a repetition has the rank of the round before, so that the next round
-- is smaller by its tokens alone.
theorem reading_makes_progress :
    (∀ p cs, Advances p cs) ∧ WellFounded Smaller ∧
    (∀ (call : Rules) k c, (∀ k' c', Smaller (k', c') (k, c) → call k' c' = running k' c') →
      body call k c = running k c) ∧
    (∀ call : Rules, (∀ k, body call k = call k) ↔ call = running) ∧
    ∀ ls, parse ls = (programBy running ⟨ls, 1, .unknown⟩).map (·.1) ∧
      ((∃ p, parse ls = .ok p) ∨ ∃ f, parse ls = .error f ∧ f.kind = .syntaxError) := by
  refine ⟨advances, smaller_well_founded, fun call k c same => ?_, fun call => ⟨running_unique call, ?_⟩,
    fun ls => ⟨rfl, parse_answers ls⟩⟩
  · exact (body_agrees call k c same).trans (congrFun (running_body k) c)
  · rintro rfl
    exact running_body

end SoftPlc
