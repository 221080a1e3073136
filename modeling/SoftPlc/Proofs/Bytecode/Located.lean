import SoftPlc.Bytecode.Program

set_option autoImplicit false

namespace SoftPlc

variable {α : Type}

def Located (whole : List α) (base : Nat) (part : List α) : Prop := part <+: whole.drop base

theorem located_nil (whole : List α) (base : Nat) : Located whole base [] :=
  List.nil_prefix

theorem located_whole (whole : List α) : Located whole 0 whole := by
  simp [Located]

theorem located_of_part (whole part : List α) (held : part <:+: whole) : ∃ base, Located whole base part := by
  obtain ⟨front, back, rfl⟩ := held
  refine ⟨front.length, ?_⟩
  rw [Located, List.append_assoc, List.drop_left]
  exact List.prefix_append part back

theorem located_get (whole : List α) (base : Nat) (part : List α) (located : Located whole base part) (d : Nat)
    (inside : d < part.length) : whole[base + d]? = some part[d] := by
  obtain ⟨rest, same⟩ := located
  rw [← List.getElem?_drop, ← same, List.getElem?_append_left inside, List.getElem?_eq_getElem inside]

theorem located_cons (whole : List α) (base : Nat) (a : α) (part : List α) :
    Located whole base (a :: part) ↔ whole[base]? = some a ∧ Located whole (base + 1) part := by
  unfold Located
  cases rest : whole.drop base with
  | nil =>
    have short : whole.length ≤ base := List.drop_eq_nil_iff.mp rest
    simp [List.getElem?_eq_none short]
  | cons head tail =>
    have first : whole[base]? = some head := by
      have := congrArg List.head? rest
      simpa [List.head?_drop] using this
    have next : whole.drop (base + 1) = tail := by
      rw [← List.drop_drop, rest]
      rfl
    rw [List.cons_prefix_cons, first, next, Option.some.injEq, eq_comm]

theorem located_append (whole : List α) (base : Nat) (p q : List α) :
    Located whole base (p ++ q) ↔ Located whole base p ∧ Located whole (base + p.length) q := by
  induction p generalizing base with
  | nil => simp [located_nil]
  | cons a p ih =>
    simp only [List.cons_append, located_cons, ih, List.length_cons, and_assoc]
    rw [Nat.add_right_comm, Nat.add_assoc]

theorem located_singleton (whole : List α) (base : Nat) (a : α) :
    Located whole base [a] ↔ whole[base]? = some a := by
  simp [located_cons, located_nil]

end SoftPlc
