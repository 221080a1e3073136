import SoftPlc.Proofs.Bytecode.Images
import SoftPlc.Proofs.Typing.Soundness

set_option autoImplicit false

namespace SoftPlc

structure Bytecode.Sound (b : Bytecode) : Prop where
  nonempty : b.code ≠ []
  room : b.code.length ≤ maxInstructions
  few : b.vars.length ≤ maxVariables
  typed : ∀ v ∈ b.vars, v.initial.dataType = v.dataType
  encodable : ∀ i ∈ b.code, i.Encodable

def Instruction.Refers (vars size : Nat) : Instruction → Prop
  | .load n | .store n => n < vars
  | .jump n | .jumpIfFalse n | .jumpIfTrue n => n < size
  | _ => True

namespace Compile

theorem declare_all_room (before vars : List Variable) (ds : List Declaration)
    (compiled : declareAll before ds = .ok vars) (room : before.length ≤ Bytecode.maxVariables) :
    vars.length ≤ Bytecode.maxVariables := by
  induction ds generalizing before with
  | nil =>
    cases compiled
    exact room
  | cons d rest ih =>
    simp only [declareAll, bind_ok, with_line_ok] at compiled
    obtain ⟨v, declared, others⟩ := compiled
    have left := (declare_ok before d v declared).1
    exact ih (before ++ [v]) others (by simp; omega)

theorem fine_refers (vars : List DataType) (all : List StackType) (pc : Nat) (i : Instruction)
    (fine : Fine vars all pc i) : i.Refers vars.length all.length := by
  obtain ⟨types, left, _, fits, next⟩ := fine
  have inside (n : Nat) (successor : n ∈ i.successors pc) : n < all.length :=
    (List.getElem?_eq_some_iff.mp (next n successor)).1
  cases i with
  | load n =>
    obtain ⟨t, found, _⟩ := Option.map_eq_some_iff.mp fits
    exact (List.getElem?_eq_some_iff.mp found).1
  | store n =>
    cases types with
    | nil => cases fits
    | cons t types =>
      by_cases found : vars[n]? = some t
      · exact (List.getElem?_eq_some_iff.mp found).1
      · simp [Instruction.after, found] at fits
  | jump n | jumpIfFalse n | jumpIfTrue n => exact inside n List.mem_cons_self
  | _ => trivial

theorem refers_encodable (i : Instruction) (vars size : Nat) (refers : i.Refers vars size) (few : vars < 4294967296)
    (short : size < 4294967296) : i.Encodable := by
  cases i with
  | load n | store n => exact Nat.lt_trans refers few
  | jump n | jumpIfFalse n | jumpIfTrue n => exact Nat.lt_trans refers short
  | _ => trivial

theorem compiled_refers (p : SourceProgram) (b : Bytecode) (made : p.compile = .ok b) :
    ∀ i ∈ b.code, i.Refers b.vars.length b.code.length := by
  obtain ⟨all, typed, _⟩ := compiled_well_typed p b made
  intro i member
  obtain ⟨pc, found⟩ := List.mem_iff_getElem?.mp member
  have refers := fine_refers _ all _ i (typed.code pc i found)
  rwa [List.length_map, typed.length] at refers

theorem compiled_sound (source : String) (b : Bytecode) (compiled : compile source = .ok b) : b.Sound := by
  obtain ⟨p, _, made⟩ := (bind_ok _ _ _).mp compiled
  obtain ⟨items, declared, _, room, _, code⟩ := compile_ok p b made
  have length : b.code.length = items.length + 1 := by simp [code]
  have few := declare_all_room [] b.vars p.declarations declared (Nat.zero_le _)
  have inside : b.code.length ≤ Bytecode.maxInstructions := length ▸ room
  refine ⟨by simp [code], inside, few, declare_all_typed [] b.vars p.declarations declared (by simp), ?_⟩
  intro i member
  unfold Bytecode.maxInstructions Bytecode.maxVariables at *
  exact refers_encodable i _ _ (compiled_refers p b made i member) (by omega) (by omega)

end Compile

end SoftPlc
