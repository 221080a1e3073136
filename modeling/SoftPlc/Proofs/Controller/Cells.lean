import SoftPlc.Controller.Tick
import SoftPlc.Proofs.Store.Publishing

set_option autoImplicit false

namespace SoftPlc

def Registers.SameAt (r s : Registers) : Target → Prop
  | .holding a => r.holdingAt a = s.holdingAt a
  | .input a => r.inputAt a = s.inputAt a
  | .coil a => r.coilAt a = s.coilAt a
  | .discrete a => r.discreteAt a = s.discreteAt a

instance (r s : Registers) : (cell : Target) → Decidable (r.SameAt s cell)
  | .holding a => inferInstanceAs (Decidable (r.holdingAt a = s.holdingAt a))
  | .input a => inferInstanceAs (Decidable (r.inputAt a = s.inputAt a))
  | .coil a => inferInstanceAs (Decidable (r.coilAt a = s.coilAt a))
  | .discrete a => inferInstanceAs (Decidable (r.discreteAt a = s.discreteAt a))

namespace BitBank

theorem masks_apart (i j : Fin 8) (other : i ≠ j) : (1 <<< UInt8.ofNat i : UInt8) &&& 1 <<< UInt8.ofNat j = 0 ∧
    ~~~ (1 <<< UInt8.ofNat i : UInt8) &&& 1 <<< UInt8.ofNat j = 1 <<< UInt8.ofNat j := by
  revert i j
  decide

-- A bit that is set or cleared changes no other bit, nor those that it shares its byte with.
theorem bit_set_other (bits : BitBank) (a b : UInt16) (v : Bool) (other : a ≠ b) :
    (bits.setBit a v).bitAt b = bits.bitAt b := by
  unfold setBit
  cases found : bits[a.toNat / 8]? with
  | none => rfl
  | some byte =>
    unfold bitAt
    by_cases same : a.toNat / 8 = b.toNat / 8
    · have apart : a.toNat % 8 ≠ b.toNat % 8 := fun equal => other (UInt16.toNat_inj.mp (by omega))
      have inside : b.toNat / 8 < bankSize / 8 := same ▸ (Vector.getElem?_eq_some_iff.mp found).1
      obtain ⟨none, whole⟩ := masks_apart ⟨a.toNat % 8, Nat.mod_lt _ (by decide)⟩
        ⟨b.toNat % 8, Nat.mod_lt _ (by decide)⟩ fun equal => apart (congrArg Fin.val equal)
      have kept : (if v then byte ||| mask a else byte &&& ~~~ mask a) &&& mask b = byte &&& mask b := by
        cases v with
        | true =>
          have spread : (byte ||| mask a) &&& mask b = byte &&& mask b ||| mask a &&& mask b :=
            UInt8.toBitVec_inj.mp BitVec.and_or_distrib_right
          rw [if_pos rfl, spread, mask, mask, none, UInt8.or_zero]
        | false => rw [if_neg Bool.false_ne_true, UInt8.and_assoc, mask, mask, whole]
      rw [same] at found ⊢
      rw [Vector.getElem?_setIfInBounds_self_of_lt inside, found]
      simp only [kept]
    · rw [Vector.getElem?_setIfInBounds_ne same]

end BitBank

namespace Registers

variable (r : Registers)

theorem same_refl (cell : Target) : r.SameAt r cell := by
  cases cell <;> rfl

theorem same_trans (s t : Registers) (cell : Target) (first : r.SameAt s cell) (second : s.SameAt t cell) :
    r.SameAt t cell := by
  cases cell <;> exact Eq.trans first second

def Differs (cells : Target → Prop) (s : Registers) : Prop := ∀ cell, ¬ cells cell → s.SameAt r cell

section
variable (cells : Target → Prop)

theorem differs_refl : r.Differs cells r := fun cell _ => r.same_refl cell

theorem differs_trans (s t : Registers) (first : r.Differs cells s) (second : s.Differs cells t) : r.Differs cells t :=
  fun cell outside => t.same_trans s r cell (second cell outside) (first cell outside)

theorem differs_more (s : Registers) (more : Target → Prop) (differs : r.Differs cells s)
    (covers : ∀ cell, cells cell → more cell) : r.Differs more s :=
  fun cell outside => differs cell fun inside => outside (covers cell inside)

theorem differs_foldl {α : Type} (write : Registers → α → Registers) (items : List α)
    (each : ∀ s, ∀ x ∈ items, Differs s cells (write s x)) : r.Differs cells (items.foldl write r) :=
  List.foldlRecOn (motive := fun s => r.Differs cells s) items write (r.differs_refl cells) fun s differs x member =>
    r.differs_trans cells s _ differs (each s x member)

end

theorem agree_of_differs (cells : Target → Prop) (s : Registers) (low high : Nat) (differs : r.Differs cells s)
    (outside : ∀ a : UInt16, low ≤ a.toNat → a.toNat < high → ¬ cells (.input a)) : r.Agree s low high :=
  fun a behind before => differs (.input a) (outside a behind before)

theorem holding_set_self (a v : UInt16) (inside : a.toNat < bankSize) : (r.setHolding a v).holdingAt a = v := by
  simp [setHolding, holdingAt, inside]

theorem holding_set_other (a b v : UInt16) (other : a ≠ b) : (r.setHolding a v).holdingAt b = r.holdingAt b := by
  have apart : a.toNat ≠ b.toNat := fun same => other (UInt16.toNat_inj.mp same)
  simp [setHolding, holdingAt, Vector.getElem?_setIfInBounds_ne apart]

section
variable (a v : UInt16) (on : Bool)

theorem holding_differs : r.Differs (· = .holding a) (r.setHolding a v) := by
  intro cell outside
  cases cell with
  | holding b => exact r.holding_set_other a b v fun same => outside (congrArg Target.holding same.symm)
  | _ => rfl

theorem input_differs : r.Differs (· = .input a) (r.setInput a v) := by
  intro cell outside
  cases cell with
  | input b => exact r.input_set_other a b v fun same => outside (congrArg Target.input same.symm)
  | _ => rfl

theorem coil_differs : r.Differs (· = .coil a) (r.setCoil a on) := by
  intro cell outside
  cases cell with
  | coil b => exact r.coils.bit_set_other a b on fun same => outside (congrArg Target.coil same.symm)
  | _ => rfl

theorem discrete_differs : r.Differs (· = .discrete a) (r.setDiscrete a on) := by
  intro cell outside
  cases cell with
  | discrete b => exact r.discrete.bit_set_other a b on fun same => outside (congrArg Target.discrete same.symm)
  | _ => rfl

end

end Registers

namespace Target

-- The cells that a value takes up at a target: one, or two for a value of two registers, unless the
-- address space ends behind the first.
def cells (t : DataType) : Target → List Target
  | .holding a => .holding a :: if t.registers = 2 then ((next? a).map Target.holding).toList else []
  | .input a => .input a :: if t.registers = 2 then ((next? a).map Target.input).toList else []
  | .coil a => [.coil a]
  | .discrete a => [.discrete a]

theorem words_differ (place : UInt16 → Target) (set : Registers → UInt16 → UInt16 → Registers)
    (differs : ∀ r a v, Registers.Differs r (· = place a) (set r a v)) (a : UInt16) (v : Value) (r : Registers) :
    r.Differs (· ∈ place a :: if v.dataType.registers = 2 then ((next? a).map place).toList else [])
      (match upperAddress? v a with
        | some h => set (set r a v.lowWord) h v.highWord
        | none => set r a v.lowWord) := by
  have lower (others : List Target) : r.Differs (· ∈ place a :: others) (set r a v.lowWord) :=
    r.differs_more _ _ _ (differs r a v.lowWord) fun cell same => List.mem_cons.mpr (.inl same)
  unfold upperAddress?
  by_cases two : v.dataType.registers = 2
  · rw [if_pos two, if_pos two]
    cases behind : next? a with
    | none => exact lower _
    | some h =>
      refine r.differs_trans _ _ _ (lower _) ?_
      exact Registers.differs_more _ _ _ _ (differs _ h v.highWord) fun cell same => by simp [same]
  · rw [if_neg two, if_neg two]
    exact lower _

theorem write_differs (target : Target) (v : Value) (r : Registers) :
    r.Differs (· ∈ target.cells v.dataType) (target.write v r) := by
  cases target with
  | holding a => exact words_differ .holding Registers.setHolding Registers.holding_differs a v r
  | input a => exact words_differ .input Registers.setInput Registers.input_differs a v r
  | coil a => exact r.differs_more _ _ _ (r.coil_differs a v.isTrue) fun _ same => List.mem_singleton.mpr same
  | discrete a => exact r.differs_more _ _ _ (r.discrete_differs a v.isTrue) fun _ same => List.mem_singleton.mpr same

end Target

def Bindings.Drives (table : Bindings) (cell : Target) : Prop :=
  ∃ e ∈ table, e.direction = .output ∧ cell ∈ e.target.cells e.dataType

theorem Bindings.write_outputs_differs (table : Bindings) (id : Nat) (values : List Value) (r : Registers) :
    r.Differs table.Drives (table.writeOutputs id values r) := by
  refine r.differs_foldl _ _ _ fun s e member => ?_
  obtain ⟨bound, chosen⟩ := List.mem_filter.mp member
  have direction := eq_of_beq (Bool.and_eq_true_iff.mp chosen).2
  split
  · rename_i v _
    have written := e.target.write_differs (v.cast e.dataType) s
    rw [Value.dataType_cast] at written
    exact s.differs_more _ _ _ written fun cell inside => ⟨e, bound, direction, inside⟩
  · exact s.differs_refl _

namespace Controller

variable (c : Controller)

theorem write_outputs_differs (r : Registers) : r.Differs c.bindings.Drives (c.writeOutputs r) :=
  r.differs_foldl _ _ _ fun s slot _ => c.bindings.write_outputs_differs slot.1 slot.2.values s

theorem status_cells_inside (id : Nat) (p : LogicProgram) (valid : id < slotCount) :
    ∀ cell ∈ c.statusCells id p, 200 ≤ cell.1.toNat ∧ cell.1.toNat < 220 := by
  have small : (UInt16.ofNat id).toNat < 4 := by
    rw [UInt16.toNat_ofNat_of_lt' (Nat.lt_trans valid (by decide))]
    exact valid
  have place (first : UInt16) (from_ : 200 ≤ first.toNat) (to_ : first.toNat ≤ 216) :
      200 ≤ (first + UInt16.ofNat id).toNat ∧ (first + UInt16.ofNat id).toNat < 220 := by
    rw [UInt16.toNat_add]
    omega
  intro cell member
  simp only [statusCells, List.mem_cons, List.not_mem_nil, or_false] at member
  rcases member with rfl | rfl | rfl | rfl | rfl <;> exact place _ (by decide) (by decide)

def StatusCell (cell : Target) : Prop := ∃ a, cell = .input a ∧ 200 ≤ a.toNat ∧ a.toNat < 220

theorem publish_status_differs (r : Registers) : r.Differs StatusCell (c.publishStatus r) := by
  refine r.differs_foldl _ _ _ fun s cell member => ?_
  obtain ⟨⟨id, p⟩, slot, inside⟩ := List.mem_flatMap.mp member
  have valid : id < slotCount := (Vector.getElem?_eq_some_iff.mp ((Slots.mem_numbered _ id p).mp slot)).1
  have within := c.status_cells_inside id p valid cell inside
  exact s.differs_more _ _ _ (s.input_differs cell.1 cell.2) fun _ same => ⟨cell.1, same, within⟩

end Controller

end SoftPlc
