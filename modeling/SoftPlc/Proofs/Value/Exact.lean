import SoftPlc.Proofs.Value.Integers

set_option autoImplicit false

namespace SoftPlc.Value

-- What a type makes of a number: the one number of the type that is whole widths away from it.
def Reduces (t : DataType) (n : Int) (v : Value) : Prop :=
  v.dataType = t ∧ t.Holds v.toInt ∧ t.width ∣ n - v.toInt

section
variable (t : DataType) (integer : t.isInteger = true)
include integer

theorem reduces_of_int (n : Int) : Reduces t n (ofInt t n) := by
  obtain ⟨inside, k, apart⟩ := wraps t integer n
  refine ⟨dataType_ofInt t n, inside, k, ?_⟩
  rw [apart, Int.mul_comm]
  omega

theorem negate_of_int (n : Int) : (ofInt t n).negate = .ok (ofInt t (-n)) := by
  cases t with
  | bool | real => cases integer
  | int => exact congrArg (Except.ok ∘ Value.int) (Int16.ofInt_neg n).symm
  | dint => exact congrArg (Except.ok ∘ Value.dint) (Int32.ofInt_neg n).symm
  | dword => exact congrArg (Except.ok ∘ Value.dword) (UInt32.ofInt_neg n).symm

theorem subtract_of_int (n m : Int) : (ofInt t n).subtract (ofInt t m) = .ok (ofInt t (n - m)) := by
  cases t with
  | bool | real => cases integer
  | int => exact congrArg (Except.ok ∘ Value.int) (Int16.ofInt_sub n m).symm
  | dint => exact congrArg (Except.ok ∘ Value.dint) (Int32.ofInt_sub n m).symm
  | dword =>
    have same : UInt32.ofInt n - UInt32.ofInt m = UInt32.ofInt (n - m) := by
      rw [UInt32.sub_eq_add_neg, ← UInt32.ofInt_neg, ← UInt32.ofInt_add, ← Int.sub_eq_add_neg]
    exact congrArg (Except.ok ∘ Value.dword) same

theorem multiply_of_int (n m : Int) : (ofInt t n).multiply (ofInt t m) = .ok (ofInt t (n * m)) := by
  cases t with
  | bool | real => cases integer
  | int => exact congrArg (Except.ok ∘ Value.int) (Int16.ofInt_mul n m).symm
  | dint => exact congrArg (Except.ok ∘ Value.dint) (Int32.ofInt_mul n m).symm
  | dword => exact congrArg (Except.ok ∘ Value.dword) (UInt32.ofInt_mul n m).symm

end

section
variable (l r : Value) (integer : l.dataType.isInteger = true) (same : r.dataType = l.dataType)
include integer same

theorem division_refused (zero : r.toInt = 0) :
    l.divide r = .error (.of .divisionByZero) ∧ l.modulo r = .error (.because .divisionByZero "MOD BY ZERO") := by
  have cleared := r.of_int_to_int (same ▸ integer)
  rw [zero, same] at cleared
  cases l with
  | bool | real => cases integer
  | int | dint | dword =>
    rw [← cleared]
    exact ⟨rfl, rfl⟩

theorem divide_numbers (given : r.toInt ≠ 0) :
    l.divide r = .ok (ofInt l.dataType (l.toInt.tdiv r.toInt)) := by
  cases l <;> cases r <;> cases same
  case bool | real => cases integer
  case int l r =>
    have other : r ≠ 0 := fun zero => given (by rw [zero]; rfl)
    have quotient : l / r = Int16.ofInt (l.toInt.tdiv r.toInt) := by
      apply Int16.toInt_inj.mp
      rw [Int16.toInt_div, Int16.toInt_ofInt]
    simp only [divide, if_neg other, quotient, ofInt, toInt, dataType]
  case dint l r =>
    have other : r ≠ 0 := fun zero => given (by rw [zero]; rfl)
    have quotient : l / r = Int32.ofInt (l.toInt.tdiv r.toInt) := by
      apply Int32.toInt_inj.mp
      rw [Int32.toInt_div, Int32.toInt_ofInt]
    simp only [divide, if_neg other, quotient, ofInt, toInt, dataType]
  case dword l r =>
    have other : r ≠ 0 := fun zero => given (by rw [zero]; rfl)
    have quotient : l / r = UInt32.ofInt ((l.toNat : Int).tdiv r.toNat) := by
      apply UInt32.toNat_inj.mp
      have whole := dword_to_int ((l.toNat : Int).tdiv r.toNat)
      have small := (l / r).toNat_lt
      rw [← Int.ofNat_tdiv] at whole ⊢
      rw [UInt32.toNat_div] at small ⊢
      generalize l.toNat / r.toNat = n at small whole ⊢
      omega
    simp only [divide, if_neg other, quotient, ofInt, toInt, dataType]

theorem modulo_numbers (given : r.toInt ≠ 0) :
    l.modulo r = .ok (ofInt l.dataType (l.toInt.tmod r.toInt)) := by
  cases l <;> cases r <;> cases same
  case bool | real => cases integer
  case int l r =>
    have other : r ≠ 0 := fun zero => given (by rw [zero]; rfl)
    simp only [modulo, if_neg other, ofInt, toInt, dataType, ← Int16.toInt_mod, Int16.ofInt_toInt]
  case dint l r =>
    have other : r ≠ 0 := fun zero => given (by rw [zero]; rfl)
    simp only [modulo, if_neg other, ofInt, toInt, dataType, ← Int32.toInt_mod, Int32.ofInt_toInt]
  case dword l r =>
    have other : r ≠ 0 := fun zero => given (by rw [zero]; rfl)
    have remainder : l % r = UInt32.ofInt ((l.toNat : Int).tmod r.toNat) := by
      apply UInt32.toNat_inj.mp
      have whole := dword_to_int ((l.toNat : Int).tmod r.toNat)
      have small := (l % r).toNat_lt
      rw [← Int.ofNat_tmod] at whole ⊢
      rw [UInt32.toNat_mod] at small ⊢
      generalize l.toNat % r.toNat = n at small whole ⊢
      omega
    simp only [modulo, if_neg other, remainder, ofInt, toInt, dataType]

end

theorem remainder_between (n m : Int) : 0 ≤ n.tmod m ∧ n.tmod m ≤ n ∨ n ≤ n.tmod m ∧ n.tmod m ≤ 0 := by
  have magnitude : (n.tmod m).natAbs ≤ n.natAbs := by
    rw [Int.natAbs_tmod]
    exact Nat.mod_le _ _
  rcases Int.le_total 0 n with up | down
  · have sign := Int.tmod_nonneg m up
    omega
  · have sign := Int.tmod_nonneg m (Int.neg_nonneg.mpr down)
    rw [Int.neg_tmod] at sign
    omega

theorem remainder_sign (n m : Int) : n.tmod m = 0 ∨ (n.tmod m).sign = n.sign := by
  rw [Int.sign_tmod]
  split
  · exact .inl (Int.tmod_eq_zero_of_dvd ‹_›)
  · exact .inr rfl

theorem remainder_held (t : DataType) (integer : t.isInteger = true) (n m : Int) (held : t.Holds n) :
    t.Holds (n.tmod m) := by
  have between := remainder_between n m
  cases t with
  | bool | real => cases integer
  | int | dint | dword =>
    simp only [DataType.Holds] at held ⊢
    omega

section
variable (l r : Value) (integer : l.dataType.isInteger = true) (same : r.dataType = l.dataType)
include integer same

-- What is lost of a quotient that has no room is lost again by the product.
theorem quotient_remultiplied :
    (ofInt l.dataType (l.toInt.tdiv r.toInt)).multiply r = .ok (ofInt l.dataType (l.toInt.tdiv r.toInt * r.toInt)) := by
  have product := multiply_of_int l.dataType integer (l.toInt.tdiv r.toInt) r.toInt
  rwa [← same, r.of_int_to_int (same ▸ integer), same] at product

theorem divided_and_restored (given : r.toInt ≠ 0) : ∃ q d p, l.divide r = .ok q ∧ l.modulo r = .ok d ∧
    Reduces l.dataType (l.toInt.tdiv r.toInt) q ∧
    d.toInt.natAbs < r.toInt.natAbs ∧ (d.toInt = 0 ∨ d.toInt.sign = l.toInt.sign) ∧
    q.multiply r = .ok p ∧ p.add d = .ok l := by
  have fits : (ofInt l.dataType (l.toInt.tmod r.toInt)).toInt = l.toInt.tmod r.toInt :=
    to_int_held l.dataType integer _ (remainder_held l.dataType integer _ _ (l.holds_to_int integer))
  refine ⟨_, _, _, divide_numbers l r integer same given, modulo_numbers l r integer same given,
    reduces_of_int l.dataType integer _, ?_, ?_, quotient_remultiplied l r integer same, ?_⟩
  · rw [fits, Int.natAbs_tmod]
    exact Nat.mod_lt _ (Int.natAbs_pos.mpr given)
  · rw [fits]
    exact remainder_sign l.toInt r.toInt
  · rw [add_of_int l.dataType integer, Int.tdiv_mul_add_tmod, l.of_int_to_int integer]

end

theorem refused_iff (answer : Except Fault Value) (refuses : Prop) (f : Fault) (v : Value)
    (failed : refuses → answer = .error f) (worked : ¬ refuses → answer = .ok v) :
    (∃ g, answer = .error g) ↔ refuses := by
  constructor
  · rintro ⟨g, told⟩
    apply Classical.byContradiction
    intro allowed
    rw [worked allowed] at told
    cases told
  · exact fun refused => ⟨f, failed refused⟩

-- All operations on two operands of one integer type. The quotient is cut toward zero.
theorem integers_are_exact (t : DataType) (integer : t.isInteger = true) (a b : Value) (first : a.dataType = t)
    (second : b.dataType = t) :
    (∃ v, a.add b = .ok v ∧ Reduces t (a.toInt + b.toInt) v) ∧
    (∃ v, a.subtract b = .ok v ∧ Reduces t (a.toInt - b.toInt) v) ∧
    (∃ v, a.multiply b = .ok v ∧ Reduces t (a.toInt * b.toInt) v) ∧
    (∃ v, a.negate = .ok v ∧ Reduces t (-a.toInt) v) ∧
    ((∃ f, a.divide b = .error f) ↔ b.toInt = 0) ∧
    ((∃ f, a.modulo b = .error f) ↔ b.toInt = 0) ∧
    (b.toInt ≠ 0 → ∃ q r p, a.divide b = .ok q ∧ a.modulo b = .ok r ∧
      Reduces t (a.toInt.tdiv b.toInt) q ∧
      r.toInt.natAbs < b.toInt.natAbs ∧ (r.toInt = 0 ∨ r.toInt.sign = a.toInt.sign) ∧
      q.multiply b = .ok p ∧ p.add r = .ok a) := by
  subst first
  have same := a.of_int_to_int integer
  have same' := b.of_int_to_int (second ▸ integer)
  have sum := add_of_int a.dataType integer a.toInt b.toInt
  have difference := subtract_of_int a.dataType integer a.toInt b.toInt
  have product := multiply_of_int a.dataType integer a.toInt b.toInt
  have opposite := negate_of_int a.dataType integer a.toInt
  rw [second] at same'
  rw [same, same'] at sum difference product
  rw [same] at opposite
  have reduces := reduces_of_int a.dataType integer
  have refused := division_refused a b integer second
  refine ⟨⟨_, sum, reduces _⟩, ⟨_, difference, reduces _⟩, ⟨_, product, reduces _⟩, ⟨_, opposite, reduces _⟩,
    ?_, ?_, ?_⟩
  · exact refused_iff _ _ _ _ (fun zero => (refused zero).1) (divide_numbers a b integer second)
  · exact refused_iff _ _ _ _ (fun zero => (refused zero).2) (modulo_numbers a b integer second)
  · exact divided_and_restored a b integer second

theorem least_over_minus_one_is_exact : (Value.int (-1)).toInt ≠ 0 ∧
    ∃ q r p, divide (.int (-32768)) (.int (-1)) = .ok q ∧ modulo (.int (-32768)) (.int (-1)) = .ok r ∧
      q = .int (-32768) ∧ r = .int 0 ∧ Reduces .int 32768 q ∧
      q.multiply (.int (-1)) = .ok p ∧ p.add r = .ok (.int (-32768)) := by
  have given : (Value.int (-1)).toInt ≠ 0 := by decide
  obtain ⟨_, _, _, _, _, _, restored⟩ := integers_are_exact .int rfl (.int (-32768)) (.int (-1)) rfl rfl
  obtain ⟨q, r, p, quotient, remainder, reduced, _, _, product, sum⟩ := restored given
  have least : divide (.int (-32768)) (.int (-1)) = .ok (.int (-32768)) := by rfl
  have nothing : modulo (.int (-32768)) (.int (-1)) = .ok (.int 0) := by rfl
  exact ⟨given, q, r, p, quotient, remainder, Except.ok.inj (quotient.symm.trans least),
    Except.ok.inj (remainder.symm.trans nothing), reduced, product, sum⟩

end SoftPlc.Value
