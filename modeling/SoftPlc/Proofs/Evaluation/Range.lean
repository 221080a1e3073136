import Mathlib.Tactic.Ring
import SoftPlc.Proofs.Evaluation.Evaluator
import SoftPlc.Proofs.Value.Integers

set_option autoImplicit false

namespace SoftPlc.Evaluation

def Within (step limit n : Int) : Prop := if step < 0 then limit ≤ n else n ≤ limit

instance (step limit n : Int) : Decidable (Within step limit n) := by
  unfold Within
  infer_instance

def distance (first limit step : Int) : Int := if step < 0 then first - limit else limit - first

def visitCount (first limit step : Int) : Nat := (distance first limit step / step.natAbs + 1).toNat

def visits (first limit step : Int) : List Int :=
  (List.range (visitCount first limit step)).map fun k : Nat => first + k * step

def behind (first limit step : Int) : Int := first + visitCount first limit step * step

variable (first limit step : Int)

theorem within_iff_distance : Within step limit first ↔ 0 ≤ distance first limit step := by
  unfold Within distance
  split <;> omega

theorem distance_step : distance (first + step) limit step = distance first limit step + -1 * step.natAbs := by
  unfold distance
  split <;> omega

theorem within_sooner (k : Nat) (later : Within step limit (first + k * step)) : Within step limit first := by
  by_cases down : step < 0
  · have far : (k : Int) * step ≤ 0 := Int.mul_nonpos_of_nonneg_of_nonpos (Int.natCast_nonneg k) (Int.le_of_lt down)
    rw [Within, if_pos down] at later ⊢
    omega
  · have far : 0 ≤ (k : Int) * step := Int.mul_nonneg (Int.natCast_nonneg k) (Int.not_lt.mp down)
    rw [Within, if_neg down] at later ⊢
    omega

section
variable (moves : step ≠ 0)
include moves

theorem visit_count_zero (beyond : ¬ Within step limit first) : visitCount first limit step = 0 := by
  have negative : distance first limit step < 0 := by
    rw [within_iff_distance] at beyond
    exact Int.not_le.mp beyond
  have positive : (0 : Int) < step.natAbs := by omega
  have below := Int.ediv_neg_of_neg_of_pos negative positive
  unfold visitCount
  omega

theorem visit_count_succ (within : Within step limit first) :
    visitCount first limit step = visitCount (first + step) limit step + 1 := by
  have positive : (0 : Int) < step.natAbs := by omega
  have whole := Int.ediv_nonneg ((within_iff_distance first limit step).mp within) (Int.le_of_lt positive)
  have less := Int.add_mul_ediv_right (distance first limit step) (-1) (Int.ne_of_gt positive)
  rw [← distance_step first limit step] at less
  unfold visitCount
  omega

theorem visits_beyond (beyond : ¬ Within step limit first) : visits first limit step = [] := by
  rw [visits, visit_count_zero first limit step moves beyond]
  rfl

theorem visits_within (within : Within step limit first) :
    visits first limit step = first :: visits (first + step) limit step := by
  rw [visits, visit_count_succ first limit step moves within, List.range_succ_eq_map, List.map_cons, List.map_map]
  congr 1
  · simp
  · refine List.map_congr_left fun k _ => ?_
    simp only [Function.comp_apply, Nat.succ_eq_add_one, Int.natCast_add, Int.natCast_one, Int.add_mul, Int.one_mul]
    omega

theorem behind_beyond (beyond : ¬ Within step limit first) : behind first limit step = first := by
  rw [behind, visit_count_zero first limit step moves beyond]
  omega

theorem behind_within (within : Within step limit first) : behind first limit step = behind (first + step) limit step := by
  rw [behind, behind, visit_count_succ first limit step moves within, Int.natCast_add, Int.add_mul]
  omega

theorem mem_visits (n : Int) : n ∈ visits first limit step ↔ ∃ k : Nat, n = first + k * step ∧ Within step limit n := by
  induction count : visitCount first limit step generalizing first with
  | zero =>
    have beyond : ¬ Within step limit first := by
      intro within
      cases (visit_count_succ first limit step moves within).symm.trans count
    rw [visits_beyond first limit step moves beyond]
    refine ⟨nofun, fun ⟨k, place, within⟩ => ?_⟩
    exact absurd (within_sooner first limit step k (place ▸ within)) beyond
  | succ c ih =>
    by_cases within : Within step limit first
    · rw [visit_count_succ first limit step moves within] at count
      rw [visits_within first limit step moves within, List.mem_cons, ih (first + step) (Nat.succ.inj count)]
      constructor
      · intro member
        cases member with
        | inl here => exact ⟨0, by omega, here ▸ within⟩
        | inr later =>
          obtain ⟨k, place, inside⟩ := later
          exact ⟨k + 1, by rw [place]; push_cast; ring, inside⟩
      · intro ⟨k, place, inside⟩
        cases k with
        | zero => exact .inl (by omega)
        | succ k => exact .inr ⟨k, by rw [place]; push_cast; ring, inside⟩
    · cases (visit_count_zero first limit step moves within).symm.trans count

end

section
variable (t : DataType) (integer : t.isInteger = true) (stride : t.Holds step)
include integer stride

theorem unheld_beyond (stop : t.Holds limit) (start : t.Holds first) (out : ¬ t.Holds (first + step)) :
    ¬ Within step limit (first + step) := by
  unfold Within
  cases t with
  | bool | real => cases integer
  | int | dint | dword =>
    simp only [DataType.Holds] at *
    split <;> omega

theorem wrapped_within (start : t.Holds first) (moves : step ≠ 0) (within : Within step limit first)
    (out : ¬ t.Holds (first + step)) : Within step limit (Value.ofInt t (first + step)).toInt := by
  by_cases down : step < 0
  · have above := Value.wraps_above t integer first step start stride out down
    rw [Within, if_pos down] at within ⊢
    omega
  · have below := Value.wraps_below t integer first step start stride out (by omega)
    rw [Within, if_neg down] at within ⊢
    omega

-- The variable that is set to the number behind the visits is beyond the limit if and only if its type has
-- room for the number. Where it wraps it comes out on the near side again.
theorem behind_within_iff (stop : t.Holds limit) (start : t.Holds first) (moves : step ≠ 0) :
    Within step limit (Value.ofInt t (behind first limit step)).toInt ↔ ¬ t.Holds (behind first limit step) := by
  induction count : visitCount first limit step generalizing first with
  | zero =>
    have beyond : ¬ Within step limit first := by
      intro within
      cases (visit_count_succ first limit step moves within).symm.trans count
    rw [behind_beyond first limit step moves beyond, Value.to_int_held t integer first start]
    exact ⟨fun within => absurd within beyond, fun out => absurd start out⟩
  | succ c ih =>
    by_cases within : Within step limit first
    · rw [visit_count_succ first limit step moves within] at count
      rw [behind_within first limit step moves within]
      by_cases held : t.Holds (first + step)
      · exact ih (first + step) held (Nat.succ.inj count)
      · have beyond := unheld_beyond first limit step t integer stride stop start held
        rw [behind_beyond (first + step) limit step moves beyond]
        exact ⟨fun _ => held, fun _ => wrapped_within first limit step t integer stride start moves within held⟩
    · cases (visit_count_zero first limit step moves within).symm.trans count

end

def unrolled (vars : List Variable) (name : String) (body : Store → Result) : List Int → Store → Result
  | [], store => some (.next, store)
  | n :: rest, store =>
    andThen (body (assign vars store name (.ofInt (typeOf vars name) n))) (unrolled vars name body rest)

theorem and_then_goes_on (result : Result) (rest : Store → Result) (last : Store)
    (ended : andThen result rest = some (.next, last)) :
    ∃ left, result = some (.next, left) ∧ rest left = some (.next, last) := by
  match result with
  | none | some (.exit, _) | some (.leave, _) | some (.fault _, _) => cases ended
  | some (.next, left) => exact ⟨left, rfl, ended⟩

end SoftPlc.Evaluation
