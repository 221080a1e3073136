import Mathlib.Data.List.Induction
import SoftPlc.Controller.LogicProgram

set_option autoImplicit false

namespace SoftPlc.Timing

structure Run where
  us : UInt32
  intervalMs : UInt32
deriving DecidableEq, Repr

def recorded (runs : List Run) : Timing :=
  runs.foldl (fun t run => t.record run.us run.intervalMs) {}

def times (runs : List Run) : List UInt32 := runs.map (·.us)

def LeastOf (us : UInt32) (times : List UInt32) : Prop := us ∈ times ∧ ∀ other ∈ times, us ≤ other

def GreatestOf (us : UInt32) (times : List UInt32) : Prop := us ∈ times ∧ ∀ other ∈ times, other ≤ us

structure Describes (t : Timing) (times : List UInt32) : Prop where
  last : times.getLast? = some t.last
  least : LeastOf t.least times
  greatest : GreatestOf t.greatest times
  above_least : t.least ≤ t.average
  below_greatest : t.average ≤ t.greatest

-- The times that were counted since the count last started at zero.
def sinceWrap (times : List UInt32) : List UInt32 :=
  times.drop ((times.length - 1) / 4294967296 * 4294967296)

def sum : List UInt32 → Nat
  | [] => 0
  | us :: times => us.toNat + sum times

theorem recorded_snoc (runs : List Run) (run : Run) :
    recorded (runs ++ [run]) = (recorded runs).record run.us run.intervalMs := by
  rw [recorded, List.foldl_append]
  rfl

theorem times_snoc (runs : List Run) (run : Run) : times (runs ++ [run]) = times runs ++ [run.us] :=
  List.map_append

theorem sum_snoc (times : List UInt32) (us : UInt32) : sum (times ++ [us]) = sum times + us.toNat := by
  induction times with
  | nil => exact Nat.add_comm us.toNat 0
  | cons other times ih => rw [List.cons_append, sum, sum, ih, Nat.add_assoc]

theorem since_wrap_first (times : List UInt32) (us : UInt32) (wrapped : times.length % 4294967296 = 0) :
    sinceWrap (times ++ [us]) = [us] := by
  have turns := Nat.div_mul_cancel (Nat.dvd_of_mod_eq_zero wrapped)
  rw [sinceWrap, List.length_append, List.length_singleton, Nat.add_sub_cancel, turns]
  exact List.drop_left

theorem since_wrap_later (times : List UInt32) (us : UInt32) (counted : times.length % 4294967296 ≠ 0) :
    sinceWrap (times ++ [us]) = sinceWrap times ++ [us] := by
  have same : (times.length - 1) / 4294967296 = times.length / 4294967296 := by omega
  rw [sinceWrap, sinceWrap, List.length_append, List.length_singleton, Nat.add_sub_cancel, same]
  exact List.drop_append_of_le_length (Nat.div_mul_le_self _ _)

theorem count_recorded (runs : List Run) : (recorded runs).count.toNat = runs.length % 4294967296 := by
  induction runs using List.reverseRecOn with
  | nil => rfl
  | append_singleton runs run ih =>
    rw [recorded_snoc, record, UInt32.toNat_add, ih, List.length_append]
    exact Nat.mod_add_mod _ _ _

theorem total_recorded (runs : List Run) :
    (recorded runs).total.toNat = sum (times runs) % 18446744073709551616 := by
  induction runs using List.reverseRecOn with
  | nil => rfl
  | append_singleton runs run ih =>
    rw [recorded_snoc, record, UInt64.toNat_add, ih, times_snoc, sum_snoc, UInt32.toNat_toUInt64]
    exact Nat.mod_add_mod _ _ _

theorem last_recorded (runs : List Run) (given : runs ≠ []) : (times runs).getLast? = some (recorded runs).last := by
  cases runs using List.reverseRecOn with
  | nil => exact absurd rfl given
  | append_singleton runs run =>
    rw [recorded_snoc, times_snoc, List.getLast?_concat]
    rfl

theorem greatest_extended (x us : UInt32) (times : List UInt32) (greatest : GreatestOf x times) :
    GreatestOf (max x us) (times ++ [us]) := by
  obtain ⟨among, above⟩ := greatest
  by_cases more : x ≤ us
  · rw [show max x us = us from if_pos more]
    refine ⟨by simp, fun other member => ?_⟩
    rcases List.mem_append.mp member with old | new
    · exact UInt32.le_trans (above other old) more
    · rw [List.mem_singleton.mp new]
      exact UInt32.le_refl us
  · rw [show max x us = x from if_neg more]
    refine ⟨List.mem_append_left _ among, fun other member => ?_⟩
    rcases List.mem_append.mp member with old | new
    · exact above other old
    · rw [List.mem_singleton.mp new]
      exact UInt32.le_of_lt (UInt32.not_le.mp more)

theorem least_extended (x us : UInt32) (times : List UInt32) (least : LeastOf x times) :
    LeastOf (if us < x then us else x) (times ++ [us]) := by
  obtain ⟨among, below⟩ := least
  by_cases less : us < x
  · rw [if_pos less]
    refine ⟨by simp, fun other member => ?_⟩
    rcases List.mem_append.mp member with old | new
    · exact UInt32.le_trans (UInt32.le_of_lt less) (below other old)
    · rw [List.mem_singleton.mp new]
      exact UInt32.le_refl us
  · rw [if_neg less]
    refine ⟨List.mem_append_left _ among, fun other member => ?_⟩
    rcases List.mem_append.mp member with old | new
    · exact below other old
    · rw [List.mem_singleton.mp new]
      exact UInt32.not_lt.mp less

-- The greatest time starts at zero, as if a run without a time had been recorded.
theorem greatest_with_zero (runs : List Run) : GreatestOf (recorded runs).greatest (0 :: times runs) := by
  induction runs using List.reverseRecOn with
  | nil => exact ⟨by simp [recorded], by simp [recorded, times]⟩
  | append_singleton runs run ih =>
    rw [recorded_snoc, times_snoc]
    exact greatest_extended _ run.us _ ih

theorem greatest_recorded (runs : List Run) (given : runs ≠ []) :
    GreatestOf (recorded runs).greatest (times runs) := by
  obtain ⟨among, above⟩ := greatest_with_zero runs
  refine ⟨?_, fun other member => above other (List.mem_cons_of_mem 0 member)⟩
  rcases List.mem_cons.mp among with zero | among
  · obtain ⟨run, member⟩ := List.exists_mem_of_ne_nil runs given
    have timed : run.us ∈ times runs := List.mem_map_of_mem member
    have nothing := above run.us (List.mem_cons_of_mem 0 timed)
    rw [zero] at nothing ⊢
    rwa [← UInt32.le_zero_iff.mp nothing]
  · exact among

-- The first run that is counted sets the least time anew, and so does the first one behind each wrap.
theorem least_recorded (runs : List Run) (given : runs ≠ []) :
    LeastOf (recorded runs).least (sinceWrap (times runs)) := by
  induction runs using List.reverseRecOn with
  | nil => exact absurd rfl given
  | append_singleton runs run ih =>
    have counted := count_recorded runs
    have length : (times runs).length = runs.length := List.length_map _
    rw [recorded_snoc, times_snoc, record]
    by_cases wrapped : runs.length % 4294967296 = 0
    · have nothing : (recorded runs).count = 0 := UInt32.toNat_inj.mp (counted.trans wrapped)
      have first : (recorded runs).count + 1 = 1 := by
        rw [nothing]
        rfl
      rw [since_wrap_first _ _ (length ▸ wrapped), if_pos (.inl first)]
      exact ⟨List.mem_singleton.mpr rfl, fun other member => (List.mem_singleton.mp member) ▸ UInt32.le_refl _⟩
    · have later : (recorded runs).count + 1 ≠ 1 := by
        intro first
        have sum := congrArg UInt32.toNat first
        rw [UInt32.toNat_add, counted] at sum
        have limit := Nat.mod_lt runs.length (show 4294967296 > 0 by decide)
        simp only [UInt32.toNat_one] at sum
        omega
      have before : runs ≠ [] := fun empty => wrapped (by rw [empty]; rfl)
      simp only [later, false_or]
      rw [since_wrap_later _ _ (length ▸ wrapped)]
      exact least_extended _ run.us _ (ih before)

theorem sum_between (low high : UInt32) (times : List UInt32) (least : ∀ us ∈ times, low ≤ us)
    (greatest : ∀ us ∈ times, us ≤ high) :
    times.length * low.toNat ≤ sum times ∧ sum times ≤ times.length * high.toNat := by
  induction times with
  | nil => exact ⟨Nat.le_of_eq (Nat.zero_mul _), Nat.zero_le _⟩
  | cons us times ih =>
    obtain ⟨below, above⟩ := ih (fun other member => least other (List.mem_cons_of_mem us member))
      (fun other member => greatest other (List.mem_cons_of_mem us member))
    have low_us := UInt32.le_iff_toNat_le.mp (least us List.mem_cons_self)
    have us_high := UInt32.le_iff_toNat_le.mp (greatest us List.mem_cons_self)
    rw [sum, List.length_cons, Nat.succ_mul, Nat.succ_mul]
    omega

theorem average_recorded (runs : List Run) (given : runs ≠ []) (few : runs.length < 4294967296) :
    (recorded runs).average.toNat = sum (times runs) / runs.length := by
  have some : 0 < runs.length := List.length_pos_iff.mpr given
  have counted := count_recorded runs
  rw [Nat.mod_eq_of_lt few] at counted
  have nonzero : (recorded runs).count ≠ 0 := by
    intro zero
    rw [zero] at counted
    exact Nat.ne_of_gt some counted.symm
  obtain ⟨_, below⟩ := sum_between 0 (recorded runs).greatest (times runs) (fun _ _ => UInt32.zero_le)
    (greatest_recorded runs given).2
  have room := (recorded runs).greatest.toNat_lt
  rw [times, List.length_map, ← times] at below
  have quotient : sum (times runs) / runs.length < 4294967296 := by
    apply (Nat.div_lt_iff_lt_mul some).mpr
    calc
      sum (times runs) ≤ runs.length * (recorded runs).greatest.toNat := below
      _ < runs.length * 4294967296 := Nat.mul_lt_mul_of_pos_left room some
      _ = 4294967296 * runs.length := Nat.mul_comm _ _
  have total : (recorded runs).total.toNat = sum (times runs) := by
    rw [total_recorded]
    apply Nat.mod_eq_of_lt
    calc
      sum (times runs) < 4294967296 * runs.length := (Nat.div_lt_iff_lt_mul some).mp quotient
      _ ≤ 4294967296 * 4294967296 := Nat.mul_le_mul_left _ (Nat.le_of_lt few)
  rw [average, if_neg nonzero, UInt64.toNat_toUInt32, UInt64.toNat_div, UInt32.toNat_toUInt64, total, counted]
  exact Nat.mod_eq_of_lt quotient

theorem few_are_described (runs : List Run) (given : runs ≠ []) (few : runs.length < 4294967296) :
    (recorded runs).Describes (times runs) := by
  have greatest := greatest_recorded runs given
  have least := least_recorded runs given
  have length : (times runs).length = runs.length := List.length_map _
  have some : 0 < runs.length := List.length_pos_iff.mpr given
  have all : sinceWrap (times runs) = times runs := by
    rw [sinceWrap, length, Nat.div_eq_of_lt (by omega), Nat.zero_mul, List.drop_zero]
  rw [all] at least
  obtain ⟨below, above⟩ := sum_between _ _ (times runs) least.2 greatest.2
  rw [length] at below above
  have mean := average_recorded runs given few
  refine ⟨last_recorded runs given, least, greatest, ?_, ?_⟩
  · rw [UInt32.le_iff_toNat_le, mean]
    exact (Nat.le_div_iff_mul_le some).mpr (by rwa [Nat.mul_comm])
  · rw [UInt32.le_iff_toNat_le, mean]
    exact Nat.div_le_of_le_mul above

theorem average_of_full_count (runs : List Run) (wrapped : runs.length % 4294967296 = 0) :
    (recorded runs).average = 0 := by
  have nothing : (recorded runs).count = 0 := UInt32.toNat_inj.mp ((count_recorded runs).trans wrapped)
  rw [average, if_pos nothing]

theorem full_count_misdescribes (run : Run) (timed : 0 < run.us) :
    ¬ (recorded (List.replicate 4294967296 run)).Describes (times (List.replicate 4294967296 run)) := by
  intro described
  have among := described.least.1
  rw [times, List.map_replicate] at among
  have above := described.above_least
  rw [List.eq_of_mem_replicate among, average_of_full_count _ (by rw [List.length_replicate])] at above
  exact UInt32.not_le.mpr timed above

theorem first_is_forgotten (first run : Run) (n : Nat) (many : 4294967296 ≤ n) :
    (recorded (first :: List.replicate n run)).least = run.us := by
  have recent := (least_recorded (first :: List.replicate n run) (List.cons_ne_nil _ _)).1
  have length : (times (first :: List.replicate n run)).length = n + 1 := by
    rw [times, List.length_map, List.length_cons, List.length_replicate]
  obtain ⟨dropped, more⟩ : ∃ dropped, n / 4294967296 * 4294967296 = dropped + 1 :=
    Nat.exists_eq_succ_of_ne_zero (by omega)
  rw [sinceWrap, length, Nat.add_sub_cancel, more, times, List.map_cons, List.map_replicate,
    List.drop_succ_cons] at recent
  exact List.eq_of_mem_replicate (List.mem_of_mem_drop recent)

theorem forgotten_run_misdescribes (first run : Run) (quicker : first.us < run.us) (n : Nat) (many : 4294967296 ≤ n) :
    ¬ (recorded (first :: List.replicate n run)).Describes (times (first :: List.replicate n run)) := by
  intro described
  have below := described.least.2 first.us List.mem_cons_self
  rw [first_is_forgotten first run n many] at below
  exact UInt32.not_le.mpr quicker below

-- What is told of any number of runs, and the numbers of runs that are always described as a whole.
theorem runs_are_described (n : Nat) (any : 0 < n) :
    (∀ runs, runs.length = n → (times runs).getLast? = some (recorded runs).last ∧
      GreatestOf (recorded runs).greatest (times runs) ∧ LeastOf (recorded runs).least (sinceWrap (times runs))) ∧
    ((∀ runs, runs.length = n → (recorded runs).Describes (times runs)) ↔ n < 4294967296) := by
  have given (runs : List Run) (length : runs.length = n) : runs ≠ [] := List.length_pos_iff.mp (length ▸ any)
  refine ⟨fun runs length => ?_, fun all => ?_, fun few runs length => ?_⟩
  · exact ⟨last_recorded runs (given runs length), greatest_recorded runs (given runs length),
      least_recorded runs (given runs length)⟩
  · apply Nat.lt_of_not_le
    intro many
    rcases Nat.eq_or_lt_of_le many with rfl | more
    · exact full_count_misdescribes ⟨5, 10⟩ (by decide) (all _ List.length_replicate)
    · obtain ⟨others, rfl⟩ : ∃ others, n = others + 1 := ⟨n - 1, by omega⟩
      refine forgotten_run_misdescribes ⟨1, 10⟩ ⟨5, 10⟩ (by decide) others (by omega) (all _ ?_)
      rw [List.length_cons, List.length_replicate]
  · exact few_are_described runs (given runs length) (length ▸ few)

def threeRuns : List Run := [⟨400, 10⟩, ⟨200, 10⟩, ⟨12000, 10⟩]

theorem three_runs_are_described : 0 < threeRuns.length ∧ threeRuns.length < 4294967296 ∧
    recorded threeRuns = ⟨3, 12000, 200, 12000, 12600, 1⟩ ∧ (times threeRuns).getLast? = some 12000 ∧
    (recorded threeRuns).Describes (times threeRuns) := by
  have few : threeRuns.length < 4294967296 := by decide
  obtain ⟨each, always⟩ := runs_are_described 3 (by decide)
  exact ⟨by decide, few, by decide, (each threeRuns rfl).1, always.mpr few threeRuns rfl⟩

-- After 4294967296 runs of five microseconds the average is zero, below all of them. And as many runs of five
-- microseconds behind one of one microsecond hide it.
theorem full_count_is_misdescribed :
    let equal := List.replicate 4294967296 (Run.mk 5 10)
    let slowed := Run.mk 1 10 :: equal
    ((recorded equal).average = 0 ∧ ¬ (recorded equal).Describes (times equal)) ∧
      (recorded slowed).least = 5 ∧ 1 ∈ times slowed ∧ ¬ (recorded slowed).Describes (times slowed) :=
  ⟨⟨average_of_full_count _ (by rw [List.length_replicate]), full_count_misdescribes ⟨5, 10⟩ (by decide)⟩,
    first_is_forgotten _ _ _ (Nat.le_refl _), List.mem_cons_self,
    forgotten_run_misdescribes ⟨1, 10⟩ ⟨5, 10⟩ (by decide) _ (Nat.le_refl _)⟩

end SoftPlc.Timing
