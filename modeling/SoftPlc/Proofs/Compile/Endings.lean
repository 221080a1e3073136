import SoftPlc.Proofs.Compile.Expressions

set_option autoImplicit false

namespace SoftPlc.Compile

open Machine Evaluation

abbrev Place := Store → Machine → Prop

def Stands (vars : List Variable) (pc : Nat) (stack : List Value) : Place :=
  fun store m => m.At pc stack store ∧ Fits vars store

def nowhere : Place := fun _ _ => False

def Ends (next exit : Place) : Result → Machine → Prop
  | none, m => m.isRunning = true
  | some (.next, store), m => next store m
  | some (.exit, store), m => exit store m
  | some (.leave, store), m => m.Halted store
  | some (.fault f, store), m => m.Faulted f store

-- How many steps are known to be taken: as many as the rounds of a loop that is not done, and
-- where the statement goes on to the next one at least `through`.
def least (through rounds : Nat) : Result → Nat
  | none => rounds
  | some (.next, _) => through
  | some _ => 0

theorem least_less (through rounds : Nat) (result : Result) :
    least through rounds result ≤ through + least 0 rounds result := by
  match result with
  | none => exact Nat.le_add_left rounds through
  | some (.next, _) => exact Nat.le_refl through
  | some (.exit, _) | some (.leave, _) | some (.fault _, _) => exact Nat.zero_le _

theorem least_round (rounds : Nat) (result : Result) :
    least 0 (rounds + 1) result ≤ 1 + least 0 rounds result := by
  match result with
  | none => exact Nat.le_of_eq (Nat.add_comm rounds 1)
  | some (.next, _) | some (.exit, _) | some (.leave, _) | some (.fault _, _) => exact Nat.zero_le _

variable (b : Bytecode)

theorem leads_and_then (through rounds : Nat) (mid next exit : Place) (result : Result)
    (rest : Store → Result) (m : Machine) (leads : Leads b (least 0 rounds result) m (Ends mid exit result))
    (follows : ∀ store m, mid store m →
      Leads b (least through rounds (rest store)) m (Ends next exit (rest store))) :
    Leads b (least through rounds (andThen result rest)) m (Ends next exit (andThen result rest)) := by
  match result with
  | none => exact leads
  | some (.next, store) =>
    have both := leads_trans b 0 _ m _ _ leads (follows store)
    rw [Nat.zero_add] at both
    exact both
  | some (.exit, store) => exact leads
  | some (.leave, store) => exact leads
  | some (.fault f, store) => exact leads

theorem ends_weaken (next exit exit' : Place) (result : Result) (m : Machine)
    (weaken : ∀ store m, exit store m → exit' store m) (ends : Ends next exit result m) :
    Ends next exit' result m := by
  match result with
  | none => exact ends
  | some (.next, store) => exact ends
  | some (.exit, store) => exact weaken store m ends
  | some (.leave, store) => exact ends
  | some (.fault f, store) => exact ends

theorem leads_given {α : Type} (through rounds pc : Nat) (stack : List Value) (store : Store)
    (next exit : Place) (value : Except Fault α) (form : α → Value) (rest : α → Result) (m : Machine)
    (leads : Leads b 1 m (Yields pc stack store (value.map form)))
    (follows : ∀ a m, value = .ok a → m.At pc (form a :: stack) store →
      Leads b (least 0 rounds (rest a)) m (Ends next exit (rest a))) (less : through ≤ 1) :
    Leads b (least through rounds (given store value rest)) m (Ends next exit (given store value rest)) := by
  cases value with
  | error f => exact leads_less b 0 1 m _ (by omega) leads
  | ok a =>
    have both := leads_trans b 1 _ m _ _ leads (fun m' here => follows a m' rfl here)
    have enough := least_less through rounds (rest a)
    change Leads b (least through rounds (rest a)) m (Ends next exit (rest a))
    exact leads_less b _ _ m _ (by omega) both

-- A round that goes on takes a step at least, so every round that is not the last is one.
theorem leads_loop (rounds n : Nat) (top behind : Place) (round : Store → Result) (store : Store)
    (m : Machine) (running : ∀ store m, top store m → m.isRunning = true)
    (once : ∀ store m, top store m →
      Leads b (least 1 rounds (round store)) m (Ends top behind (round store)))
    (bounded : n ≤ rounds) (here : top store m) :
    Leads b (least 0 n (loop round n store)) m (Ends behind nowhere (loop round n store)) := by
  induction n generalizing store m with
  | zero => exact leads_now b m _ (running store m here)
  | succ n ih =>
    have first := once store m here
    simp only [loop]
    match ended : round store with
    | none =>
      rw [ended] at first
      exact leads_less b _ _ m _ bounded first
    | some (.next, store') =>
      rw [ended] at first
      have both := leads_trans b 1 _ m _ _ first (fun m' there => ih store' m' (by omega) there)
      exact leads_less b _ _ m _ (least_round n _) both
    | some (.exit, store') =>
      rw [ended] at first
      exact first
    | some (.leave, store') =>
      rw [ended] at first
      exact first
    | some (.fault f, store') =>
      rw [ended] at first
      exact first

end SoftPlc.Compile
