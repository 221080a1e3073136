import SoftPlc.Fault

set_option autoImplicit false

namespace SoftPlc.Stack

variable {α β : Type}

structure Bound where
  depth : Nat
  overflow : String
deriving DecidableEq, Repr

abbrev Attempt (α β : Type) := Except (Fault × List α) β

def push (bound : Bound) (a : α) (s : List α) : Attempt α (List α) :=
  if s.length < bound.depth then .ok (a :: s)
  else .error (.because .stackOverflow bound.overflow, s)

def pop : List α → Attempt α (α × List α)
  | [] => .error (.of .stackUnderflow, [])
  | a :: s => .ok (a, s)

def popTwo (s : List α) : Attempt α ((α × α) × List α) := do
  let (two, s) ← pop s
  let (one, s) ← pop s
  return ((one, two), s)

def popMany (count : Nat) (s : List α) : Attempt α (List α × List α) :=
  if s.length < count then .error (.of .stackUnderflow, s)
  else .ok ((s.take count).reverse, s.drop count)

def ofList (bound : Bound) (items : List α) : Except Fault (List α) :=
  if bound.depth < items.length then .error (.because .stackOverflow bound.overflow)
  else .ok items.reverse

def toList (s : List α) : List α := s.reverse

def get? (s : List α) (index : Nat) : Option α := (toList s)[index]?

def set (s : List α) (index : Nat) (a : α) : List α := ((toList s).set index a).reverse

theorem length_push (bound : Bound) (a : α) (s t : List α) (h : push bound a s = .ok t) :
    t.length = s.length + 1 ∧ t.length ≤ bound.depth := by
  unfold push at h
  split at h
  · cases h
    simp
    omega
  · cases h

theorem toList_ofList (bound : Bound) (items s : List α) (h : ofList bound items = .ok s) :
    toList s = items := by
  unfold ofList at h
  split at h
  · cases h
  · cases h
    simp [toList]

end SoftPlc.Stack
