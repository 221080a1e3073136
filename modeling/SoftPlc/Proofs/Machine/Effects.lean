import SoftPlc.Machine.Basic

set_option autoImplicit false

namespace SoftPlc.Machine

variable (vars s : List Value)

theorem perform_push (v : Value) :
    perform vars s (.push v) = do return { stack := ← pushResult (.ok v) s, vars } := rfl

theorem perform_load (index : Nat) (v : Value) (found : vars[index]? = some v) :
    perform vars s (.load index) = do return { stack := ← pushResult (.ok v) s, vars } := by
  simp only [perform, loadVariable, found]
  rfl

theorem perform_duplicate (v : Value) :
    perform vars (v :: s) .duplicate = do return { stack := ← pushResult (.ok v) (v :: s), vars } := rfl

theorem perform_cast (v : Value) (t : DataType) :
    perform vars (v :: s) (.cast t) = do return { stack := ← pushResult (.ok (v.cast t)) s, vars } := rfl

theorem pop_typed (v : Value) (t : DataType) (typed : v.dataType = t) :
    popTyped t (v :: s) = .ok (v, s) := by
  simp only [popTyped, Stack.pop, bind, Except.bind, typed, if_true]
  rfl

theorem perform_binary (op : BinaryOp) (l r : Value) (t : DataType) (left : l.dataType = t)
    (right : op.isComparison = true → r.dataType = t) :
    perform vars (r :: l :: s) (.binary op t) =
      do return { stack := ← pushResult (op.apply l r) s, vars } := by
  have popped : operands op t (r :: l :: s) = .ok ((l, r), s) := by
    unfold operands
    by_cases compares : op.isComparison = true
    · simp only [compares, if_true, pop_typed _ r t (right compares), bind, Except.bind,
        pop_typed s l t left]
      rfl
    · simp only [compares, Bool.false_eq_true, if_false, Stack.pop, bind, Except.bind,
        pop_typed s l t left]
      rfl
  simp only [perform, popped]
  rfl

theorem perform_negate (v : Value) (t : DataType) (typed : v.dataType = t) :
    perform vars (v :: s) (.negate t) = do return { stack := ← pushResult v.negate s, vars } := by
  simp only [perform, pop_typed s v t typed]
  rfl

theorem perform_complement (v : Value) (t : DataType) (typed : v.dataType = t) :
    perform vars (v :: s) (.complement t) =
      do return { stack := ← pushResult v.complement s, vars } := by
  simp only [perform, pop_typed s v t typed]
  rfl

theorem perform_call (f : Builtin) (args : List Value) (count : args.length = f.arity) :
    perform vars (args.reverse ++ s) (.call f) =
      do return { stack := ← pushResult (f.call args) s, vars } := by
  have popped : Stack.popMany f.arity (args.reverse ++ s) = .ok (args, s) := by
    have enough : ¬ (args.reverse ++ s).length < f.arity := by simp [count]
    rw [Stack.popMany, if_neg enough, ← count, ← List.length_reverse, List.take_left, List.drop_left,
      List.reverse_reverse]
  simp only [perform, popped]
  rfl

theorem perform_store (index : Nat) (v old : Value) (found : vars[index]? = some old)
    (same : old.dataType = v.dataType) :
    perform vars (v :: s) (.store index) = .ok { stack := s, vars := vars.set index v } := by
  simp only [perform, storeVariable, Stack.pop, bind, Except.bind, found, same, if_true]
  rfl

theorem perform_discard (v : Value) :
    perform vars (v :: s) .discard = .ok { stack := s, vars } := rfl

theorem perform_jump (a : Nat) :
    perform vars s (.jump a) = .ok { stack := s, vars, target := some a } := rfl

theorem perform_jump_if_false (b : Bool) (a : Nat) :
    perform vars (.bool b :: s) (.jumpIfFalse a) =
      .ok { stack := s, vars, target := if b then none else some a } := rfl

theorem perform_jump_if_true (b : Bool) (a : Nat) :
    perform vars (.bool b :: s) (.jumpIfTrue a) =
      .ok { stack := s, vars, target := if b then some a else none } := rfl

theorem perform_halt : perform vars s .halt = .ok { stack := s, vars, halts := true } := rfl

end SoftPlc.Machine
