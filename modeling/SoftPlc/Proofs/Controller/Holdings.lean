import SoftPlc.Proofs.Controller.Breakpoints
import SoftPlc.Proofs.Store.Regions

set_option autoImplicit false

namespace SoftPlc

structure Holding extends Slot where
  region : Option Region
  source : Option Bytes
  slice : Option Allocation
  bindings : Bindings
deriving DecidableEq

-- What the debugger of a program goes on telling about runs that are over.
def Debugger.history (d : Debugger) : Debugger where
  hitAt := d.hitAt
  totalSteps := d.totalSteps
  hits := d.hits

theorem Debugger.detached_cleared (d : Debugger) : (d.apply .stop).clearBreakpoints = d.history := rfl

theorem Debugger.history_empty_iff (d : Debugger) :
    d.history = {} ↔ d.hitAt = none ∧ d.totalSteps = 0 ∧ d.hits = 0 := by
  simp [history]

namespace Bindings

variable (table : Bindings)

theorem own_cleared (id : Nat) : (table.clearProgram id).filter (·.program == id) = [] := by
  rw [clearProgram, List.filter_filter, List.filter_eq_nil_iff]
  intro e _
  simp

theorem other_cleared (id j : Nat) (other : j ≠ id) :
    (table.clearProgram id).filter (·.program == j) = table.filter (·.program == j) := by
  rw [clearProgram, List.filter_filter]
  refine List.filter_congr fun e _ => ?_
  by_cases own : e.program = j
  · simp [own, other]
  · simp [own]

end Bindings

namespace Controller

variable (c : Controller)

def holds (i : Fin slotCount) : Holding where
  toSlot := c.slot i
  region := c.sources.region? i
  source := c.sources.source? i
  slice := c.exports.allocation? i
  bindings := c.bindings.filter (·.program == i.val)

theorem holds_initial (settings : Settings) (clock : Clock) (i : Fin slotCount) :
    holds { settings, clock } i =
      { program := .fresh i, debugger := {}, region := none, source := none, slice := none, bindings := [] } := by
  have region := SourceArena.region_empty i
  have source : SourceArena.source? {} i = none := by rw [SourceArena.source?, region, Option.map_none]
  simp only [holds, slot, Slots.get_of_fn, Slots.get_replicate, region, source, ExportPool.allocation_empty,
    List.filter_nil]

theorem delete_slot (i : Fin slotCount) : c.delete i = (.ok (),
    { c with
      sources := c.sources.release i
      exports := c.exports.release i
      bindings := c.bindings.clearProgram i
      debuggers := c.debuggers.put i (c.debuggers.get i).history
      programs := c.programs.put i (.fresh i) }) := by
  simp only [delete, withSlot, check_id_fin, Debugger.detached_cleared]

theorem delete_own (i : Fin slotCount) (settings : Settings) (clock : Clock) :
    (c.delete i).2.holds i =
      { holds { settings, clock } i with debugger := (c.debuggers.get i).history } := by
  rw [holds_initial, delete_slot]
  simp only [holds, slot, Slots.get_put_self, c.sources.region_release i i i.isLt,
    c.sources.source_release i i i.isLt, ExportPool.allocation_release, if_pos, Bindings.own_cleared]

theorem delete_other (i j : Fin slotCount) (other : j ≠ i) : (c.delete i).2.holds j = c.holds j := by
  have apart : j.val ≠ i.val := fun same => other (Fin.ext same)
  rw [delete_slot]
  simp only [holds, slot, Slots.get_put_other _ i j _ other.symm, c.sources.region_release i j i.isLt,
    c.sources.source_release i j i.isLt, ExportPool.allocation_release, if_neg apart,
    Bindings.other_cleared _ _ _ apart]

-- A slot that is deleted holds what it holds in a new controller, its debugger apart: that one has all
-- but its last hit and its counts given up, so the slot is as in a new controller if and only if there
-- never was a hit and no instruction was counted. The other slots keep what they hold, and nothing else
-- of the controller changes.
theorem delete_gives_back (c : Controller) (i : Fin slotCount) (settings : Settings) (clock : Clock) :
    let fresh := holds { settings, clock } i
    let d := c.debuggers.get i
    let next := (c.delete i).2
    (c.delete i).1 = .ok () ∧
      next.holds i = { fresh with debugger := { hitAt := d.hitAt, totalSteps := d.totalSteps, hits := d.hits } } ∧
      (next.holds i = fresh ↔ d.hitAt = none ∧ d.totalSteps = 0 ∧ d.hits = 0) ∧
      (∀ j, j ≠ i → next.holds j = c.holds j) ∧
      next = { c with programs := next.programs, debuggers := next.debuggers, sources := next.sources,
                      exports := next.exports, bindings := next.bindings } := by
  intro fresh d next
  have own : next.holds i = { fresh with debugger := d.history } := c.delete_own i settings clock
  refine ⟨congrArg Prod.fst (c.delete_slot i), own, ?_, fun j other => c.delete_other i j other, ?_⟩
  · rw [own, ← d.history_empty_iff]
    have detached : fresh.debugger = {} := congrArg (·.debugger) (holds_initial settings clock i)
    constructor
    · intro same
      exact (congrArg (·.debugger) same).trans detached
    · intro empty
      rw [empty, ← detached]
  · simp only [next, delete_slot]

def deletedAtBreakpoint : List Call :=
  [.upload 0 threeLong, .compile 0, .enable 0 true, .addBreakpoint 0 2, .command 0 .resume,
    .wait (.steady 10000 0), .tick {}, .delete 0]

theorem deleted_slot_tells_last_hit :
    let c := afterAll {} deletedAtBreakpoint
    Reachable c ∧ (c.debuggers.get firstSlot).hitAt = some 2 ∧ (c.debuggers.get firstSlot).totalSteps = 2 ∧
      (c.debuggers.get firstSlot).hits = 1 ∧ c.holds firstSlot ≠ holds {} firstSlot := by
  intro c
  have told : (c.debuggers.get firstSlot).hitAt = some 2 ∧ (c.debuggers.get firstSlot).totalSteps = 2 ∧
      (c.debuggers.get firstSlot).hits = 1 := by decide +kernel
  refine ⟨(reachable_iff_history _).mpr ⟨{}, {}, _, rfl⟩, told.1, told.2.1, told.2.2, fun same => ?_⟩
  have fresh : c.debuggers.get firstSlot = {} :=
    (congrArg (·.debugger) same).trans (congrArg (·.debugger) (holds_initial {} {} firstSlot))
  rw [fresh] at told
  cases told.1

end Controller

end SoftPlc
