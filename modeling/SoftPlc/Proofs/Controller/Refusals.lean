import SoftPlc.Proofs.Controller.Holdings

set_option autoImplicit false

namespace SoftPlc.Controller

def faultOf {α : Type} (answer : Answer α) : Option Fault :=
  match answer.1 with
  | .ok _ => none
  | .error f => some f

def refusal? (c : Controller) : Call → Option Fault
  | .upload id source => faultOf (c.upload id source)
  | .compile id => faultOf (c.compile id)
  | .enable id enabled => faultOf (c.setEnabled id enabled)
  | .delete id => faultOf (c.delete id)
  | .rename id name => faultOf (c.onProgram id fun p => { p with name })
  | .bind id name target => faultOf (c.bind id name target)
  | .unbind id name => faultOf (c.unbind id name)
  | .reset id => faultOf (c.resetStatistics id)
  | .setInterval ms => faultOf (c.setInterval ms)
  | .command id cmd => faultOf (c.command id cmd)
  | .addBreakpoint id pc => faultOf (c.addBreakpoint id pc)
  | .removeBreakpoint id pc => faultOf (c.onDebugger id (·.removeBreakpoint pc))
  | .clearBreakpoints id => faultOf (c.onDebugger id Debugger.clearBreakpoints)
  | .load blob => faultOf (c.load blob)
  | .resetAll | .compactExports | .compactSources | .setRunning _ | .setDebug _ | .pauseAll | .controlWrite _ _
  | .allow _ | .wait _ | .tick _ => none

variable (c : Controller)

theorem with_slot_refused {α : Type} (id : Nat) (f : Fin slotCount → Answer α)
    (inside : ∀ i g, faultOf (f i) = some g → (f i).2 = c) (g : Fault) (refused : faultOf (c.withSlot id f) = some g) :
    (c.withSlot id f).2 = c := by
  unfold withSlot at refused ⊢
  cases valid : checkId id with
  | error f => rfl
  | ok i =>
    rw [valid] at refused
    exact inside i g refused

theorem upload_refused (id : Nat) (source : Bytes) (g : Fault) (refused : faultOf (c.upload id source) = some g) :
    (c.upload id source).2 = c := by
  refine c.with_slot_refused id _ (fun i g inside => ?_) g refused
  obtain ⟨sources, uploaded⟩ | ⟨f, refused⟩ := c.sources.upload_either id source
  · simp only [uploaded] at inside
    cases inside
  · simp only [refused]

theorem bind_refused (id : Nat) (name : String) (target : Target) (g : Fault)
    (refused : faultOf (c.bind id name target) = some g) : (c.bind id name target).2 = c := by
  refine c.with_slot_refused id _ (fun i g inside => ?_) g refused
  obtain ⟨e, _, bound⟩ | ⟨f, refused⟩ := c.bindings.bind_either id (c.programs.get i) name target
  · simp only [bound] at inside
    cases inside
  · simp only [refused]

theorem add_breakpoint_refused (id pc : Nat) (g : Fault) (refused : faultOf (c.addBreakpoint id pc) = some g) :
    (c.addBreakpoint id pc).2 = c := by
  refine c.with_slot_refused id _ (fun i g inside => ?_) g refused
  cases compiled : (c.programs.get i).bytecode with
  | none => rfl
  | some b =>
    by_cases short : pc < b.code.length
    · simp only [compiled, if_pos short] at inside ⊢
      cases added : ((c.debuggers.get i).addBreakpoint pc).1 with
      | false =>
        rw [Debugger.add_breakpoint_refused _ pc added, setDebugger, Slots.put_get_self]
      | true =>
        rw [added] at inside
        cases inside
    · simp only [if_neg short]

theorem set_interval_refused (ms : UInt32) (g : Fault) (refused : faultOf (c.setInterval ms) = some g) :
    (c.setInterval ms).2 = c := by
  unfold setInterval at refused ⊢
  cases found : Interval.ofMilliseconds ms with
  | error f => rfl
  | ok interval =>
    rw [found] at refused
    cases refused

theorem load_refused (blob : Bytes) (g : Fault) (refused : faultOf (c.load blob) = some g) : (c.load blob).2 = c := by
  cases answer : c.load blob with
  | mk result next =>
    cases result with
    | error f => exact c.load_error next blob f answer
    | ok _ =>
      rw [answer] at refused
      cases refused

theorem after_refused (call : Call) (g : Fault) (other : ∀ id, call ≠ .compile id)
    (refused : c.refusal? call = some g) : c.after call = c := by
  cases call with
  | compile id => exact absurd rfl (other id)
  | upload id source => exact c.upload_refused id source g refused
  | bind id name target => exact c.bind_refused id name target g refused
  | addBreakpoint id pc => exact c.add_breakpoint_refused id pc g refused
  | setInterval ms => exact c.set_interval_refused ms g refused
  | load blob => exact c.load_refused blob g refused
  -- These are refused for the slot alone.
  | enable id _ | delete id | rename id _ | unbind id _ | reset id | command id _ | removeBreakpoint id _
  | clearBreakpoints id => exact c.with_slot_refused id _ (fun _ _ inside => by cases inside) g refused
  | resetAll | compactExports | compactSources | setRunning _ | setDebug _ | pauseAll | controlWrite _ _ | allow _
  | wait _ | tick _ => cases refused

theorem compile_refusal (i : Fin slotCount) (g : Fault) (refused : c.refusal? (.compile i) = some g) :
    c.compileSource i = .error g ∧ c.after (.compile i) = c.withoutBytecode i g := by
  simp only [refusal?, after, compile, withSlot, check_id_fin] at refused ⊢
  cases result : c.compileSource i with
  | error f =>
    rw [result] at refused
    cases refused
    exact ⟨rfl, rfl⟩
  | ok b =>
    rw [result] at refused
    cases refused

theorem without_bytecode_own (i : Fin slotCount) (g : Fault) : (c.withoutBytecode i g).holds i =
    { c.holds i with
      program := { c.programs.get i with
        bytecode := none, values := [], lastError := some (Text.truncate LogicProgram.maxError g.render) }
      debugger := (c.debuggers.get i).apply .stop
      slice := none } := by
  simp only [withoutBytecode, setProgram, vacated, setDebugger, holds, slot, Slots.get_put_self,
    ExportPool.allocation_release, if_pos]
  rfl

theorem without_bytecode_other (i j : Fin slotCount) (g : Fault) (other : j ≠ i) :
    (c.withoutBytecode i g).holds j = c.holds j := by
  have apart : j.val ≠ i.val := fun same => other (Fin.ext same)
  simp only [withoutBytecode, setProgram, vacated, setDebugger, holds, slot, Slots.get_put_other _ i j _ other.symm,
    ExportPool.allocation_release, if_neg apart]

def Installs (i : Fin slotCount) : Call → Prop
  | .compile id => id = i.val ∧ c.refusal? (.compile id) = none
  | .load blob => c.refusal? (.load blob) = none
  | _ => False

theorem after_uncompiled (i : Fin slotCount) (call : Call) (spares : ¬ c.Installs i call)
    (empty : (c.programs.get i).bytecode = none) : ((c.after call).programs.get i).bytecode = none := by
  by_cases moves : call.MovesBytecode
  · cases call with
    | compile id =>
      cases valid : checkId id with
      | error f => simpa only [after, compile, withSlot, valid] using empty
      | ok k =>
        obtain rfl := check_id_val id k valid
        obtain ⟨_, p, _, _, programs, made⟩ := c.compile_made k
        by_cases here : k = i
        · subst here
          cases refused : c.refusal? (.compile k) with
          | none => exact absurd ⟨rfl, refused⟩ spares
          | some g =>
            rw [(c.compile_refusal k g refused).2]
            exact congrArg (·.program.bytecode) (c.without_bytecode_own k g)
        · rw [after, programs, Slots.get_put_other _ k i p here]
          exact empty
    | delete id =>
      refine c.with_slot_keeps (fun next => (next.programs.get i).bytecode = none) id _ empty fun k _ => ?_
      by_cases here : k = i
      · subst here
        rw [Slots.get_put_self]
        rfl
      · rw [Slots.get_put_other _ k i _ here]
        exact empty
    | load blob =>
      cases refused : c.refusal? (.load blob) with
      | none => exact absurd refused spares
      | some g =>
        rw [after, c.load_refused blob g refused]
        exact empty
    | _ => exact moves.elim
  · rw [c.after_bytecode call moves i, empty]

-- Of the calls in a history, each from the state that those in front of it lead to, none can put bytecode
-- into the slot.
def NeverFilled (i : Fin slotCount) : Controller → List Call → Prop
  | _, [] => True
  | c, call :: rest => ¬ c.Installs i call ∧ NeverFilled i (c.after call) rest

theorem after_all_uncompiled (i : Fin slotCount) (history : List Call) (never : NeverFilled i c history)
    (empty : (c.programs.get i).bytecode = none) : ((c.afterAll history).programs.get i).bytecode = none := by
  induction history generalizing c with
  | nil => exact empty
  | cons call rest ih =>
    obtain ⟨spares, later⟩ := never
    exact ih (c.after call) later (c.after_uncompiled i call spares empty)

theorem ran_iff (report : Report) (i : Fin slotCount) : report.ran i = false ↔ runsOf i report.runs = [] := by
  simp [Report.ran, runsOf]

theorem uncompiled_not_run (i : Fin slotCount) (r left : Registers) (report : Report) (next : Controller)
    (empty : (c.programs.get i).bytecode = none) (fired : c.tick r = (some report, next, left)) :
    report.ran i = false := by
  obtain ⟨us, runs, _⟩ := c.tick_turn i r left report next fired
  have none : ((c.readInputs r).slot i).program.bytecode = none := by rw [slot, read_inputs_program]; exact empty
  rw [ran_iff, runs]
  rcases Slot.turn_cases c.settings us ((c.readInputs r).slot i) with ⟨answer, _⟩ | ⟨b, compiled, _⟩
  · rw [answer]
    rfl
  · cases none.symm.trans compiled

-- A call that is refused changes nothing at all. A compile that is refused changes its own slot and no
-- other: it has no bytecode, no values and no export registers then, its debugger is off and has no
-- suspended run, its last error is the text of the fault, cut to length, and no cycle runs it before a
-- compile of the slot or a load succeeds.
theorem refused_calls_change_nothing (c : Controller) :
    (∀ call g, (∀ id, call ≠ .compile id) → c.refusal? call = some g → c.after call = c) ∧
    ∀ (i : Fin slotCount) g, c.refusal? (.compile i) = some g →
      let next := c.after (.compile i)
      (next.holds i = { c.holds i with
          program := { c.programs.get i with
            bytecode := none, values := [], lastError := some (Text.truncate LogicProgram.maxError g.render) }
          debugger := (c.debuggers.get i).apply .stop
          slice := none } ∧
        (next.debuggers.get i).mode = .off ∧ (next.debuggers.get i).suspended = none) ∧
      (∀ j, j ≠ i → next.holds j = c.holds j) ∧
      next = { c with programs := next.programs, debuggers := next.debuggers, exports := next.exports } ∧
      ∀ history, NeverFilled i next history → ∀ r report later left,
        (next.afterAll history).tick r = (some report, later, left) → report.ran i = false := by
  refine ⟨fun call g other refused => c.after_refused call g other refused, fun i g refused => ?_⟩
  rw [(c.compile_refusal i g refused).2]
  intro next
  have own := c.without_bytecode_own i g
  have stopped : next.debuggers.get i = (c.debuggers.get i).apply .stop := congrArg (·.debugger) own
  refine ⟨⟨own, ?_, ?_⟩, fun j other => c.without_bytecode_other i j g other, rfl, ?_⟩
  · rw [stopped]
    rfl
  · rw [stopped]
    rfl
  · intro history never r report later left fired
    have empty := next.after_all_uncompiled i history never (congrArg (·.program.bytecode) own)
    exact uncompiled_not_run _ i r left report later empty fired

def spoiled : Controller :=
  afterAll {} [.upload firstSlot threeLong, .compile firstSlot, .enable firstSlot true, .upload firstSlot broken]

theorem spoiled_slot_is_not_run :
    let c := spoiled
    let waiting : List Call := [.wait (.steady 10000 0)]
    Reachable c ∧ ∃ g, c.refusal? (.compile firstSlot) = some g ∧
      NeverFilled firstSlot (c.after (.compile firstSlot)) waiting ∧
      ∃ report later left, ((c.after (.compile firstSlot)).afterAll waiting).tick {} = (some report, later, left) ∧
        report.ran firstSlot = false := by
  intro c waiting
  have refused : (c.refusal? (.compile firstSlot)).isSome = true := by decide +kernel
  have fires : (((c.after (.compile firstSlot)).afterAll waiting).tick {}).1.isSome = true := by decide +kernel
  obtain ⟨g, refused⟩ := Option.isSome_iff_exists.mp refused
  have never : NeverFilled firstSlot (c.after (.compile firstSlot)) waiting := ⟨id, trivial⟩
  refine ⟨(reachable_iff_history _).mpr ⟨{}, {}, _, rfl⟩, g, refused, never, ?_⟩
  cases ticked : ((c.after (.compile firstSlot)).afterAll waiting).tick {} with
  | mk answer rest =>
    rw [ticked] at fires
    obtain ⟨report, same⟩ := Option.isSome_iff_exists.mp fires
    obtain ⟨later, left⟩ := rest
    obtain ⟨_, _, _, idle⟩ := (refused_calls_change_nothing c).2 firstSlot g refused
    cases same
    exact ⟨report, later, left, rfl, idle waiting never {} report later left ticked⟩

end SoftPlc.Controller
