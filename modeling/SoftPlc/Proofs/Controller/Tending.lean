import SoftPlc.Proofs.Controller.Slots
import SoftPlc.Proofs.Controller.States
import SoftPlc.Proofs.Store.Arena

set_option autoImplicit false

namespace SoftPlc

structure LogicProgram.Kept (p next : LogicProgram) : Prop where
  bytecode : next.bytecode = p.bytecode
  values : next.values = p.values
  count : next.bindingCount = p.bindingCount

namespace Controller

def Call.Tends : Call → Prop
  | .compile _ | .delete _ | .bind .. | .unbind .. | .compactExports | .load _ | .tick _ => False
  | _ => True

structure Tended (c next : Controller) : Prop where
  sources : c.sources.Sound → next.sources.Sound
  maxSteps : next.settings.maxSteps = c.settings.maxSteps
  exports : next.exports = c.exports
  bindings : next.bindings = c.bindings
  programs : ∀ i, (c.programs.get i).Kept (next.programs.get i)
  suspended : ∀ i, (next.debuggers.get i).suspended = (c.debuggers.get i).suspended ∨
    (next.debuggers.get i).suspended = none

variable (c : Controller)

theorem tended_same (next : Controller) (sources : c.sources.Sound → next.sources.Sound)
    (maxSteps : next.settings.maxSteps = c.settings.maxSteps) (exports : next.exports = c.exports)
    (bindings : next.bindings = c.bindings) (programs : next.programs = c.programs)
    (debuggers : next.debuggers = c.debuggers) : Tended c next := by
  refine ⟨sources, maxSteps, exports, bindings, fun i => ?_, fun i => ?_⟩
  · rw [programs]
    exact ⟨rfl, rfl, rfl⟩
  · rw [debuggers]
    exact .inl rfl

theorem tended_refl : Tended c c := c.tended_same c id rfl rfl rfl rfl rfl

theorem tended_with_slot {α : Type} (id : Nat) (f : Fin slotCount → Answer α) (inside : ∀ i, Tended c (f i).2) :
    Tended c (c.withSlot id f).2 :=
  c.with_slot_keeps (Tended c) id f c.tended_refl fun i _ => inside i

theorem tended_set_program (i : Fin slotCount) (p : LogicProgram) (kept : (c.programs.get i).Kept p) :
    Tended c (c.setProgram i p) := by
  refine ⟨id, rfl, rfl, rfl, fun j => ?_, fun _ => .inl rfl⟩
  by_cases here : i = j
  · subst here
    rw [setProgram, Slots.get_put_self]
    exact kept
  · rw [setProgram, Slots.get_put_other _ i j p here]
    exact ⟨rfl, rfl, rfl⟩

theorem tended_set_debugger (i : Fin slotCount) (d : Debugger)
    (same : d.suspended = (c.debuggers.get i).suspended ∨ d.suspended = none) : Tended c (c.setDebugger i d) := by
  refine ⟨id, rfl, rfl, rfl, fun _ => ⟨rfl, rfl, rfl⟩, fun j => ?_⟩
  by_cases here : i = j
  · subst here
    rw [setDebugger, Slots.get_put_self]
    exact same
  · rw [setDebugger, Slots.get_put_other _ i j d here]
    exact .inl rfl

theorem tended_on_program (id : Nat) (f : LogicProgram → LogicProgram) (kept : ∀ p, LogicProgram.Kept p (f p)) :
    Tended c (c.onProgram id f).2 :=
  c.tended_with_slot id _ fun i => c.tended_set_program i _ (kept _)

theorem tended_on_debugger (id : Nat) (f : Debugger → Debugger)
    (same : ∀ d, (f d).suspended = d.suspended ∨ (f d).suspended = none) : Tended c (c.onDebugger id f).2 :=
  c.tended_with_slot id _ fun i => c.tended_set_debugger i _ (same _)

theorem tended_upload (id : Nat) (source : Bytes) : Tended c (c.upload id source).2 := by
  refine c.tended_with_slot id _ fun i => ?_
  refine c.tended_same _ (fun sound => ?_) rfl rfl rfl rfl rfl
  obtain ⟨sources, uploaded⟩ | ⟨f, refused⟩ := c.sources.upload_either id source
  · rw [uploaded]
    exact (c.sources.upload_ok sources id source sound uploaded).1
  · rw [refused]
    exact sound

theorem tended_reset_all : Tended c c.resetAll := by
  refine ⟨id, rfl, rfl, rfl, fun i => ?_, fun _ => .inl rfl⟩
  rw [resetAll, Slots.get_map]
  exact ⟨rfl, rfl, rfl⟩

theorem tended_pause_all : Tended c c.pauseAll := by
  refine ⟨id, rfl, rfl, rfl, fun _ => ⟨rfl, rfl, rfl⟩, fun i => .inl ?_⟩
  rw [pauseAll, Slots.get_map]
  rfl

theorem tended_set_interval (ms : UInt32) : Tended c (c.setInterval ms).2 := by
  unfold setInterval
  cases Interval.ofMilliseconds ms with
  | ok interval => exact c.tended_same _ id rfl rfl rfl rfl rfl
  | error f => exact c.tended_refl

theorem tended_add_breakpoint (id pc : Nat) : Tended c (c.addBreakpoint id pc).2 := by
  refine c.tended_with_slot id _ fun i => ?_
  split
  · exact c.tended_refl
  · split
    · exact c.tended_set_debugger i _ (.inl (Debugger.add_breakpoint_suspended _ pc))
    · exact c.tended_refl

theorem tended_control_write (id : Nat) (word : UInt16) : Tended c (c.controlWrite id word) := by
  unfold controlWrite
  split
  · apply c.tended_set_program
    simp only
    split <;> exact ⟨rfl, rfl, rfl⟩
  · exact c.tended_refl

theorem after_tended (call : Call) (tends : call.Tends) : Tended c (c.after call) := by
  cases call with
  | compile _ | delete _ | bind _ _ _ | unbind _ _ | compactExports | load _ | tick _ => exact tends.elim
  | upload id source => exact c.tended_upload id source
  | enable id _ | rename id _ | reset id => exact c.tended_on_program id _ fun _ => ⟨rfl, rfl, rfl⟩
  | resetAll => exact c.tended_reset_all
  | setInterval ms => exact c.tended_set_interval ms
  | command id cmd => exact c.tended_on_debugger id _ fun d => d.apply_suspended_or cmd
  | removeBreakpoint id _ | clearBreakpoints id => exact c.tended_on_debugger id _ fun _ => .inl rfl
  | addBreakpoint id pc => exact c.tended_add_breakpoint id pc
  | pauseAll => exact c.tended_pause_all
  | controlWrite id word => exact c.tended_control_write id word
  | compactSources => exact c.tended_same _ (fun sound => (c.sources.compact_keeps sound).1) rfl rfl rfl rfl rfl
  | setRunning _ | setDebug _ | allow _ | wait _ => exact c.tended_same _ id rfl rfl rfl rfl rfl

end Controller

end SoftPlc
