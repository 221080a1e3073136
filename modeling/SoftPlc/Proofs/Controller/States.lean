import SoftPlc.Configuration.Reader
import SoftPlc.Controller.Tick

set_option autoImplicit false

namespace SoftPlc.Controller

inductive Call where
  | upload (id : Nat) (source : Bytes)
  | compile (id : Nat)
  | enable (id : Nat) (enabled : Bool)
  | delete (id : Nat)
  | rename (id : Nat) (name : String)
  | bind (id : Nat) (name : String) (target : Target)
  | unbind (id : Nat) (name : String)
  | reset (id : Nat)
  | resetAll
  | compactExports
  | compactSources
  | setInterval (ms : UInt32)
  | setRunning (enabled : Bool)
  | setDebug (debug : Bool)
  | command (id : Nat) (cmd : Debugger.Command)
  | pauseAll
  | addBreakpoint (id pc : Nat)
  | removeBreakpoint (id pc : Nat)
  | clearBreakpoints (id : Nat)
  | controlWrite (id : Nat) (word : UInt16)
  | load (blob : Bytes)
  | allow (requests : UInt32)
  | wait (clock : Clock)
  | tick (r : Registers)

def after (c : Controller) : Call → Controller
  | .upload id source => (c.upload id source).2
  | .compile id => (c.compile id).2
  | .enable id enabled => (c.setEnabled id enabled).2
  | .delete id => (c.delete id).2
  | .rename id name => (c.onProgram id fun p => { p with name }).2
  | .bind id name target => (c.bind id name target).2
  | .unbind id name => (c.unbind id name).2
  | .reset id => (c.resetStatistics id).2
  | .resetAll => c.resetAll
  | .compactExports => c.compactExports
  | .compactSources => c.compactSources
  | .setInterval ms => (c.setInterval ms).2
  | .setRunning enabled => c.setRunning enabled
  | .setDebug debug => c.setDebug debug
  | .command id cmd => (c.command id cmd).2
  | .pauseAll => c.pauseAll
  | .addBreakpoint id pc => (c.addBreakpoint id pc).2
  | .removeBreakpoint id pc => (c.onDebugger id (·.removeBreakpoint pc)).2
  | .clearBreakpoints id => (c.onDebugger id Debugger.clearBreakpoints).2
  | .controlWrite id word => c.controlWrite id word
  | .load blob => (c.load blob).2
  | .allow requests => { c with quota := requests }
  | .wait clock => { c with clock }
  | .tick r => (c.tick r).2.1

inductive Reachable : Controller → Prop where
  | initial (settings : Settings) (clock : Clock) : Reachable { settings, clock }
  | after (c : Controller) (call : Call) (before : Reachable c) : Reachable (c.after call)

variable (c : Controller)

theorem check_id_val (id : Nat) (i : Fin slotCount) (valid : checkId id = .ok i) : i.val = id := by
  unfold checkId at valid
  split at valid
  · cases valid
    rfl
  · cases valid

theorem check_id_fin (i : Fin slotCount) : checkId i = .ok i := dif_pos i.isLt

theorem with_slot_keeps {α : Type} (P : Controller → Prop) (id : Nat) (f : Fin slotCount → Answer α) (unchanged : P c)
    (inside : ∀ i : Fin slotCount, i.val = id → P (f i).2) : P (c.withSlot id f).2 := by
  unfold withSlot
  cases valid : checkId id with
  | error f => exact unchanged
  | ok i => exact inside i (check_id_val id i valid)

end SoftPlc.Controller
