import SoftPlc.Proofs.Controller.Cycle
import SoftPlc.Proofs.Store.Compaction

set_option autoImplicit false

namespace SoftPlc

namespace Bindings

def Checked (table : Bindings) : Prop := ∀ e ∈ table, Binding.check e.dataType e.direction e.target = .ok ()

end Bindings

namespace Bindings

variable (table : Bindings)

theorem checked_fewer (table' : Bindings) (checked : table.Checked) (fewer : ∀ e ∈ table', e ∈ table) :
    table'.Checked :=
  fun e member => checked e (fewer e member)

theorem checked_replace (id : Nat) (p : LogicProgram) (name : String) (target : Target) (e : Binding)
    (made : Binding.make id p name target = .ok e) (checked : table.Checked) : (table.replace e).Checked := by
  intro f member
  rcases replace_mem table e f member with old | rfl
  · exact checked f old
  · exact (Binding.make_ok id p name target f made).2.1

theorem checked_refresh (id : Nat) (p : LogicProgram) (checked : table.Checked) : (table.refresh id p).Checked :=
  refresh_keeps Checked table id p (table.checked_fewer _ checked fun _ member => (List.mem_filter.mp member).1)
    fun start name target e made holds => checked_replace start id p name target e made holds

end Bindings

namespace Controller

def bytecodeAt (c : Controller) (id : Nat) : Option Bytecode := c.programs[id]?.bind (·.bytecode)

theorem bytecode_at (c : Controller) (i : Fin slotCount) : c.bytecodeAt i = (c.programs.get i).bytecode := by
  rw [bytecodeAt, Slots.get_some]
  rfl

structure Exporting (c : Controller) : Prop where
  pool : c.exports.Sound
  sized : c.exports.Sized c.bytecodeAt
  checked : c.bindings.Checked

structure Quiet (c next : Controller) : Prop where
  exports : next.exports = c.exports
  bindings : next.bindings = c.bindings
  bytecode : ∀ i, (next.programs.get i).bytecode = (c.programs.get i).bytecode

theorem sized_slots (p : ExportPool) (c : Controller) :
    p.Sized c.bytecodeAt ↔ ∀ (i : Fin slotCount) a, p.allocation? i = some a →
      ∃ b, (c.programs.get i).bytecode = some b ∧ a.size = b.exportSize := by
  constructor
  · intro sized i a found
    rw [← c.bytecode_at i]
    exact sized i a found
  · intro slots i a found
    have here := slots ⟨i, p.allocation_valid i a found⟩ a found
    rwa [← c.bytecode_at] at here

section
variable (c : Controller)

theorem quiet_exporting (next : Controller) (quiet : Quiet c next) (exporting : c.Exporting) : next.Exporting := by
  refine ⟨quiet.exports ▸ exporting.pool, (sized_slots _ next).mpr fun i a found => ?_, quiet.bindings ▸ exporting.checked⟩
  rw [quiet.bytecode i]
  exact (sized_slots _ c).mp exporting.sized i a (quiet.exports ▸ found)

theorem quiet_tended (next : Controller) (tended : Tended c next) : Quiet c next :=
  ⟨tended.exports, tended.bindings, fun i => (tended.programs i).bytecode⟩

theorem quiet_refl : Quiet c c := ⟨rfl, rfl, fun _ => rfl⟩

theorem quiet_trans (middle next : Controller) (first : Quiet c middle) (second : Quiet middle next) : Quiet c next :=
  ⟨second.exports.trans first.exports, second.bindings.trans first.bindings,
    fun i => (second.bytecode i).trans (first.bytecode i)⟩

theorem quiet_set_program (i : Fin slotCount) (p : LogicProgram) (same : p.bytecode = (c.programs.get i).bytecode) :
    Quiet c (c.setProgram i p) := by
  refine ⟨rfl, rfl, fun j => ?_⟩
  by_cases here : i = j
  · subst here
    rw [setProgram, Slots.get_put_self, same]
  · rw [setProgram, Slots.get_put_other _ i j p here]

theorem quiet_set_debugger (i : Fin slotCount) (d : Debugger) : Quiet c (c.setDebugger i d) := ⟨rfl, rfl, fun _ => rfl⟩

theorem quiet_read_inputs (r : Registers) : Quiet c (c.readInputs r) := by
  refine ⟨rfl, rfl, fun i => ?_⟩
  rw [readInputs, Slots.get_map_idx]

theorem quiet_run_bytecode (i : Fin slotCount) (b : Bytecode) (r : Registers) : Quiet c (c.runBytecode i b r).2.1 := by
  have watched : Quiet c (c.behindRun i b) := ⟨rfl, rfl, fun _ => rfl⟩
  rcases c.run_bytecode_cases i b r with ⟨_, answer⟩ | ⟨f, _, answer⟩ | ⟨_, answer⟩
  · simp only [answer]
    exact c.quiet_trans _ _ watched (quiet_set_program _ i _ rfl)
  · simp only [answer]
    exact c.quiet_trans _ _ watched (quiet_set_program _ i _ rfl)
  · simp only [answer]
    exact watched

theorem quiet_run_slot (i : Fin slotCount) (r : Registers) : Quiet c (c.runSlot i r).2.1 := by
  rcases c.run_slot_cases i r with ⟨answer, _⟩ | ⟨b, _, _, ⟨_, answer⟩ | ⟨_, answer⟩⟩
  · simp only [answer]
    exact c.quiet_refl
  · simp only [answer]
    exact c.quiet_refl
  · simp only [answer]
    exact c.quiet_run_bytecode i b r

theorem quiet_run_slots (slots : List (Fin slotCount)) (r : Registers) : Quiet c (c.runSlots r slots).2.1 := by
  induction slots generalizing c r with
  | nil => exact c.quiet_refl
  | cons i rest ih => exact c.quiet_trans _ _ (c.quiet_run_slot i r) (ih _ _)

theorem quiet_begun (now : UInt64) (r : Registers) : Quiet c (readInputs { c with lastRun := now, quota := 0 } r) := by
  have begun : Quiet c { c with lastRun := now, quota := 0 } := ⟨rfl, rfl, fun _ => rfl⟩
  exact c.quiet_trans _ _ begun (quiet_read_inputs _ r)

theorem quiet_turns (now : UInt64) (r : Registers) : Quiet c (c.turns now r).2.1 := by
  unfold turns
  exact c.quiet_trans _ _ (c.quiet_begun now r) (quiet_run_slots _ _ r)

theorem quiet_tick (r : Registers) : Quiet c (c.tick r).2.1 := by
  have read : Quiet c c.readClock.2 := ⟨rfl, rfl, fun _ => rfl⟩
  rcases c.tick_cases r with ⟨_, answer⟩ | ⟨_, answer⟩
  · simp only [answer]
    exact read
  · obtain ⟨_, _, _, _, cycle⟩ := c.readClock.2.cycle_at_turns c.clock.now r
    have turned := c.quiet_trans _ _ read (c.readClock.2.quiet_turns c.clock.now r)
    simp only [answer, cycle]
    generalize (c.readClock.2.turns c.clock.now r).2.1 = next at turned ⊢
    exact ⟨turned.exports, turned.bindings, turned.bytecode⟩

end

section
variable (c : Controller)

theorem exporting_initial (settings : Settings) (clock : Clock) : Exporting { settings, clock } :=
  ⟨ExportPool.sound_empty, ExportPool.sized_empty _, fun e member => by cases member⟩

theorem sized_put (p : ExportPool) (next : Controller) (i : Fin slotCount) (q : LogicProgram)
    (sized : p.Sized c.bytecodeAt) (vacant : p.allocation? i = none) (programs : next.programs = c.programs.put i q) :
    p.Sized next.bytecodeAt := by
  refine (sized_slots p next).mpr fun j a found => ?_
  by_cases here : i = j
  · subst here
    cases vacant.symm.trans found
  · rw [programs, Slots.get_put_other _ i j q here]
    exact (sized_slots p c).mp sized j a found

theorem install_exporting (i : Fin slotCount) (b : Bytecode) (exporting : c.Exporting)
    (vacant : c.exports.allocation? i = none) : (c.install i b).Exporting := by
  obtain ⟨q, programs, _, compiled⟩ := c.install_programs i b
  have installed : (c.install i b).bytecodeAt i = some b := by rw [bytecode_at, programs, Slots.get_put_self, compiled]
  have sized := c.sized_put c.exports _ i q exporting.sized vacant programs
  unfold install at installed sized ⊢
  obtain ⟨offset, next, allocated⟩ | ⟨f, refused⟩ := c.exports.allocate_either i b.exportSize
  · simp only [allocated] at installed sized ⊢
    exact ⟨c.exports.allocate_sound i _ offset next exporting.pool allocated,
      ExportPool.sized_allocate _ _ sized i b offset next installed allocated,
      c.bindings.checked_refresh i _ exporting.checked⟩
  · simp only [refused] at installed sized ⊢
    exact ⟨exporting.pool, sized, c.bindings.checked_refresh i _ exporting.checked⟩

theorem release_exporting (i : Fin slotCount) (exporting : c.Exporting) :
    Exporting { c with exports := c.exports.release i } :=
  ⟨c.exports.sound_release exporting.pool i, c.exports.sized_release _ exporting.sized i, exporting.checked⟩

theorem release_vacant (p : ExportPool) (i : Nat) : (p.release i).allocation? i = none := by
  rw [ExportPool.allocation_release, if_pos rfl]

theorem compile_exporting (id : Nat) (exporting : c.Exporting) : (c.compile id).2.Exporting := by
  have vacated (i : Fin slotCount) : (c.vacated i).Exporting :=
    release_exporting _ i (c.quiet_exporting _ (c.quiet_set_debugger i ((c.debuggers.get i).apply .stop)) exporting)
  have vacant (i : Fin slotCount) := release_vacant c.exports i
  refine c.compile_keeps Exporting id exporting (fun i b _ => ?_) fun i f => ?_
  · exact install_exporting _ i b (vacated i) (vacant i)
  · exact ⟨(vacated i).pool, sized_put _ _ _ i _ (vacated i).sized (vacant i) rfl, (vacated i).checked⟩

theorem delete_exporting (id : Nat) (exporting : c.Exporting) : (c.delete id).2.Exporting := by
  refine c.with_slot_keeps Exporting id _ exporting fun i same => ?_
  subst same
  have released := c.release_exporting i exporting
  exact ⟨released.pool, c.sized_put _ _ i _ released.sized (release_vacant c.exports i) rfl,
    c.bindings.checked_fewer _ exporting.checked fun e member => (List.mem_filter.mp member).1⟩

theorem set_bindings_exporting (i : Fin slotCount) (table : Bindings) (exporting : c.Exporting) (checked : table.Checked) :
    (c.setBindings i table).Exporting := by
  have quiet := c.quiet_set_program i { c.programs.get i with bindingCount := table.countFor i } rfl
  have same := c.quiet_exporting _ quiet exporting
  exact ⟨same.pool, same.sized, checked⟩

theorem bind_exporting (id : Nat) (name : String) (target : Target) (exporting : c.Exporting) :
    (c.bind id name target).2.Exporting :=
  c.bind_keeps Exporting id name target exporting fun i e made =>
    c.set_bindings_exporting i _ exporting (c.bindings.checked_replace i _ name target e made exporting.checked)

theorem unbind_exporting (id : Nat) (name : String) (exporting : c.Exporting) : (c.unbind id name).2.Exporting := by
  refine c.with_slot_keeps Exporting id _ exporting fun i _ => ?_
  exact c.set_bindings_exporting i _ exporting
    (c.bindings.checked_fewer _ exporting.checked fun e member => (List.mem_filter.mp member).1)

theorem taken_over_exporting (k : Configuration.Contents) (sources : SourceArena) :
    (c.takeOver k sources).Exporting := by
  refine ⟨ExportPool.lay_out_sound _, ExportPool.sized_lay_out _ _ fun i b found => ?_, fun e member => by cases member⟩
  rw [List.getElem?_map] at found
  obtain ⟨p, listed, compiled⟩ := Option.map_eq_some_iff.mp found
  rw [Vector.getElem?_toList] at listed
  obtain ⟨valid, here⟩ := Vector.getElem?_eq_some_iff.mp listed
  obtain ⟨_, taken⟩ := c.take_over_program k sources ⟨i, valid⟩
  refine ((c.takeOver k sources).bytecode_at ⟨i, valid⟩).trans ?_
  rw [taken, ← compiled, ← here, Vector.getElem_ofFn]
  rfl

theorem load_exporting (blob : Bytes) (exporting : c.Exporting) : (c.load blob).2.Exporting :=
  c.load_keeps Exporting blob exporting c.taken_over_exporting

theorem after_exporting (call : Call) (exporting : c.Exporting) : (c.after call).Exporting := by
  by_cases tends : call.Tends
  · exact c.quiet_exporting _ (c.quiet_tended _ (c.after_tended call tends)) exporting
  · cases call with
    | compile id => exact c.compile_exporting id exporting
    | delete id => exact c.delete_exporting id exporting
    | bind id name target => exact c.bind_exporting id name target exporting
    | unbind id name => exact c.unbind_exporting id name exporting
    | compactExports =>
      exact ⟨c.exports.compact_sound exporting.pool, c.exports.sized_compact _ exporting.pool exporting.sized,
        exporting.checked⟩
    | load blob => exact c.load_exporting blob exporting
    | tick r => exact c.quiet_exporting _ (c.quiet_tick r) exporting
    | _ => exact absurd trivial tends

end

theorem reachable_exporting (c : Controller) (reachable : Reachable c) : c.Exporting := by
  induction reachable with
  | initial settings clock => exact exporting_initial settings clock
  | after c call _ ih => exact c.after_exporting call ih

end Controller

end SoftPlc
