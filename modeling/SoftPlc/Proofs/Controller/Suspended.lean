import SoftPlc.Proofs.Controller.Published
import SoftPlc.Proofs.Debugger.Session

set_option autoImplicit false

namespace SoftPlc

open Machine

-- The frame of a moment at which a run of the program goes on, at most so many steps behind its start.
def Bytecode.Pauses (b : Bytecode) (maxSteps : UInt32) (frame : Frame) : Prop :=
  ∃ started n, n ≤ maxSteps.toNat ∧ ((step b)^[n] (start b started)).isRunning = true ∧
    frame = ((step b)^[n] (start b started)).frame

namespace Bytecode

variable (b : Bytecode) (maxSteps : UInt32) (frame : Frame) (pauses : b.Pauses maxSteps frame)
include pauses

theorem pauses_fits (sound : b.Sound) : Fits b.vars frame.vars := by
  obtain ⟨started, n, _, _, rfl⟩ := pauses
  have types := iterate_types b (start b started) n
  exact types.trans ((start_values_types b.initialValues started).trans (initial_fits b sound))

theorem pauses_bounded : frame.stack.length ≤ 64 := by
  obtain ⟨started, n, _, running, rfl⟩ := pauses
  exact iterate_bounded b (start b started) n (Nat.zero_le _) running

theorem pauses_within : frame.steps ≤ maxSteps := by
  obtain ⟨started, n, within, running, rfl⟩ := pauses
  have limit := maxSteps.toNat_lt
  have zero : (start b started).steps.toNat = 0 := rfl
  have counted := iterate_counted b (start b started) n (by omega) running
  rw [UInt32.le_iff_toNat_le]
  simp only [Machine.frame]
  omega

end Bytecode

theorem Slot.run_pauses (settings : Settings) (s : Slot) (b : Bytecode)
    (before : ∀ frame, s.debugger.suspended = some frame → b.Pauses settings.maxSteps frame) (frame : Frame)
    (suspended : (s.run settings b).1.suspended = some frame) : b.Pauses settings.maxSteps frame := by
  obtain ⟨started, faithful⟩ : ∃ started, Debugger.Session.Faithful b settings.maxSteps
      { debugger := s.debugger, kept := s.program.values, started } := by
    cases waiting : s.debugger.suspended with
    | none =>
      refine ⟨[], fun frame found => ?_⟩
      cases waiting.symm.trans found
    | some frame =>
      obtain ⟨started, n, within, running, same⟩ := before frame waiting
      refine ⟨started, fun other found => ?_⟩
      cases waiting.symm.trans found
      exact ⟨n, within, same, running⟩
  obtain ⟨later, _⟩ := Debugger.Session.run_faithful b settings.maxSteps _ _ _ _ faithful rfl
  obtain ⟨n, within, same, running⟩ := later frame suspended
  exact ⟨_, n, within, running, same⟩

namespace Controller

def Waits (c : Controller) : Prop :=
  ∀ i b frame, (c.programs.get i).bytecode = some b → (c.debuggers.get i).suspended = some frame →
    b.Pauses c.settings.maxSteps frame

theorem waits_initial (settings : Settings) (clock : Clock) : Waits { settings, clock } := by
  intro i b frame compiled _
  simp [LogicProgram.fresh] at compiled

section
variable (c : Controller) (waits : c.Waits)
include waits

theorem waits_kept (next : Controller) (maxSteps : next.settings.maxSteps = c.settings.maxSteps)
    (slots : ∀ i, (next.debuggers.get i).suspended = none ∨
      (next.programs.get i).bytecode = (c.programs.get i).bytecode ∧
        (next.debuggers.get i).suspended = (c.debuggers.get i).suspended) : next.Waits := by
  intro i b frame compiled suspended
  rcases slots i with alone | ⟨bytecode, same⟩
  · cases alone.symm.trans suspended
  · rw [maxSteps]
    exact waits i b frame (bytecode.symm.trans compiled) (same.symm.trans suspended)

theorem waits_tended (next : Controller) (tended : Tended c next) : next.Waits :=
  c.waits_kept waits next tended.maxSteps fun i =>
    (tended.suspended i).symm.imp_right fun same => ⟨(tended.programs i).bytecode, same⟩

theorem waits_vacated (next : Controller) (i : Fin slotCount) (p : LogicProgram) (d : Debugger)
    (alone : d.suspended = none) (settings : next.settings = c.settings)
    (programs : next.programs = c.programs.put i p) (debuggers : next.debuggers = c.debuggers.put i d) : next.Waits := by
  refine c.waits_kept waits next (congrArg Settings.maxSteps settings) fun j => ?_
  rw [programs, debuggers]
  by_cases here : i = j
  · subst here
    rw [Slots.get_put_self]
    exact .inl alone
  · rw [Slots.get_put_other _ i j p here, Slots.get_put_other _ i j d here]
    exact .inr ⟨rfl, rfl⟩

theorem compile_waits (id : Nat) : (c.compile id).2.Waits := by
  refine c.compile_keeps Waits id waits (fun i b _ => ?_) fun i f => ?_
  · obtain ⟨_, _, made, _⟩ := (c.vacated i).install_made i b
    rw [made]
    exact c.waits_vacated waits _ i _ _ rfl rfl rfl rfl
  · exact c.waits_vacated waits _ i _ _ rfl rfl rfl rfl

theorem delete_waits (id : Nat) : (c.delete id).2.Waits :=
  c.with_slot_keeps Waits id _ waits fun i _ => c.waits_vacated waits _ i _ _ rfl rfl rfl rfl

theorem set_bindings_waits (i : Fin slotCount) (table : Bindings) : (c.setBindings i table).Waits := by
  refine c.waits_kept waits _ rfl fun j => .inr ⟨?_, rfl⟩
  by_cases here : i = j
  · subst here
    rw [setBindings, Slots.get_put_self]
  · rw [setBindings, Slots.get_put_other _ i j _ here]

theorem bind_waits (id : Nat) (name : String) (target : Target) : (c.bind id name target).2.Waits :=
  c.bind_keeps Waits id name target waits fun i _ _ => c.set_bindings_waits waits i _

theorem unbind_waits (id : Nat) (name : String) : (c.unbind id name).2.Waits :=
  c.with_slot_keeps Waits id _ waits fun i _ => c.set_bindings_waits waits i _

theorem load_waits (blob : Bytes) : (c.load blob).2.Waits :=
  c.load_keeps Waits blob waits fun k sources =>
    c.waits_kept waits _ rfl fun i => .inl (c.take_over_suspended k sources i)

theorem tick_waits (r : Registers) : (c.tick r).2.1.Waits := by
  intro i b frame compiled suspended
  have installed := ((c.quiet_tick r).bytecode i).symm.trans compiled
  rw [c.tick_settings r]
  rcases c.tick_debugger i r with same | ⟨b', found, same⟩
  · rw [same] at suspended
    exact waits i b frame installed suspended
  · cases installed.symm.trans found
    rw [same] at suspended
    exact Slot.run_pauses c.settings _ b (fun before waiting => waits i b before installed waiting) frame suspended

theorem after_waits (call : Call) : (c.after call).Waits := by
  by_cases tends : call.Tends
  · exact c.waits_tended waits _ (c.after_tended call tends)
  · cases call with
    | compile id => exact c.compile_waits waits id
    | delete id => exact c.delete_waits waits id
    | bind id name target => exact c.bind_waits waits id name target
    | unbind id name => exact c.unbind_waits waits id name
    | compactExports => exact c.waits_kept waits _ rfl fun _ => .inr ⟨rfl, rfl⟩
    | load blob => exact c.load_waits waits blob
    | tick r => exact c.tick_waits waits r
    | _ => exact absurd trivial tends

end

theorem reachable_waits (c : Controller) (reachable : Reachable c) : c.Waits := by
  induction reachable with
  | initial settings clock => exact waits_initial settings clock
  | after c call _ ih => exact c.after_waits ih call

-- A compiled program has one value for each of its variables, of the declared type, and one that is
-- not compiled has none. A frame that waits is that of a moment of a run of the bytecode that is installed,
-- and fits it; where no bytecode is, no frame waits.
theorem values_and_frames_fit (c : Controller) (reachable : Reachable c) (i : Fin slotCount) :
    (∀ b, (c.programs.get i).bytecode = some b →
      (c.programs.get i).values.map Value.dataType = b.vars.map Variable.dataType ∧
      ∀ frame, (c.debuggers.get i).suspended = some frame → b.Pauses c.settings.maxSteps frame ∧
        frame.vars.map Value.dataType = b.vars.map Variable.dataType ∧
        frame.stack.length ≤ 64 ∧ frame.steps ≤ c.settings.maxSteps) ∧
    ((c.programs.get i).bytecode = none →
      (c.programs.get i).values = [] ∧ (c.debuggers.get i).suspended = none) := by
  have slot := (reachable_sound c reachable).slots i
  refine ⟨fun b compiled => ⟨slot.values b compiled, fun frame suspended => ?_⟩, slot.empty⟩
  have pauses := reachable_waits c reachable i b frame compiled suspended
  exact ⟨pauses, b.pauses_fits _ frame pauses (slot.sound b compiled), b.pauses_bounded _ frame pauses,
    b.pauses_within _ frame pauses⟩

def haltedAfterFirst (c : Controller) : Controller := (c.after (.command firstSlot .pause)).after (.tick {})

theorem flag_waits_on_stack :
    let c := haltedAfterFirst (started (storing.after (.compile firstSlot)))
    Reachable c ∧ ∃ b frame, (c.programs.get firstSlot).bytecode = some b ∧
      (c.debuggers.get firstSlot).suspended = some frame ∧ frame.stack = [.bool true] ∧
      b.Pauses c.settings.maxSteps frame ∧ frame.vars.map Value.dataType = b.vars.map Variable.dataType := by
  intro c
  have reachable : Reachable c :=
    .after _ _ (.after _ _ (.after _ _ (.after _ _ (.after _ _ (.after _ _ (.initial {} {}))))))
  have source : storing.sources.source? firstSlot = some switchedTotal.toUTF8.toList := by decide +kernel
  obtain ⟨b, compiled, installed, stack⟩ := Compile.accepted_with switchedTotal
    (fun b => let next := haltedAfterFirst (started ((storing.vacated firstSlot).install firstSlot b))
      (next.programs.get firstSlot).bytecode = some b ∧
        (next.debuggers.get firstSlot).suspended.map Frame.stack = some [.bool true])
    (by decide +kernel)
  have state : c = haltedAfterFirst (started ((storing.vacated firstSlot).install firstSlot b)) :=
    congrArg (fun made => haltedAfterFirst (started made))
      (storing.compile_installs firstSlot switchedTotal b source compiled)
  simp only [← state] at installed stack
  obtain ⟨frame, suspended, held⟩ := Option.map_eq_some_iff.mp stack
  obtain ⟨pauses, types, _⟩ := ((values_and_frames_fit c reachable firstSlot).1 b installed).2 frame suspended
  exact ⟨reachable, b, frame, installed, suspended, held, pauses, types⟩

end Controller

end SoftPlc
