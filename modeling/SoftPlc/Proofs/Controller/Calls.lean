import SoftPlc.Proofs.Controller.Tending

set_option autoImplicit false

namespace SoftPlc.Controller

structure Sound (c : Controller) : Prop where
  sources : c.sources.Sound
  slots : SlotsSound c.bindings c.programs c.debuggers

variable (c : Controller)

theorem sound_initial (settings : Settings) (clock : Clock) : Sound { settings, clock } := by
  refine ⟨SourceArena.sound_empty, ?_⟩
  intro i
  apply slot_sound_empty <;> simp [LogicProgram.fresh]

theorem tended_sound (next : Controller) (tended : Tended c next) (sound : c.Sound) : next.Sound := by
  refine ⟨tended.sources sound.sources, fun i => ?_⟩
  obtain ⟨bytecode, values, _⟩ := tended.programs i
  rw [tended.bindings]
  exact slot_sound_debugger _ i _ _ _ (slot_sound_program _ i _ _ _ (sound.slots i) bytecode values) (tended.suspended i)

theorem delete_sound (id : Nat) (sound : c.Sound) : (c.delete id).2.Sound := by
  refine c.with_slot_keeps Sound id _ sound fun i same => ?_
  refine ⟨c.sources.sound_release sound.sources id (same ▸ i.isLt), ?_⟩
  apply slots_sound_program
  · apply slots_sound_debugger
    · exact slots_sound_table _ _ _ sound.slots _ fun e member => (List.mem_filter.mp member).1
    · have fewer := slots_sound_table _ _ _ sound.slots (c.bindings.clearProgram id)
        fun e member => (List.mem_filter.mp member).1
      exact slot_sound_debugger _ i _ _ _ (fewer i) (.inr rfl)
  · exact slot_sound_empty _ i _ _ rfl rfl (by simp [Debugger.clearBreakpoints, Debugger.apply])

-- Bytecode goes into a slot whose debugger has no suspended run. The bindings of the slot are made
-- anew, so they fit the variables of the new bytecode.
theorem installed_sound (i : Fin slotCount) (b : Bytecode) (exports : ExportPool) (p : LogicProgram) (count : UInt16)
    (sound : c.Sound) (program : b.Sound) (compiled : p.bytecode = some b) (values : p.values = b.initialValues)
    (alone : (c.debuggers.get i).suspended = none) :
    Sound { c with
      exports
      bindings := c.bindings.refresh i p
      programs := c.programs.put i { p with bindingCount := count } } := by
  refine ⟨sound.sources, fun j => ?_⟩
  by_cases same : i = j
  · subst same
    have slot : SlotSound (c.bindings.refresh i p) i { p with bindingCount := count } (c.debuggers.get i) := by
      refine slot_sound_installed _ i { p with bindingCount := count } _ b program compiled values alone ?_
      intro e member own
      rcases Bindings.refresh_mem _ i p e member with ⟨other, _⟩ | ⟨name, target, made⟩
      · exact absurd own other
      · obtain ⟨_, _, b', found, names⟩ := Binding.make_ok i p name target e made
        cases compiled.symm.trans found
        exact names
    simpa using slot
  · have other : i.val ≠ j.val := fun equal => same (Fin.ext equal)
    have slot : SlotSound (c.bindings.refresh i p) j (c.programs.get j) (c.debuggers.get j) := by
      apply slot_sound_table _ j _ _ _ (sound.slots j)
      intro e member own
      rcases Bindings.refresh_mem _ i p e member with ⟨_, old⟩ | ⟨name, target, made⟩
      · exact old
      · have mine := (Binding.make_ok i p name target e made).1
        exact absurd (mine.symm.trans own) other
    simpa [Slots.get_put_other _ i j _ same] using slot

theorem install_made (i : Fin slotCount) (b : Bytecode) :
    ∃ exports p, c.install i b =
      { c with
        exports
        bindings := c.bindings.refresh i p
        programs := c.programs.put i { p with bindingCount := (c.bindings.refresh i p).countFor i } } ∧
      p.name = (c.programs.get i).name ∧ p.bytecode = some b ∧ p.values = b.initialValues := by
  unfold install
  rcases c.exports.allocate i b.exportSize with ⟨offset | f, exports⟩
  · exact ⟨exports, _, rfl, rfl, rfl, rfl⟩
  · exact ⟨exports, _, rfl, rfl, rfl, rfl⟩

theorem install_programs (i : Fin slotCount) (b : Bytecode) :
    ∃ p, (c.install i b).programs = c.programs.put i p ∧ p.name = (c.programs.get i).name ∧ p.bytecode = some b := by
  obtain ⟨_, p, made, name, compiled, _⟩ := c.install_made i b
  exact ⟨_, congrArg programs made, name, compiled⟩

theorem install_sound (i : Fin slotCount) (b : Bytecode) (sound : c.Sound) (program : b.Sound)
    (alone : (c.debuggers.get i).suspended = none) : (c.install i b).Sound := by
  obtain ⟨exports, p, made, _, compiled, values⟩ := c.install_made i b
  rw [made]
  exact c.installed_sound i b exports p _ sound program compiled values alone

def vacated (i : Fin slotCount) : Controller :=
  { c.setDebugger i ((c.debuggers.get i).apply .stop) with exports := c.exports.release i }

def withoutBytecode (i : Fin slotCount) (f : Fault) : Controller :=
  (c.vacated i).setProgram i ((c.programs.get i).uninstall.setError f.render)

theorem compile_keeps (P : Controller → Prop) (id : Nat) (unchanged : P c)
    (installed : ∀ (i : Fin slotCount) b, c.compileSource i = .ok b → P ((c.vacated i).install i b))
    (failed : ∀ (i : Fin slotCount) f, P (c.withoutBytecode i f)) : P (c.compile id).2 := by
  refine c.with_slot_keeps P id _ unchanged fun i same => ?_
  subst same
  simp only
  cases result : c.compileSource i with
  | ok b => exact installed i b result
  | error f => exact failed i f

theorem vacated_alone (i : Fin slotCount) : ((c.vacated i).debuggers.get i).suspended = none := by
  simp [vacated, setDebugger, Debugger.apply]

theorem compile_source_sound (id : Nat) (b : Bytecode) (compiled : c.compileSource id = .ok b) : b.Sound := by
  unfold compileSource at compiled
  split at compiled
  · exact Compile.compiled_sound _ b compiled
  · cases compiled

theorem compile_sound (id : Nat) (sound : c.Sound) : (c.compile id).2.Sound := by
  have vacated (i : Fin slotCount) : (c.vacated i).Sound := by
    have stopped := c.tended_set_debugger i ((c.debuggers.get i).apply .stop) (.inr rfl)
    have kept := c.tended_sound _ stopped sound
    exact ⟨kept.sources, kept.slots⟩
  refine c.compile_keeps Sound id sound (fun i b result => ?_) fun i f => ?_
  · exact install_sound _ i b (vacated i) (c.compile_source_sound i b result) (c.vacated_alone i)
  · refine ⟨(vacated i).sources, ?_⟩
    exact slots_sound_program _ _ _ i (vacated i).slots _ (slot_sound_empty _ i _ _ rfl rfl (c.vacated_alone i))

theorem set_bindings_sound (i : Fin slotCount) (table : Bindings) (sound : c.Sound)
    (slots : SlotsSound table c.programs c.debuggers) : (c.setBindings i table).Sound :=
  ⟨sound.sources, slots_sound_program _ _ _ i slots _ (slot_sound_program _ i _ _ _ (slots i) rfl rfl)⟩

theorem bind_keeps (P : Controller → Prop) (id : Nat) (name : String) (target : Target) (unchanged : P c)
    (bound : ∀ (i : Fin slotCount) e, Binding.make i (c.programs.get i) name target = .ok e →
      P (c.setBindings i (c.bindings.replace e))) : P (c.bind id name target).2 := by
  refine c.with_slot_keeps P id _ unchanged fun i same => ?_
  subst same
  obtain ⟨e, made, accepted⟩ | ⟨f, refused⟩ := c.bindings.bind_either i (c.programs.get i) name target
  · simp only [accepted]
    exact bound i e made
  · simp only [refused]
    exact unchanged

theorem bind_sound (id : Nat) (name : String) (target : Target) (sound : c.Sound) :
    (c.bind id name target).2.Sound := by
  refine c.bind_keeps Sound id name target sound fun i made new => ?_
  obtain ⟨own, _, b, compiled, names⟩ := Binding.make_ok i _ name target made new
  refine c.set_bindings_sound i _ sound fun j => ?_
  refine { sound.slots j with bindings := fun b' found e member mine => ?_ }
  rcases Bindings.replace_mem _ made e member with old | rfl
  · exact (sound.slots j).bindings b' found e old mine
  · cases Fin.ext (own.symm.trans mine)
    cases compiled.symm.trans found
    exact names

theorem unbind_sound (id : Nat) (name : String) (sound : c.Sound) : (c.unbind id name).2.Sound := by
  refine c.with_slot_keeps Sound id _ sound fun i _ => ?_
  exact c.set_bindings_sound i _ sound
    (slots_sound_table _ _ _ sound.slots _ fun e member => (List.mem_filter.mp member).1)

end SoftPlc.Controller
