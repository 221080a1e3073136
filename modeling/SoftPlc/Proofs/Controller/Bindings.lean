import SoftPlc.Proofs.Controller.Published

set_option autoImplicit false

namespace SoftPlc

theorem Binding.make_small (id : Nat) (p : LogicProgram) (name : String) (target : Target) (e : Binding)
    (made : make id p name target = .ok e) (program : ∀ b, p.bytecode = some b → b.Sound) :
    e.index < Bytecode.maxVariables := by
  obtain ⟨_, _, b, compiled, v, declared, _⟩ := make_ok id p name target e made
  obtain ⟨inside, _⟩ := List.getElem?_eq_some_iff.mp declared
  exact Nat.lt_of_lt_of_le inside (program b compiled).few

namespace Bindings

def keys (table : Bindings) : List (Nat × Nat) := table.map fun e => (e.program, e.index)

-- No variable is bound twice, and none that no program can have.
structure Tidy (table : Bindings) : Prop where
  distinct : table.keys.Nodup
  small : ∀ e ∈ table, e.index < Bytecode.maxVariables

variable (table : Bindings)

theorem tidy_filter (keep : Binding → Bool) (tidy : table.Tidy) : Tidy (table.filter keep) :=
  ⟨tidy.distinct.sublist (List.filter_sublist.map _), fun e member => tidy.small e (List.mem_filter.mp member).1⟩

theorem tidy_replace (e : Binding) (tidy : table.Tidy) (small : e.index < Bytecode.maxVariables) :
    (table.replace e).Tidy := by
  have others := table.tidy_filter (fun c => !(c.program == e.program && c.index == e.index)) tidy
  refine ⟨?_, fun f member => ?_⟩
  · rw [keys, replace, List.map_append, List.nodup_append]
    refine ⟨others.distinct, List.nodup_singleton _, ?_⟩
    rintro key before new alone same
    cases List.mem_singleton.mp alone
    obtain ⟨f, member, rfl⟩ := List.mem_map.mp before
    obtain ⟨program, index⟩ := Prod.mk.inj same
    simpa [program, index] using (List.mem_filter.mp member).2
  · rcases replace_mem table e f member with old | rfl
    · exact tidy.small f old
    · exact small

theorem tidy_refresh (id : Nat) (p : LogicProgram) (tidy : table.Tidy)
    (program : ∀ b, p.bytecode = some b → b.Sound) : (table.refresh id p).Tidy :=
  refresh_keeps Tidy table id p (table.tidy_filter _ tidy) fun start name target e made holds =>
    start.tidy_replace e holds (Binding.make_small id p name target e made program)

theorem count_for_exact (id : Nat) (tidy : table.Tidy) :
    (table.countFor id).toNat = table.countP (·.program == id) := by
  have own := table.tidy_filter (·.program == id) tidy
  have indices : ((table.filter (·.program == id)).map (·.index)).Nodup := by
    refine List.Nodup.of_map (Prod.mk id) ?_
    have keyed : ((table.filter (·.program == id)).map (·.index)).map (Prod.mk id) =
        keys (table.filter (·.program == id)) := by
      rw [keys, List.map_map]
      refine List.map_congr_left fun e member => ?_
      have mine := (List.mem_filter.mp member).2
      simp only [Function.comp_apply, ← beq_iff_eq.mp mine]
    rw [keyed]
    exact own.distinct
  have within : (table.filter (·.program == id)).map (·.index) ⊆ List.range Bytecode.maxVariables := by
    intro index listed
    obtain ⟨e, member, rfl⟩ := List.mem_map.mp listed
    exact List.mem_range.mpr (own.small e member)
  have few := (List.subperm_of_subset indices within).length_le
  rw [List.length_map, ← List.countP_eq_length_filter, List.length_range] at few
  unfold countFor
  rw [UInt16.toNat_ofNat']
  unfold Bytecode.maxVariables at few
  omega

theorem others_filter (id : Nat) (keep : Binding → Bool) (kept : ∀ e : Binding, e.program ≠ id → keep e = true) :
    clearProgram (table.filter keep) id = table.clearProgram id := by
  rw [clearProgram, clearProgram, List.filter_filter]
  refine List.filter_congr fun e _ => ?_
  by_cases mine : e.program = id
  · simp [mine]
  · simp [kept e mine]

theorem others_replace (e : Binding) : (table.replace e).clearProgram e.program = table.clearProgram e.program := by
  have rest := table.others_filter e.program (fun c => !(c.program == e.program && c.index == e.index))
    fun c other => by simp [other]
  rw [replace, clearProgram, List.filter_append]
  simpa [clearProgram] using rest

theorem others_clear (id : Nat) : (table.clearProgram id).clearProgram id = table.clearProgram id :=
  table.others_filter id _ fun e other => by simpa using other

theorem others_unbind (id : Nat) (name : String) : (table.unbind id name).clearProgram id = table.clearProgram id :=
  table.others_filter id _ fun e other => by simp [other]

theorem others_refresh (id : Nat) (p : LogicProgram) : (table.refresh id p).clearProgram id = table.clearProgram id :=
  refresh_keeps (fun start => start.clearProgram id = table.clearProgram id) table id p (table.others_clear id)
    fun start name target e made holds => by
      obtain ⟨own, _⟩ := Binding.make_ok id p name target e made
      exact (own ▸ start.others_replace e).trans holds

theorem count_for_cleared (id j : Nat) (other : j ≠ id) : (table.clearProgram id).countFor j = table.countFor j := by
  unfold countFor clearProgram
  rw [List.countP_filter]
  congr 1
  refine List.countP_congr fun e _ => ?_
  simp only [Bool.and_eq_true, beq_iff_eq, bne_iff_ne]
  exact ⟨fun both => both.1, fun mine => ⟨mine, fun same => other (mine.symm.trans same)⟩⟩

end Bindings

namespace Controller

structure Tallied (c : Controller) : Prop where
  tidy : c.bindings.Tidy
  counted : ∀ i, (c.programs.get i).bindingCount = c.bindings.countFor i

theorem tallied_initial (settings : Settings) (clock : Clock) : Tallied { settings, clock } := by
  refine ⟨⟨List.nodup_nil, fun e member => by cases member⟩, fun i => ?_⟩
  rw [Slots.get_of_fn]
  rfl

section
variable (c : Controller) (tallied : c.Tallied)
include tallied

theorem tallied_same (next : Controller) (bindings : next.bindings = c.bindings)
    (count : ∀ i, (next.programs.get i).bindingCount = (c.programs.get i).bindingCount) : next.Tallied :=
  ⟨bindings ▸ tallied.tidy, fun i => by rw [count, bindings, tallied.counted]⟩

theorem tallied_put (next : Controller) (i : Fin slotCount) (p : LogicProgram)
    (programs : next.programs = c.programs.put i p) (tidy : next.bindings.Tidy)
    (others : next.bindings.clearProgram i = c.bindings.clearProgram i)
    (count : p.bindingCount = next.bindings.countFor i) : next.Tallied := by
  refine ⟨tidy, fun j => ?_⟩
  rw [programs]
  by_cases here : i = j
  · subst here
    rw [Slots.get_put_self]
    exact count
  · have apart : j.val ≠ i.val := fun same => here (Fin.ext same.symm)
    rw [Slots.get_put_other _ i j p here, tallied.counted, ← next.bindings.count_for_cleared i j apart, others,
      c.bindings.count_for_cleared i j apart]

theorem compile_tallied (id : Nat) : (c.compile id).2.Tallied := by
  refine c.compile_keeps Tallied id tallied (fun i b result => ?_) fun i f => ?_
  · obtain ⟨_, p, made, _, compiled, _⟩ := (c.vacated i).install_made i b
    have program (b' : Bytecode) (found : p.bytecode = some b') : b'.Sound := by
      cases compiled.symm.trans found
      exact c.compile_source_sound i b result
    rw [made]
    exact c.tallied_put tallied _ i _ rfl (c.bindings.tidy_refresh i p tallied.tidy program)
      (c.bindings.others_refresh i p) rfl
  · exact c.tallied_put tallied _ i _ rfl tallied.tidy rfl (tallied.counted i)

theorem delete_tallied (id : Nat) : (c.delete id).2.Tallied := by
  refine c.with_slot_keeps Tallied id _ tallied fun i same => ?_
  subst same
  refine c.tallied_put tallied _ i _ rfl (c.bindings.tidy_filter _ tallied.tidy) (c.bindings.others_clear i) ?_
  have none : (c.bindings.clearProgram i).countP (·.program == i.val) = 0 := by
    rw [List.countP_eq_zero]
    intro e member
    simpa [Bindings.clearProgram] using (List.mem_filter.mp member).2
  simp only [Bindings.countFor, none]
  rfl

theorem set_bindings_tallied (i : Fin slotCount) (table : Bindings) (tidy : table.Tidy)
    (others : table.clearProgram i = c.bindings.clearProgram i) : (c.setBindings i table).Tallied :=
  c.tallied_put tallied _ i _ rfl tidy others rfl

theorem bind_tallied (id : Nat) (name : String) (target : Target) (sound : c.Sound) :
    (c.bind id name target).2.Tallied := by
  refine c.bind_keeps Tallied id name target tallied fun i e made => ?_
  have small := Binding.make_small i _ name target e made (sound.slots i).sound
  obtain ⟨own, _⟩ := Binding.make_ok i _ name target e made
  exact c.set_bindings_tallied tallied i _ (c.bindings.tidy_replace e tallied.tidy small)
    (own ▸ c.bindings.others_replace e)

theorem unbind_tallied (id : Nat) (name : String) : (c.unbind id name).2.Tallied := by
  refine c.with_slot_keeps Tallied id _ tallied fun i same => ?_
  subst same
  exact c.set_bindings_tallied tallied i _ (c.bindings.tidy_filter _ tallied.tidy) (c.bindings.others_unbind i name)

theorem load_tallied (blob : Bytes) : (c.load blob).2.Tallied := by
  refine c.load_keeps Tallied blob tallied fun k sources => ?_
  refine ⟨⟨List.nodup_nil, fun e member => by cases member⟩, fun i => ?_⟩
  obtain ⟨_, taken⟩ := c.take_over_program k sources i
  rw [taken]
  exact k.program_unbound i

theorem tick_tallied (r : Registers) : (c.tick r).2.1.Tallied := by
  refine c.tallied_same tallied _ (c.quiet_tick r).bindings fun i => ?_
  obtain ⟨_, _, _, kept⟩ := c.tick_keeps_program i r
  rw [kept]

theorem after_tallied (call : Call) (sound : c.Sound) : (c.after call).Tallied := by
  by_cases tends : call.Tends
  · have tended := c.after_tended call tends
    exact c.tallied_same tallied _ tended.bindings fun i => (tended.programs i).count
  · cases call with
    | compile id => exact c.compile_tallied tallied id
    | delete id => exact c.delete_tallied tallied id
    | bind id name target => exact c.bind_tallied tallied id name target sound
    | unbind id name => exact c.unbind_tallied tallied id name
    | compactExports => exact c.tallied_same tallied _ rfl fun _ => rfl
    | load blob => exact c.load_tallied tallied blob
    | tick r => exact c.tick_tallied tallied r
    | _ => exact absurd trivial tends

end

theorem reachable_tallied (c : Controller) (reachable : Reachable c) : c.Tallied := by
  induction reachable with
  | initial settings clock => exact tallied_initial settings clock
  | after c call before ih => exact c.after_tallied ih call (reachable_sound c before)

-- No variable has two bindings. Where a program is compiled, each of its bindings has the index of
-- the variable of its name, type and class, and a target that is allowed for them. Every program has its
-- bindings counted.
theorem bindings_are_consistent (c : Controller) (reachable : Reachable c) :
    (c.bindings.map fun e => (e.program, e.index)).Nodup ∧
    (∀ (i : Fin slotCount) b, (c.programs.get i).bytecode = some b → ∀ e ∈ c.bindings, e.program = i.val →
      (∃ v, b.vars[e.index]? = some v ∧ v.name = e.name ∧ v.dataType = e.dataType ∧
        v.variableClass = e.direction.variableClass) ∧
      Binding.check e.dataType e.direction e.target = .ok ()) ∧
    ∀ i : Fin slotCount, (c.programs.get i).bindingCount.toNat = c.bindings.countP (·.program == i.val) := by
  have sound := reachable_sound c reachable
  have tallied := reachable_tallied c reachable
  have checked := (reachable_exporting c reachable).checked
  refine ⟨tallied.tidy.distinct, fun i b compiled e member own => ?_, fun i => ?_⟩
  · exact ⟨(sound.slots i).bindings b compiled e member own, checked e member⟩
  · rw [tallied.counted i]
    exact c.bindings.count_for_exact i tallied.tidy

def mixer : String := "VAR_INPUT gain : INT; END_VAR VAR_OUTPUT level : INT; END_VAR"

def remixed : String := "VAR_OUTPUT level : INT; END_VAR VAR_INPUT gain : DINT; END_VAR"

def levelVariable : Variable :=
  { name := "LEVEL", dataType := .int, variableClass := .output, exported := false, initial := .int 0 }

def gainVariable (dataType : DataType) (initial : Value) : Variable :=
  { name := "GAIN", dataType, variableClass := .input, exported := false, initial }

def storingMixer : Controller := Controller.after {} (.upload firstSlot mixer.toUTF8.toList)

def boundMixer (c : Controller) : Controller :=
  ((c.after (.bind firstSlot "gain" (.coil 3))).after (.bind firstSlot "level" (.holding 5))).after
    (.upload firstSlot remixed.toUTF8.toList)

-- The level moves to the front and stays bound; the gain is now too wide for its coil and is not.
theorem remixed_level_is_bound :
    let c := (boundMixer (storingMixer.after (.compile firstSlot))).after (.compile firstSlot)
    Reachable c ∧ ∃ e, c.bindings = [e] ∧ e.target = .holding 5 ∧ e.Names [levelVariable, gainVariable .dint (.dint 0)] ∧
      (c.programs.get firstSlot).bindingCount.toNat = 1 := by
  intro c
  have reachable : Reachable c :=
    .after _ _ (.after _ _ (.after _ _ (.after _ _ (.after _ _ (.after _ _ (.initial {} {}))))))
  obtain ⟨old, compiled, first⟩ := Compile.accepted_with mixer
    (· = { name := none, code := [.halt], vars := [gainVariable .int (.int 0), levelVariable] }) (by decide +kernel)
  obtain ⟨new, recompiled, second⟩ := Compile.accepted_with remixed
    (· = { name := none, code := [.halt], vars := [levelVariable, gainVariable .dint (.dint 0)] }) (by decide +kernel)
  have stored : storingMixer.sources.source? firstSlot = some mixer.toUTF8.toList := by decide +kernel
  have installed := storingMixer.compile_installs firstSlot mixer old stored compiled
  have source : (boundMixer ((storingMixer.vacated firstSlot).install firstSlot old)).sources.source? firstSlot =
      some remixed.toUTF8.toList := by
    rw [first]
    decide +kernel
  have state : c = ((boundMixer ((storingMixer.vacated firstSlot).install firstSlot old)).vacated firstSlot).install
      firstSlot new := by
    rw [← compile_installs _ firstSlot remixed new source recompiled, ← installed]
  have bindings : c.bindings = [⟨0, "LEVEL", 0, .int, .output, .holding 5⟩] := by
    rw [state, first, second]
    decide +kernel
  have bytecode : (c.programs.get firstSlot).bytecode = some new := by
    rw [state, first, second]
    decide +kernel
  obtain ⟨_, named, counted⟩ := bindings_are_consistent c reachable
  have level := named firstSlot new bytecode _ (bindings ▸ List.mem_singleton_self _) rfl
  rw [second] at level
  exact ⟨reachable, _, bindings, rfl, level.1, (counted firstSlot).trans (by rw [bindings]; rfl)⟩

end Controller

end SoftPlc
