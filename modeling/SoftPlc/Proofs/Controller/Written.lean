import SoftPlc.Proofs.Controller.Published

set_option autoImplicit false

namespace SoftPlc

namespace ExportPool

theorem publish_from_input (a : Allocation) (values : List Value) (slot : UInt16) (r : Registers)
    (exported : List (Nat × Variable)) : ∃ input, publishFrom a values slot r exported = { r with input } := by
  induction exported generalizing slot r with
  | nil => exact ⟨_, rfl⟩
  | cons e rest ih =>
    obtain ⟨index, v⟩ := e
    rw [publish_from_cons]
    split
    · exact ⟨_, rfl⟩
    · split
      · exact ⟨_, rfl⟩
      · rename_i value _
        obtain ⟨one, first⟩ : ∃ input, publishOne (a.base + slot) v.dataType (value.cast v.dataType) r =
            { r with input } := by
          unfold publishOne
          split <;> exact ⟨_, rfl⟩
        obtain ⟨input, later⟩ := ih (slot + v.dataType.registers.toUInt16) { r with input := one }
        exact ⟨input, by rw [first, later]⟩

def Slice (a : Allocation) (cell : Target) : Prop :=
  ∃ address, cell = .input address ∧ 220 + a.offset.toNat ≤ address.toNat ∧ address.toNat < 220 + a.behind

theorem publish_differs (p : ExportPool) (sound : p.Sound) (id : Nat) (b : Bytecode) (values : List Value)
    (r : Registers) : r.Differs (fun cell => ∃ a, p.allocation? id = some a ∧ Slice a cell) (p.publish id b values r) := by
  intro cell outside
  cases found : p.allocation? id with
  | none =>
    rw [publish, found]
    exact r.same_refl cell
  | some a =>
    have within := (sound.inside id a found).2
    cases cell with
    | input address =>
      have beside : address.toNat < 220 + a.offset.toNat ∨ 220 + a.behind ≤ address.toNat := by
        by_contra inside
        exact outside ⟨a, found, address, rfl, by omega, by omega⟩
      refine p.publish_agree id b values r address.toNat (address.toNat + 1) (fun a' own => ?_) address (Nat.le_refl _)
        (Nat.lt_succ_self _)
      cases found.symm.trans own
      exact ⟨within, by omega⟩
    | _ =>
      obtain ⟨input, same⟩ := publish_from_input a values 0 r b.exports
      rw [publish, found]
      simp only [same]
      rfl

end ExportPool

namespace Controller

variable (c : Controller)

def Publishes (runs : List (Nat × ProgramRun)) (cell : Target) : Prop :=
  ∃ (i : Fin slotCount) (us : UInt32) (a : Allocation), (i.val, .completed us) ∈ runs ∧
    c.exports.allocation? i = some a ∧ ExportPool.Slice a cell

theorem run_slot_differs (exporting : c.Exporting) (i : Fin slotCount) (r : Registers) :
    r.Differs (c.Publishes ((c.runSlot i r).1.toList.map (i.val, ·))) (c.runSlot i r).2.2 := by
  rcases c.run_slot_registers i r with ⟨b, us, completed, _, published⟩ | ⟨same, _⟩
  · rw [published, completed]
    refine r.differs_more _ _ _ (c.exports.publish_differs exporting.pool i b _ r) ?_
    rintro cell ⟨a, found, inside⟩
    exact ⟨i, us, a, List.mem_singleton_self _, found, inside⟩
  · rw [same]
    exact r.differs_refl _

theorem run_slots_differs (exporting : c.Exporting) (slots : List (Fin slotCount)) (r : Registers) :
    r.Differs (c.Publishes (c.runSlots r slots).1) (c.runSlots r slots).2.2 := by
  induction slots generalizing c r with
  | nil => exact r.differs_refl _
  | cons i rest ih =>
    have quiet := c.quiet_run_slot i r
    have first := r.differs_more _ _ (c.Publishes (c.runSlots r (i :: rest)).1) (c.run_slot_differs exporting i r)
      fun cell ⟨j, us, a, ran, found, inside⟩ => ⟨j, us, a, List.mem_append_left _ ran, found, inside⟩
    refine r.differs_trans _ _ _ first ?_
    refine Registers.differs_more _ _ _ _ (ih _ (c.quiet_exporting _ quiet exporting) _) ?_
    rintro cell ⟨j, us, a, ran, found, inside⟩
    exact ⟨j, us, a, List.mem_append_right _ ran, quiet.exports ▸ found, inside⟩

def MayWrite (report : Report) (cell : Target) : Prop :=
  StatusCell cell ∨ c.Publishes report.runs cell ∨ c.bindings.Drives cell

theorem turns_differ (exporting : c.Exporting) (now : UInt64) (r : Registers) :
    r.Differs (c.Publishes (c.turns now r).1) (c.turns now r).2.2 :=
  run_slots_differs _ (c.quiet_exporting _ (c.quiet_begun now r) exporting) _ r

theorem cycle_at_differs (exporting : c.Exporting) (now : UInt64) (r : Registers) :
    r.Differs (c.MayWrite (c.cycleAt now r).1) (c.cycleAt now r).2.2 := by
  have quiet := c.quiet_turns now r
  have turned := c.turns_differ exporting now r
  obtain ⟨_, _, _, _, answer⟩ := c.cycle_at_turns now r
  simp only [answer]
  generalize c.turns now r = result at quiet turned ⊢
  obtain ⟨runs, next, written⟩ := result
  have outputs := next.write_outputs_differs written
  have status := next.publish_status_differs (next.writeOutputs written)
  rw [quiet.bindings] at outputs
  refine r.differs_trans _ _ _ ?_ (Registers.differs_more _ _ _ _ status fun _ inside => .inl inside)
  refine r.differs_trans _ _ _ ?_ (Registers.differs_more _ _ _ _ outputs fun _ inside => .inr (.inr inside))
  exact r.differs_more _ _ _ turned fun _ inside => .inr (.inl inside)

-- A tick that does not fire leaves all as it was but for the clock that it has read. One that fires
-- changes the status, the slices of the programs that it reports as completed and the targets of the
-- outputs, and these are never among the registers for status and exports.
theorem ticks_write_where_they_may (c : Controller) (reachable : Reachable c) (r : Registers) :
    (match c.tick r with
      | (none, after, left) => left = r ∧ after = { c with clock := c.readClock.2.clock }
      | (some report, _, left) => ∀ cell, ¬ c.MayWrite report cell → left.SameAt r cell) ∧
    ∀ a, c.bindings.Drives (.input a) → a.toNat < 200 ∨ 252 ≤ a.toNat := by
  have exporting := reachable_exporting c reachable
  refine ⟨?_, c.bindings.drives_unreserved exporting.checked⟩
  rcases c.tick_cases r with ⟨_, answer⟩ | ⟨_, answer⟩
  · rw [answer]
    exact ⟨rfl, rfl⟩
  · have quiet : c.readClock.2.Exporting := ⟨exporting.pool, exporting.sized, exporting.checked⟩
    rw [answer]
    exact c.readClock.2.cycle_at_differs quiet c.clock.now r

def levelDriver : String := "VAR_OUTPUT level : DINT; END_VAR VAR seen : INT EXPORT; END_VAR level := 70000; seen := 5;"

def levelHeld : Controller := Controller.after {} (.upload firstSlot levelDriver.toUTF8.toList)

def driven (c : Controller) : Controller := (started c).after (.bind firstSlot "level" (.input 198))

theorem level_is_written_alone :
    let c := driven (levelHeld.after (.compile firstSlot))
    Reachable c ∧ ∃ report after left, c.tick {} = (some report, after, left) ∧ left.inputAt 198 = 4464 ∧
      left.inputAt 199 = 1 ∧ left.inputAt 220 = 5 ∧ ∀ cell, ¬ c.MayWrite report cell → left.SameAt {} cell := by
  intro c
  have reachable : Reachable c := .after _ _ (.after _ _ (.after _ _ (.after _ _ (.after _ _ (.initial {} {})))))
  have source : levelHeld.sources.source? firstSlot = some levelDriver.toUTF8.toList := by decide +kernel
  obtain ⟨b, compiled, fires, written⟩ := Compile.accepted_with levelDriver
    (fun b => let ticked := (driven ((levelHeld.vacated firstSlot).install firstSlot b)).tick {}
      ticked.1.isSome = true ∧
        [198, 199, 220].map ticked.2.2.inputAt = [4464, 1, 5])
    (by decide +kernel)
  have state : c = driven ((levelHeld.vacated firstSlot).install firstSlot b) :=
    congrArg driven (levelHeld.compile_installs firstSlot levelDriver b source compiled)
  simp only [← state] at fires written
  have within := (ticks_write_where_they_may c reachable {}).1
  refine ⟨reachable, ?_⟩
  cases ticked : c.tick {} with
  | mk answer rest =>
    obtain ⟨next, left⟩ := rest
    rw [ticked] at fires written within
    cases answer with
    | none => cases fires
    | some report =>
      simp only [List.map_cons, List.map_nil, List.cons.injEq, and_true] at written
      exact ⟨report, next, left, rfl, written.1, written.2.1, written.2.2, within⟩

end Controller

end SoftPlc
