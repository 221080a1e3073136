import SoftPlc.Proofs.Controller.Cells
import SoftPlc.Proofs.Controller.Exports
import SoftPlc.Proofs.Controller.Sweep

set_option autoImplicit false

namespace SoftPlc

namespace Binding

theorem not_reserved (a : UInt16) (free : ¬ isReserved a = true) : a.toNat < 200 ∨ 252 ≤ a.toNat := by
  have from_ : reservedFrom.toNat = 200 := rfl
  have to_ : reservedTo.toNat = 252 := rfl
  simp only [isReserved, Bool.and_eq_true, decide_eq_true_eq, UInt16.le_iff_toNat_le, UInt16.lt_iff_toNat_lt, from_,
    to_] at free
  omega

theorem check_input (t : DataType) (a : UInt16) (checked : check t .output (.input a) = .ok ()) :
    a.toNat + t.registers.toNat ≤ 256 ∧ ¬ isReserved a = true ∧
      ¬ isReserved (a + t.registers.toUInt16 - 1) = true := by
  unfold check at checked
  split at checked
  · cases checked
  · split at checked
    · cases checked
    · rename_i inside
      simp only at checked
      split at checked
      · cases checked
      · rename_i free
        obtain ⟨first, last⟩ := not_or.mp free
        exact ⟨Nat.not_lt.mp inside, first, last⟩

theorem check_upper (t : DataType) (a : UInt16) (two : t.registers = 2)
    (checked : check t .output (.input a) = .ok ()) : ¬ a = 65535 ∧ ¬ isReserved (a + 1) = true := by
  obtain ⟨inside, _, last⟩ := check_input t a checked
  have small : a.toNat < 256 := Nat.lt_of_lt_of_le (Nat.lt_add_of_pos_right (by rw [two]; decide)) inside
  have one : (2 : UInt8).toUInt16 = 1 + 1 := rfl
  rw [two, one, ← UInt16.add_assoc, UInt16.add_sub_cancel] at last
  refine ⟨?_, last⟩
  rintro rfl
  exact absurd small (by decide)

end Binding

theorem Bindings.drives_unreserved (table : Bindings) (checked : table.Checked) (a : UInt16)
    (driven : table.Drives (.input a)) : a.toNat < 200 ∨ 252 ≤ a.toNat := by
  obtain ⟨e, bound, direction, inside⟩ := driven
  have checked := checked e bound
  rw [direction] at checked
  cases place : e.target with
  | holding b | coil b | discrete b =>
    rw [place] at inside
    simp [Target.cells] at inside
  | input b =>
    rw [place] at inside checked
    obtain ⟨_, first, _⟩ := Binding.check_input e.dataType b checked
    rcases List.mem_cons.mp inside with same | upper
    · exact Target.input.inj same ▸ Binding.not_reserved b first
    · by_cases two : e.dataType.registers = 2
      · obtain ⟨notLast, next⟩ := Binding.check_upper e.dataType b two checked
        rw [if_pos two, Target.next?, if_neg notLast] at upper
        cases List.mem_singleton.mp upper
        exact Binding.not_reserved _ next
      · rw [if_neg two] at upper
        cases upper

namespace Controller

open ExportPool

variable (c : Controller)

def Shows (i : Fin slotCount) (r : Registers) : Prop :=
  ∀ a, c.exports.allocation? i = some a → ∃ b, (c.programs.get i).bytecode = some b ∧ a.size = b.exportSize ∧
    ∀ before index v later, b.exports = before ++ (index, v) :: later →
      (c.programs.get i).values[index]? = some (r.shown (220 + a.offset.toNat + widths before) v.dataType)

theorem run_slot_registers (i : Fin slotCount) (r : Registers) :
    (∃ b us, (c.runSlot i r).1 = some (.completed us) ∧ (c.programs.get i).bytecode = some b ∧
      (c.runSlot i r).2.2 = c.exports.publish i b ((c.runSlot i r).2.1.programs.get i).values r) ∨
    ((c.runSlot i r).2.2 = r ∧ ∀ us, (c.runSlot i r).1 ≠ some (.completed us)) := by
  rcases c.run_slot_cases i r with ⟨answer, _⟩ | ⟨b, compiled, _, ⟨_, answer⟩ | ⟨_, answer⟩⟩
  · exact .inr (by simp [answer])
  · exact .inr (by simp [answer])
  · rcases c.run_bytecode_cases i b r with ⟨_, ended⟩ | ⟨f, _, ended⟩ | ⟨_, ended⟩
    · refine .inl ⟨b, c.spent, ?_⟩
      simp [answer, ended, compiled, complete, setProgram, behindRun]
    · exact .inr (by simp [answer, ended])
    · exact .inr (by simp [answer, ended])

theorem run_slot_agree (exporting : c.Exporting) (i j : Fin slotCount) (r : Registers) (other : i ≠ j) (a : Allocation)
    (found : c.exports.allocation? j = some a) :
    r.Agree (c.runSlot i r).2.2 (220 + a.offset.toNat) (220 + a.behind) := by
  rcases c.run_slot_registers i r with ⟨b, _, _, _, published⟩ | ⟨same, _⟩
  · rw [published]
    refine publish_agree _ _ _ _ _ _ _ fun a' own => ⟨(exporting.pool.inside i a' own).2, ?_⟩
    have apart := exporting.pool.apart i j a' a (fun same => other (Fin.ext same)) own found
    omega
  · rw [same]
    exact fun _ _ _ => rfl

-- Behind the turns nothing is written to the export registers: outputs have no reserved register,
-- and the status has those in front.
theorem cycle_at_agree (exporting : c.Exporting) (now : UInt64) (r : Registers) :
    (c.turns now r).2.2.Agree (c.cycleAt now r).2.2 220 252 := by
  have left := c.quiet_exporting _ (c.quiet_turns now r) exporting
  obtain ⟨_, _, _, _, answer⟩ := c.cycle_at_turns now r
  simp only [answer]
  generalize c.turns now r = result at left ⊢
  obtain ⟨runs, next, written⟩ := result
  have outputs : written.Agree (next.writeOutputs written) 220 252 := by
    refine written.agree_of_differs _ _ 220 252 (next.write_outputs_differs written) fun a behind before driven => ?_
    have free := next.bindings.drives_unreserved left.checked a driven
    omega
  have status : (next.writeOutputs written).Agree (next.publishStatus (next.writeOutputs written)) 220 252 := by
    refine Registers.agree_of_differs _ _ _ 220 252 (next.publish_status_differs _) fun a behind before shown => ?_
    obtain ⟨_, ⟨⟩, _, last⟩ := shown
    omega
  intro address behind before
  exact (status address behind before).trans (outputs address behind before)

section
variable (sound : c.Sound) (exporting : c.Exporting)
include sound exporting

theorem shows_agree (next : Controller) (i : Fin slotCount) (r s : Registers) (shows : c.Shows i r)
    (exports : next.exports = c.exports) (slot : next.programs.get i = c.programs.get i)
    (agree : ∀ a, c.exports.allocation? i = some a → r.Agree s (220 + a.offset.toNat) (220 + a.behind)) :
    next.Shows i s := by
  intro a found
  rw [exports] at found
  obtain ⟨b, compiled, size, values⟩ := shows a found
  have within := (exporting.pool.inside i a found).2
  have behind : a.behind = a.offset.toNat + a.size.toNat := rfl
  have total := export_size_widths b ((sound.slots i).sound b compiled).few
  rw [slot]
  refine ⟨b, compiled, size, fun before index v later split => ?_⟩
  rw [← size, split, widths_append, widths] at total
  rw [Registers.shown_agree _ _ _ _ _ _ (agree a found) (by omega) (by omega) (by omega)]
  exact values before index v later split

theorem run_slot_shows (i : Fin slotCount) (r : Registers) (us : UInt32)
    (completed : (c.runSlot i r).1 = some (.completed us)) :
    (c.runSlot i r).2.1.Shows i (c.runSlot i r).2.2 := by
  have quiet := c.quiet_run_slot i r
  have after := c.run_slot_sound i r sound
  rcases c.run_slot_registers i r with ⟨b, _, _, compiled, published⟩ | ⟨_, never⟩
  · intro a found
    rw [quiet.exports] at found
    obtain ⟨b', compiled', size⟩ := (sized_slots _ c).mp exporting.sized i a found
    cases compiled.symm.trans compiled'
    have still := (quiet.bytecode i).trans compiled
    refine ⟨b, still, size, fun before index v later split => ?_⟩
    rw [published]
    exact c.exports.publish_shown i b _ r a found (exporting.pool.inside i a found).2 size
      ((sound.slots i).sound b compiled).few ((after.slots i).values b still) before later index v split
  · exact absurd completed (never us)

theorem run_slots_keep_shown (i : Fin slotCount) (slots : List (Fin slotCount)) (r : Registers) (done : i ∉ slots)
    (shows : c.Shows i r) : (c.runSlots r slots).2.1.Shows i (c.runSlots r slots).2.2 := by
  induction slots generalizing c r with
  | nil => exact shows
  | cons j rest ih =>
    obtain ⟨other, later⟩ := List.ne_and_not_mem_of_not_mem_cons done
    have quiet := c.quiet_run_slot j r
    have kept := congrArg Slot.program ((c.run_slot_frame j r).2 i other.symm)
    have still := c.shows_agree sound exporting _ i r _ shows quiet.exports kept
      fun a found => c.run_slot_agree exporting j i r other.symm a found
    exact ih _ (c.run_slot_sound j r sound) (c.quiet_exporting _ quiet exporting) _ later still

-- Each slot has one turn; what it shows behind that turn it shows behind all.
theorem run_slots_show (i : Fin slotCount) (us : UInt32) (slots : List (Fin slotCount)) (r : Registers)
    (distinct : slots.Nodup) (completed : (i.val, .completed us) ∈ (c.runSlots r slots).1) :
    (c.runSlots r slots).2.1.Shows i (c.runSlots r slots).2.2 := by
  induction slots generalizing c r with
  | nil => cases completed
  | cons j rest ih =>
    obtain ⟨fresh, others⟩ := List.nodup_cons.mp distinct
    have after := c.run_slot_sound j r sound
    have quiet := c.quiet_exporting _ (c.quiet_run_slot j r) exporting
    rcases List.mem_append.mp completed with now | later
    · obtain ⟨run, ran, same⟩ := List.mem_map.mp now
      cases Fin.ext (congrArg Prod.fst same)
      have answer : (c.runSlot i r).1 = some (.completed us) :=
        (Option.mem_toList.mp ran).trans (congrArg some (congrArg Prod.snd same))
      exact run_slots_keep_shown _ after quiet i rest _ fresh (c.run_slot_shows sound exporting i r us answer)
    · exact ih _ after quiet _ others later

theorem turns_show (i : Fin slotCount) (us : UInt32) (now : UInt64) (r : Registers)
    (completed : (i.val, .completed us) ∈ (c.turns now r).1) : (c.turns now r).2.1.Shows i (c.turns now r).2.2 := by
  have quiet := c.quiet_exporting _ (c.quiet_begun now r) exporting
  unfold turns at completed ⊢
  exact run_slots_show _ (c.begun_sound now r sound) quiet i us _ r (List.nodup_finRange slotCount) completed

theorem cycle_at_shows (i : Fin slotCount) (us : UInt32) (now : UInt64) (r : Registers)
    (completed : (i.val, .completed us) ∈ (c.cycleAt now r).1.runs) :
    (c.cycleAt now r).2.1.Shows i (c.cycleAt now r).2.2 := by
  have ran := c.turns_sound now r sound
  have left := c.quiet_exporting _ (c.quiet_turns now r) exporting
  have shown := c.turns_show sound exporting i us now r
  have agree := c.cycle_at_agree exporting now r
  obtain ⟨_, _, _, _, answer⟩ := c.cycle_at_turns now r
  simp only [answer] at completed agree ⊢
  generalize c.turns now r = result at ran left shown completed agree ⊢
  obtain ⟨runs, next, written⟩ := result
  refine next.shows_agree ran left _ i written _ (shown completed) rfl rfl fun a found => ?_
  have within := (left.pool.inside i a found).2
  exact fun address behind before => agree address (by omega) (by omega)

theorem tick_shows (i : Fin slotCount) (us : UInt32) (r left : Registers) (report : Report) (after : Controller)
    (fired : c.tick r = (some report, after, left)) (completed : (i.val, .completed us) ∈ report.runs) :
    after.Shows i left := by
  have read : c.readClock.2.Sound := ⟨sound.sources, sound.slots⟩
  have quiet : c.readClock.2.Exporting := ⟨exporting.pool, exporting.sized, exporting.checked⟩
  have shown := cycle_at_shows c.readClock.2 read quiet i us c.clock.now r
  rw [c.tick_fired r left report after fired] at shown
  exact shown completed

end

-- After a cycle the slice of every program that has completed is as large as the program exports,
-- and its exported variables, in order of declaration, can be rebuilt from it: each is the value
-- that the program has kept, whatever the other programs, the outputs and the status have written.
theorem completed_exports_are_shown (c : Controller) (reachable : Reachable c) (r left : Registers) (report : Report)
    (after : Controller) (fired : c.tick r = (some report, after, left)) (i : Fin slotCount) (us : UInt32)
    (completed : (i.val, .completed us) ∈ report.runs) (a : Allocation)
    (holds : after.exports.allocation? i = some a) :
    ∃ b, (after.programs.get i).bytecode = some b ∧ a.size = b.exportSize ∧
      ∀ before index v later, b.exports = before ++ (index, v) :: later →
        (after.programs.get i).values[index]? = some (left.shown (220 + a.offset.toNat + widths before) v.dataType) :=
  c.tick_shows (reachable_sound c reachable) (reachable_exporting c reachable) i us r left report after fired completed
    a holds

theorem compile_text (c : Controller) (i : Nat) (text : String) (b : Bytecode)
    (source : c.sources.source? i = some text.toUTF8.toList) (compiled : SoftPlc.compile text = .ok b) :
    c.compileSource i = .ok b := by
  rw [compileSource, source, Option.bind_some, Configuration.text_of_bytes]
  exact compiled

theorem compile_installs (c : Controller) (i : Fin slotCount) (text : String) (b : Bytecode)
    (source : c.sources.source? i = some text.toUTF8.toList) (compiled : SoftPlc.compile text = .ok b) :
    c.after (.compile i) = (c.vacated i).install i b := by
  simp only [after, compile, withSlot, check_id_fin, c.compile_text i text b source compiled]
  rfl

def switchedTotal : String := "VAR on : BOOL EXPORT; total : DINT EXPORT; END_VAR on := TRUE; total := 70000;"

def storing : Controller := Controller.after {} (.upload firstSlot switchedTotal.toUTF8.toList)

def started (c : Controller) : Controller := (c.after (.enable firstSlot true)).after (.wait (.steady 20000 0))

theorem switched_total_is_shown :
    let c := started (storing.after (.compile firstSlot))
    Reachable c ∧ ∃ report next left a, c.tick {} = (some report, next, left) ∧
      (firstSlot.val, .completed 0) ∈ report.runs ∧ next.exports.allocation? firstSlot = some a ∧
      ∃ b, (next.programs.get firstSlot).bytecode = some b ∧ a.size = b.exportSize ∧
        ∀ before index v later, b.exports = before ++ (index, v) :: later →
          (next.programs.get firstSlot).values[index]? =
            some (left.shown (220 + a.offset.toNat + widths before) v.dataType) := by
  intro c
  have reachable : Reachable c := .after _ _ (.after _ _ (.after _ _ (.after _ _ (.initial {} {}))))
  have source : storing.sources.source? firstSlot = some switchedTotal.toUTF8.toList := by decide +kernel
  obtain ⟨b, compiled, completed, holds⟩ := Compile.accepted_with switchedTotal
    (fun b => let ticked := (started ((storing.vacated firstSlot).install firstSlot b)).tick {}
      (ticked.1.any fun report => decide ((firstSlot.val, .completed 0) ∈ report.runs)) = true ∧
        ticked.2.1.exports.allocation? firstSlot = some ⟨0, 3⟩)
    (by decide +kernel)
  have state : c = started ((storing.vacated firstSlot).install firstSlot b) :=
    congrArg started (storing.compile_installs firstSlot switchedTotal b source compiled)
  simp only [← state] at completed holds
  refine ⟨reachable, ?_⟩
  cases ticked : c.tick {} with
  | mk answer rest =>
    obtain ⟨next, left⟩ := rest
    rw [ticked] at completed holds
    cases answer with
    | none => cases completed
    | some report =>
      have member := of_decide_eq_true completed
      exact ⟨report, next, left, ⟨0, 3⟩, rfl, member, holds,
        completed_exports_are_shown c reachable {} left report next ticked firstSlot 0 member ⟨0, 3⟩ holds⟩

end Controller

end SoftPlc
