import SoftPlc.Proofs.Controller.Bindings
import SoftPlc.Proofs.Controller.Breakpoints
import SoftPlc.Proofs.Controller.Isolation

set_option autoImplicit false

namespace SoftPlc

theorem foldl_reaches {σ α : Type} (P : σ → Prop) (f : σ → α → σ) (x : α) (items : List α) (start : σ)
    (member : x ∈ items) (made : ∀ s, P (f s x)) (kept : ∀ y ∈ items, y ≠ x → ∀ s, P s → P (f s y)) : P (items.foldl f start) := by
  obtain ⟨front, back, rfl⟩ := List.append_of_mem member
  rw [List.foldl_append, List.foldl_cons]
  refine List.foldlRecOn back f (made _) fun s holds y later => ?_
  by_cases same : y = x
  · exact same ▸ made s
  · exact kept y (List.mem_append_right _ (List.mem_cons_of_mem _ later)) same s holds

namespace BitBank

theorem mask_set (byte : UInt8) (i : Fin 8) : (byte ||| 1 <<< UInt8.ofNat i) &&& 1 <<< UInt8.ofNat i ≠ 0 ∧
    (byte &&& ~~~ (1 <<< UInt8.ofNat i)) &&& 1 <<< UInt8.ofNat i = 0 := by
  have one : ∀ i : Fin 8, (1 <<< UInt8.ofNat i : UInt8) ≠ 0 ∧
      ~~~ (1 <<< UInt8.ofNat i : UInt8) &&& 1 <<< UInt8.ofNat i = 0 := by decide
  obtain ⟨some, none⟩ := one i
  refine ⟨fun zero => some ?_, by rw [UInt8.and_assoc, none, UInt8.and_zero]⟩
  have spread : (byte ||| 1 <<< UInt8.ofNat i) &&& 1 <<< UInt8.ofNat i =
      byte &&& 1 <<< UInt8.ofNat i ||| 1 <<< UInt8.ofNat i &&& 1 <<< UInt8.ofNat i :=
    UInt8.toBitVec_inj.mp BitVec.and_or_distrib_right
  rw [spread, UInt8.and_self] at zero
  exact (UInt8.or_eq_zero_iff.mp zero).2

theorem bit_set_self (bits : BitBank) (a : UInt16) (v : Bool) (inside : a.toNat < bankSize) :
    (bits.setBit a v).bitAt a = v := by
  have within : a.toNat / 8 < bankSize / 8 := by unfold bankSize at inside ⊢; omega
  obtain ⟨on, off⟩ := mask_set bits[a.toNat / 8] ⟨a.toNat % 8, Nat.mod_lt _ (by decide)⟩
  have found : bits[a.toNat / 8]? = some bits[a.toNat / 8] := Vector.getElem?_eq_getElem within
  unfold setBit
  rw [found]
  unfold bitAt
  rw [Vector.getElem?_setIfInBounds_self_of_lt within]
  cases v with
  | true => exact bne_iff_ne.mpr on
  | false => exact bne_eq_false_iff_eq.mpr off

end BitBank

namespace Target

theorem words_read_back (word : Registers → UInt16 → UInt16) (set : Registers → UInt16 → UInt16 → Registers)
    (self : ∀ r a v, a.toNat < bankSize → word (set r a v) a = v)
    (other : ∀ r a b v, a ≠ b → word (set r a v) b = word r b) (a : UInt16) (v : Value) (r : Registers)
    (inside : a.toNat + v.dataType.registers.toNat ≤ bankSize) :
    let s := match upperAddress? v a with
      | some h => set (set r a v.lowWord) h v.highWord
      | none => set r a v.lowWord
    Value.ofWords v.dataType (word s a) (((next? a).map (word s)).getD 0) = v := by
  intro s
  have count := ExportPool.registers_count v.dataType
  have small : a.toNat < 256 := by unfold bankSize at inside; omega
  rw [Value.of_words_upper]
  refine Eq.trans ?_ v.of_words_words
  by_cases two : v.dataType.registers = 2
  -- The bank ends before the addresses do, so the upper word has a register of its own.
  · have next := ExportPool.address_next a small
    have last : a ≠ 65535 := by rintro rfl; exact absurd small (by decide)
    have apart : a + 1 ≠ a := fun same => by
      have equal := congrArg UInt16.toNat same
      omega
    have behind : next? a = some (a + 1) := if_neg last
    have upper : upperAddress? v a = some (a + 1) := by rw [upperAddress?, if_pos two, behind]
    have written : s = set (set r a v.lowWord) (a + 1) v.highWord := by simp only [s, upper]
    have high : (a + 1).toNat < bankSize := by rw [two] at inside; rw [next]; exact inside
    rw [behind, Option.map_some, Option.getD_some, written, self _ _ _ high, other _ _ _ _ apart, self _ _ _ small]
  · have upper : upperAddress? v a = none := if_neg two
    have written : s = set r a v.lowWord := by simp only [s, upper]
    rw [written, self _ _ _ small, Value.upperWord, Value.upperWord, if_neg two, if_neg two]

theorem read_write (target : Target) (v : Value) (r : Registers) (exact : target.isBit = false ∨ v.dataType = .bool)
    (inside : target.address.toNat + (Binding.width v.dataType target).toNat ≤ bankSize) :
    target.read v.dataType (target.write v r) = v := by
  cases target with
  | holding a =>
    exact words_read_back Registers.holdingAt Registers.setHolding Registers.holding_set_self
      Registers.holding_set_other a v r inside
  | input a =>
    exact words_read_back Registers.inputAt Registers.setInput Registers.input_set_self Registers.input_set_other a v r
      inside
  | coil a =>
    obtain bool : v.dataType = .bool := exact.resolve_left Bool.noConfusion
    cases v with
    | bool b => exact congrArg Value.bool (r.coils.bit_set_self a b inside)
    | _ => cases bool
  | discrete a =>
    obtain bool : v.dataType = .bool := exact.resolve_left Bool.noConfusion
    cases v with
    | bool b => exact congrArg Value.bool (r.discrete.bit_set_self a b inside)
    | _ => cases bool

theorem read_kept (target : Target) (t : DataType) (cells : Target → Prop) (r s : Registers)
    (differs : r.Differs cells s) (apart : ∀ cell ∈ target.cells t, ¬ cells cell) : target.read t s = target.read t r :=
  target.read_same t s r fun cell inside => differs cell (apart cell inside)

theorem cells_few (target : Target) (t : DataType) : (target.cells t).length ≤ 2 := by
  cases target with
  | coil a | discrete a => exact Nat.le_succ 1
  | holding a | input a =>
    simp only [cells, List.length_cons]
    split
    · exact Nat.succ_le_succ (by cases next? a <;> simp)
    · exact Nat.le_succ 1

end Target

theorem Binding.check_inside (t : DataType) (direction : Direction) (target : Target)
    (checked : check t direction target = .ok ()) : target.address.toNat + (width t target).toNat ≤ bankSize := by
  unfold check at checked
  split at checked
  · cases checked
  · split at checked
    · cases checked
    · rename_i inside
      exact Nat.not_lt.mp inside

namespace Bindings

variable (table : Bindings)

theorem mem_of_program (id : Nat) (direction : Direction) (e : Binding) :
    e ∈ table.ofProgram id direction ↔ e ∈ table ∧ e.program = id ∧ e.direction = direction := by
  simp [ofProgram]

def Alone (o : Binding) : Prop :=
  ∀ e ∈ table, e.direction = .output → e ≠ o → ∀ cell ∈ e.target.cells e.dataType, cell ∉ o.target.cells o.dataType

-- An output and an input at the same target, which can hold all of the values that they have, and which no
-- other output is written to.
structure Carries (o n : Binding) : Prop where
  output : o ∈ table ∧ o.direction = .output
  input : n ∈ table ∧ n.direction = .input
  target : n.target = o.target
  dataType : n.dataType = o.dataType
  exact : o.target.isBit = false ∨ o.dataType = .bool
  alone : table.Alone o

section
variable (o : Binding) (alone : table.Alone o)
include alone

theorem other_output_kept (e : Binding) (id : Nat) (member : e ∈ table.ofProgram id .output) (other : e ≠ o)
    (values : List Value) (r : Registers) :
    o.target.read o.dataType (match values[e.index]? with
      | some v => e.target.write (v.cast e.dataType) r
      | none => r) = o.target.read o.dataType r := by
  obtain ⟨bound, _, output⟩ := (table.mem_of_program id .output e).mp member
  split
  · rename_i v _
    have written := e.target.write_differs (v.cast e.dataType) r
    rw [Value.dataType_cast] at written
    exact o.target.read_kept o.dataType _ r _ written fun cell inside driven =>
      alone e bound output other cell driven inside
  · rfl

theorem other_outputs_kept (id : Nat) (other : id ≠ o.program) (values : List Value) (r : Registers) :
    o.target.read o.dataType (table.writeOutputs id values r) = o.target.read o.dataType r := by
  refine List.foldlRecOn (motive := fun s => o.target.read o.dataType s = o.target.read o.dataType r) _ _ rfl
    fun s kept e member => ?_
  have apart : e ≠ o := fun same => other (same ▸ ((table.mem_of_program id .output e).mp member).2.1.symm)
  exact (table.other_output_kept o alone e id member apart values s).trans kept

theorem output_shown (bound : o ∈ table) (output : o.direction = .output)
    (exact : o.target.isBit = false ∨ o.dataType = .bool) (checked : table.Checked) (values : List Value) (v : Value)
    (found : values[o.index]? = some v) (type : v.dataType = o.dataType) (r : Registers) :
    o.target.read o.dataType (table.writeOutputs o.program values r) = v := by
  have inside := Binding.check_inside _ _ _ (checked o bound)
  have same : v.cast o.dataType = v := type ▸ v.cast_self
  refine foldl_reaches (o.target.read o.dataType · = v) _ o _ r ((table.mem_of_program _ _ o).mpr ⟨bound, rfl, output⟩)
    (fun s => ?_) fun e member other s kept => ?_
  · simp only [found, same]
    rw [← type] at exact inside ⊢
    exact o.target.read_write v s exact inside
  · exact (table.other_output_kept o alone e o.program member other values s).trans kept

end

-- As no variable is bound twice, an input is set once when the inputs are read.
theorem input_read (n : Binding) (bound : n ∈ table) (input : n.direction = .input) (distinct : table.keys.Nodup)
    (r : Registers) (values : List Value) (w : Value)
    (found : (table.readInputs n.program r values)[n.index]? = some w) : w = n.target.read n.dataType r := by
  refine foldl_reaches (fun values => ∀ w, values[n.index]? = some w → w = n.target.read n.dataType r)
    (fun values (e : Binding) => values.set e.index (e.target.read e.dataType r)) n _ values
    ((table.mem_of_program _ _ n).mpr ⟨bound, rfl, input⟩) (fun start w found => ?_)
    (fun e member other start kept w found => ?_) w found
  · rw [List.getElem?_set_self'] at found
    obtain ⟨_, _, same⟩ := Option.map_eq_some_iff.mp found
    exact same.symm
  · obtain ⟨listed, own, _⟩ := (table.mem_of_program _ _ e).mp member
    have apart : e.index ≠ n.index := fun same =>
      other (List.inj_on_of_nodup_map distinct listed bound (Prod.ext own same))
    rw [List.getElem?_set_ne apart] at found
    exact kept w found

end Bindings

namespace Controller

variable (c : Controller)

theorem outputs_shown (i : Fin slotCount) (o : Binding) (bound : o ∈ c.bindings) (own : o.program = i.val)
    (output : o.direction = .output) (exact : o.target.isBit = false ∨ o.dataType = .bool)
    (checked : c.bindings.Checked) (alone : c.bindings.Alone o) (v : Value)
    (found : (c.programs.get i).values[o.index]? = some v) (type : v.dataType = o.dataType) (r : Registers) :
    o.target.read o.dataType (c.publishStatus (c.writeOutputs r)) = v := by
  have status : o.target.read o.dataType (c.publishStatus (c.writeOutputs r)) =
      o.target.read o.dataType (c.writeOutputs r) := by
    refine o.target.read_kept o.dataType _ _ _ (c.publish_status_differs _) ?_
    rintro cell inside ⟨a, rfl, from_, to_⟩
    have free := c.bindings.drives_unreserved checked a ⟨o, bound, output, inside⟩
    omega
  rw [status]
  refine foldl_reaches (o.target.read o.dataType · = v) _ (i.val, c.programs.get i) _ r
    ((Slots.mem_numbered _ _ _).mpr (Slots.get_some _ i)) (fun s => ?_) ?_
  · exact own ▸ c.bindings.output_shown o alone bound output exact checked _ v found type s
  · rintro ⟨id, p⟩ member other s kept
    have apart : id ≠ o.program := by
      rintro rfl
      rw [own, Slots.mem_numbered, Slots.get_some] at member
      exact other (Prod.ext own (Option.some.inj member).symm)
    exact (c.bindings.other_outputs_kept o alone id apart p.values s).trans kept

theorem tick_left (r left : Registers) (report : Report) (next : Controller)
    (fired : c.tick r = (some report, next, left)) : ∃ written, left = next.publishStatus (next.writeOutputs written) := by
  obtain ⟨_, _, written, _, _, _, _, _, _, rfl, rfl⟩ := c.tick_turned r left report next fired
  exact ⟨written, rfl⟩

-- The controller in a cycle, when the inputs are read and no program has run.
def readied (r : Registers) : Controller := readInputs { c.readClock.2 with lastRun := c.clock.now, quota := 0 } r

theorem tick_readied (r left : Registers) (report : Report) (next : Controller)
    (fired : c.tick r = (some report, next, left)) :
    report.runs = ((c.readied r).runSlots r (List.finRange slotCount)).1 := by
  obtain ⟨_, _, _, _, _, _, _, turns, rfl, _⟩ := c.tick_turned r left report next fired
  exact (congrArg Prod.fst turns).symm

theorem after_all_quiet (history : List Call) (spares : ∀ call ∈ history, call.Tends ∨ ∃ r, call = .tick r) :
    Quiet c (c.afterAll history) := by
  refine List.foldlRecOn (motive := Quiet c) history after c.quiet_refl fun d quiet call member => ?_
  refine c.quiet_trans d _ quiet ?_
  rcases spares call member with tends | ⟨r, rfl⟩
  · exact d.quiet_tended _ (d.after_tended call tends)
  · exact d.quiet_tick r

theorem after_all_reachable (reachable : Reachable c) (history : List Call) : Reachable (c.afterAll history) :=
  List.foldlRecOn (motive := Reachable) history after reachable fun d reachable call _ => .after d call reachable

theorem bound_value (sound : c.Sound) (i : Fin slotCount) (e : Binding) (bound : e ∈ c.bindings)
    (own : e.program = i.val) (b : Bytecode) (compiled : (c.programs.get i).bytecode = some b) :
    ∃ v, (c.programs.get i).values[e.index]? = some v ∧ v.dataType = e.dataType := by
  obtain ⟨v, declared, _, type, _⟩ := (sound.slots i).bindings b compiled e bound own
  obtain ⟨value, found, same⟩ := fits_get b.vars _ e.index v ((sound.slots i).values b compiled) declared
  exact ⟨value, found, same.trans type⟩

theorem readied_program (j : Fin slotCount) (r : Registers) : (c.readied r).programs.get j =
    { c.programs.get j with values := c.bindings.readInputs j r (c.programs.get j).values } :=
  read_inputs_program _ j r

theorem readied_input (sound : c.Sound) (distinct : c.bindings.keys.Nodup) (j : Fin slotCount) (n : Binding)
    (bound : n ∈ c.bindings) (own : n.program = j.val) (input : n.direction = .input) (b : Bytecode)
    (compiled : (c.programs.get j).bytecode = some b) (r : Registers) :
    ((c.readied r).programs.get j).values[n.index]? = some (n.target.read n.dataType r) := by
  have still : ((c.readied r).programs.get j).bytecode = some b := by rw [readied_program, compiled]
  have ready : (c.readied r).Sound := begun_sound c.readClock.2 c.clock.now r ⟨sound.sources, sound.slots⟩
  obtain ⟨w, found, _⟩ := bound_value _ ready j n bound own b still
  have read : (c.bindings.readInputs n.program r (c.programs.get j).values)[n.index]? = some w := by
    rw [readied_program] at found
    rw [own]
    exact found
  rw [found, c.bindings.input_read n bound input distinct r _ w read]

-- Of an output and an input that are bound to the same target, for the same type, a cycle hands over the value:
-- what the output has at its end the input has when the next cycle has read its inputs and has run no program
-- yet, if neither programs nor bindings were made or dropped in between and the cells are as they were left.
-- A value is written to one cell or two, and no other cell of the register space changes.
theorem outputs_reach_inputs (c : Controller) (reachable : Reachable c) (i j : Fin slotCount) (o n : Binding)
    (carries : c.bindings.Carries o n) (source : o.program = i.val) (sink : n.program = j.val)
    (compiled : (c.programs.get i).isCompiled = true ∧ (c.programs.get j).isCompiled = true)
    (r left : Registers) (report : Report) (next : Controller) (fired : c.tick r = (some report, next, left))
    (history : List Call) (spares : ∀ call ∈ history, call.Tends ∨ ∃ r, call = .tick r)
    (s left' : Registers) (untouched : ∀ cell ∈ o.target.cells o.dataType, s.SameAt left cell)
    (report' : Report) (next' : Controller) (again : (next.afterAll history).tick s = (some report', next', left')) :
    let readied := (next.afterAll history).readied s
    (report'.runs = (readied.runSlots s (List.finRange slotCount)).1 ∧
      ∃ v, v.dataType = o.dataType ∧ (next.programs.get i).values[o.index]? = some v ∧
        (readied.programs.get j).values[n.index]? = some v) ∧
    ∀ target v r, (Target.cells v.dataType target).length ≤ 2 ∧
      ∀ cell ∉ target.cells v.dataType, (target.write v r).SameAt r cell := by
  intro readied
  refine ⟨⟨tick_readied _ s left' report' next' again, ?_⟩,
    fun target v r => ⟨target.cells_few v.dataType, target.write_differs v r⟩⟩
  obtain ⟨⟨bound, output⟩, ⟨listed, input⟩, target, dataType, exact, alone⟩ := carries
  obtain ⟨⟨b, writer⟩, b', reader⟩ := compiled.imp Option.isSome_iff_exists.mp Option.isSome_iff_exists.mp
  have ticked : next = c.after (.tick r) := by rw [after, fired]
  have cycled : Quiet c next := ticked ▸ c.quiet_tick r
  have passed := next.after_all_quiet history spares
  have began : Reachable next := ticked ▸ .after c _ reachable
  have came := next.after_all_reachable began history
  -- The table is the same in all three controllers, so each may be asked for what holds of it.
  obtain ⟨v, found, type⟩ := next.bound_value (reachable_sound next began) i o (cycled.bindings ▸ bound) source b
    ((cycled.bytecode i).trans writer)
  obtain ⟨written, rfl⟩ := c.tick_left r left report next fired
  have shown := next.outputs_shown i o (cycled.bindings ▸ bound) source output exact
    (reachable_exporting next began).checked (cycled.bindings ▸ alone) v found type written
  have whole := c.quiet_trans next _ cycled passed
  have read := readied_input _ (reachable_sound _ came) (reachable_tallied _ came).tidy.distinct j n
    (whole.bindings ▸ listed) sink input b' ((whole.bytecode j).trans reader) s
  refine ⟨v, type, found, read.trans (congrArg some ?_)⟩
  rw [target, dataType, o.target.read_same o.dataType s _ untouched, shown]

def tenths : Bytes := "VAR_OUTPUT level : REAL; END_VAR level := level + 0.1;".toUTF8.toList

def gauge : Bytes := "VAR_INPUT seen : REAL; END_VAR VAR kept : REAL; END_VAR kept := seen;".toUTF8.toList

def givenLevel : Binding := ⟨0, "LEVEL", 0, .real, .output, .holding 5⟩

def seenLevel : Binding := ⟨1, "SEEN", 0, .real, .input, .holding 5⟩

def gauged : Controller := afterAll {}
  [.upload 0 tenths, .compile 0, .enable 0 true, .upload 1 gauge, .compile 1, .bind 0 "level" (.holding 5),
    .bind 1 "seen" (.holding 5), .wait (.steady 10000 0)]

-- A tenth has no exact value, and is carried with all its bits while the register in front is written to.
theorem gauge_sees_level :
    let c := gauged
    Reachable c ∧ c.bindings.Carries givenLevel seenLevel ∧ ∃ report next left, c.tick {} = (some report, next, left) ∧
      left.holdingAt 5 = 0xCCCD ∧ left.holdingAt 6 = 0x3DCC ∧
      let later := next.afterAll [.tick left, .wait (.steady 20000 0)]
      let s := left.setHolding 4 7
      (later.tick s).1.isSome = true ∧ ∃ v, v.dataType = .real ∧ (next.programs.get firstSlot).values[0]? = some v ∧
        ((later.readied s).programs.get secondSlot).values[0]? = some v := by
  intro c
  let next := (c.tick {}).2.1
  let left := (c.tick {}).2.2
  let between : List Call := [.tick left, .wait (.steady 20000 0)]
  have reachable : Reachable c := (reachable_iff_history _).mpr ⟨{}, {}, _, rfl⟩
  obtain ⟨table, compiled, shown, fires, later⟩ : c.bindings = [givenLevel, seenLevel] ∧
      ((c.programs.get firstSlot).isCompiled = true ∧ (c.programs.get secondSlot).isCompiled = true) ∧
        (left.holdingAt 5 = 0xCCCD ∧ left.holdingAt 6 = 0x3DCC) ∧ (c.tick {}).1.isSome = true ∧
        ((next.afterAll between).tick (left.setHolding 4 7)).1.isSome = true := by decide +kernel
  have carries : c.bindings.Carries givenLevel seenLevel := by
    rw [table]
    refine ⟨by decide, by decide, rfl, rfl, .inl rfl, fun e bound output other => ?_⟩
    simp only [List.mem_cons, List.not_mem_nil, or_false] at bound
    rcases bound with rfl | rfl
    · exact absurd rfl other
    · cases output
  have spares : ∀ call ∈ between, call.Tends ∨ ∃ r, call = .tick r := by
    intro call member
    simp only [between, List.mem_cons, List.not_mem_nil, or_false] at member
    rcases member with rfl | rfl
    · exact .inr ⟨left, rfl⟩
    · exact .inl trivial
  have untouched : ∀ cell ∈ givenLevel.target.cells givenLevel.dataType, (left.setHolding 4 7).SameAt left cell :=
    fun cell inside => left.holding_differs 4 7 cell fun same => absurd (same ▸ inside) (by decide)
  obtain ⟨report, ticked⟩ := Option.isSome_iff_exists.mp fires
  obtain ⟨report', again⟩ := Option.isSome_iff_exists.mp later
  have fired : c.tick {} = (some report, next, left) := Prod.ext ticked rfl
  refine ⟨reachable, carries, report, next, left, fired, shown.1, shown.2, later, ?_⟩
  exact (outputs_reach_inputs c reachable firstSlot secondSlot givenLevel seenLevel carries rfl rfl compiled {} left
    report next fired between spares (left.setHolding 4 7) _ untouched report' _ (Prod.ext again rfl)).1.2

end Controller

end SoftPlc
