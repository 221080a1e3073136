import SoftPlc.Proofs.Configuration.Codec
import SoftPlc.Proofs.Controller.Cycle

set_option autoImplicit false

namespace SoftPlc

structure KeptSlot where
  name : String
  enabled : Bool
  source : Option Bytes
  bytecode : Option Bytecode
  values : List Value

-- What a configuration is to keep of a controller. Clocks, statistics, errors, bindings, export
-- registers and the state of the debuggers are no part of it.
structure Kept where
  interval : Interval
  enabled : Bool
  debug : Bool
  slots : Fin slotCount → KeptSlot

namespace Controller

open SoftPlc.Configuration

def kept (c : Controller) : Kept where
  interval := c.settings.interval
  enabled := c.settings.enabled
  debug := c.settings.debug
  slots i :=
    { name := (c.programs.get i).name
      enabled := (c.programs.get i).enabled
      source := c.sources.source? i
      bytecode := (c.programs.get i).bytecode
      values := (c.programs.get i).values }

def NamesFit (c : Controller) : Prop :=
  ∀ i : Fin slotCount, Short (c.programs.get i).name ∧ ∀ b, (c.programs.get i).bytecode = some b → ShortNames b

def recordAt (c : Controller) (i : Fin slotCount) : Record :=
  recordOf (c.programs.get i) ((c.sources.source? i).getD [])

section
variable (c : Controller)

theorem contents_records : (contentsOf c).records = (List.finRange slotCount).map c.recordAt := by
  rw [contentsOf, Slots.numbered_fin, List.map_map]
  rfl

theorem source_fits (sound : c.Sound) (i : Nat) : ((c.sources.source? i).getD []).length ≤ SourceArena.capacity := by
  cases found : c.sources.source? i with
  | none => exact Nat.zero_le _
  | some bytes =>
    obtain ⟨_, r, region, size⟩ := c.sources.source_length sound.sources i bytes found
    have stop := (sound.sources.inside i r region).2
    unfold Region.stop at stop
    simp only [Option.getD_some]
    omega

theorem record_at_sound (sound : c.Sound) (fit : c.NamesFit) (i : Fin slotCount) : (c.recordAt i).Sound := by
  obtain ⟨name, names⟩ := fit i
  refine ⟨name, ?_, ?_⟩
  · exact Nat.lt_of_le_of_lt (c.source_fits sound i) (by decide)
  · intro b values compiled
    obtain ⟨installed, found, same⟩ := Option.map_eq_some_iff.mp compiled
    cases same
    exact ⟨(sound.slots i).sound b found, (sound.slots i).values b found, names b found⟩

theorem stored_source (sound : c.Sound) (i : Nat) : stored ((c.sources.source? i).getD []) = c.sources.source? i := by
  cases found : c.sources.source? i with
  | none => rfl
  | some bytes =>
    have positive := (c.sources.source_length sound.sources i bytes found).1
    exact if_neg (List.length_pos_iff.mp positive)

theorem arena_of_saved (sound : c.Sound) : ∃ sources, arenaOf {} (numbered (contentsOf c).records) = .ok sources ∧
    ∀ i : Fin slotCount, sources.source? i = c.sources.source? i := by
  have total : ((List.finRange slotCount).map fun i => (c.recordAt i).source.length).sum = c.sources.used := by
    rw [c.sources.used_total sound.sources, ← List.ofFn_eq_map, List.sum_ofFn]
    rfl
  have room : SourceArena.used {} + c.sources.used ≤ SourceArena.capacity := by
    have within := c.sources.used_within sound.sources
    have none : SourceArena.used {} = 0 := by decide
    omega
  rw [c.contents_records, numbered_fin]
  obtain ⟨sources, made⟩ := arena_of_accepts c.recordAt _ {} SourceArena.sound_empty (total.symm ▸ room)
  obtain ⟨_, texts⟩ := arena_of_ok c.recordAt _ {} sources SourceArena.sound_empty (List.nodup_finRange _) made
  refine ⟨sources, made, fun i => ?_⟩
  rw [texts i, if_pos (List.mem_finRange i)]
  exact c.stored_source sound i

theorem record_at_compiled (sound : c.Sound) (i : Fin slotCount) :
    (c.recordAt i).compiled.map (·.1) = (c.programs.get i).bytecode ∧
      ((c.recordAt i).compiled.map (·.2)).getD [] = (c.programs.get i).values := by
  have compiled : (c.recordAt i).compiled = (c.programs.get i).bytecode.map (·, (c.programs.get i).values) := rfl
  rw [compiled]
  cases found : (c.programs.get i).bytecode with
  | none => exact ⟨rfl, ((sound.slots i).empty found).1.symm⟩
  | some b => exact ⟨rfl, rfl⟩

theorem taken_over_kept (target : Controller) (sound : c.Sound) (sources : SourceArena)
    (texts : ∀ i : Fin slotCount, sources.source? i = c.sources.source? i) :
    (target.takeOver (contentsOf c) sources).kept = c.kept := by
  have slots (i : Fin slotCount) : (target.takeOver (contentsOf c) sources).kept.slots i = c.kept.slots i := by
    obtain ⟨name, enabled, bytecode, values⟩ :=
      target.take_over_programs (contentsOf c) sources c.recordAt c.contents_records i
    obtain ⟨compiled, current⟩ := c.record_at_compiled sound i
    simp only [kept, KeptSlot.mk.injEq]
    exact ⟨name, enabled, texts i, bytecode.trans compiled, values.trans current⟩
  simp only [kept, Kept.mk.injEq]
  exact ⟨rfl, rfl, rfl, funext slots⟩

theorem load_save (target : Controller) (sound : c.Sound) (fit : c.NamesFit) :
    ∃ restored, target.load c.save = (.ok (), restored) ∧ restored.kept = c.kept := by
  have storable : ∀ r ∈ (contentsOf c).records, r.Sound := by
    rw [c.contents_records]
    intro r member
    obtain ⟨i, _, rfl⟩ := List.mem_map.mp member
    exact c.record_at_sound sound fit i
  obtain ⟨sources, made, texts⟩ := c.arena_of_saved sound
  refine ⟨target.takeOver (contentsOf c) sources, ?_, c.taken_over_kept target sound sources texts⟩
  simp only [load, read_save c storable, made]

theorem kept_names_fit (restored : Controller) (same : restored.kept = c.kept) (fit : restored.NamesFit) :
    c.NamesFit := by
  intro i
  have slot : restored.kept.slots i = c.kept.slots i := by rw [same]
  simp only [kept, KeptSlot.mk.injEq] at slot
  obtain ⟨name, _, _, bytecode, _⟩ := slot
  rw [← name, ← bytecode]
  exact fit i

theorem loaded_names_fit (restored : Controller) (blob : Bytes) (loaded : c.load blob = (.ok (), restored)) :
    restored.NamesFit := by
  obtain ⟨k, sources, accepted, _, rfl⟩ := c.load_ok restored blob loaded
  obtain ⟨length, each⟩ := read_sound blob k accepted
  obtain ⟨record, records⟩ := records_fin k.records length
  intro i
  have holds := each (record i) (records ▸ List.mem_map_of_mem (List.mem_finRange i))
  obtain ⟨name, _, bytecode, _⟩ := c.take_over_programs k sources record records i
  refine ⟨name ▸ holds.name, ?_⟩
  intro b installed
  obtain ⟨both, compiled, same⟩ := Option.map_eq_some_iff.mp (bytecode.symm.trans installed)
  exact same ▸ (holds.compiled both.1 both.2 compiled).2.2

end

theorem fresh_slots : ∀ i : Fin slotCount,
    Short ((Controller.programs {}).get i).name ∧ ((Controller.programs {}).get i).bytecode = none := by
  unfold Short
  decide +kernel

def holding (i : Fin slotCount) (text : String) : Controller :=
  (Controller.after {} (.upload i text.toUTF8.toList)).after (.compile i)

theorem holding_reachable (i : Fin slotCount) (text : String) : Reachable (holding i text) :=
  .after _ _ (.after _ _ (.initial {} {}))

section
variable (i : Fin slotCount) (text : String) (b : Bytecode) (nonempty : 0 < text.utf8ByteSize)
  (room : text.utf8ByteSize ≤ SourceArena.capacity) (compiled : SoftPlc.compile text = .ok b)
include nonempty room compiled

theorem holding_programs : ∃ p, (holding i text).programs = (Controller.programs {}).put i p ∧
    p.name = ((Controller.programs {}).get i).name ∧ p.bytecode = some b := by
  have within : SourceArena.heldByOthers {} i + text.toUTF8.toList.length ≤ SourceArena.capacity := by
    have none := SourceArena.held_by_others_le {} SourceArena.sound_empty i
    have unused : SourceArena.used {} = 0 := by decide
    rw [text_length]
    omega
  obtain ⟨sources, uploaded⟩ := SourceArena.upload_accepts {} i _ SourceArena.sound_empty i.isLt within
  obtain ⟨_, texts⟩ := SourceArena.upload_ok {} sources i _ SourceArena.sound_empty uploaded
  have letters : text.toUTF8.toList ≠ [] := List.length_pos_iff.mp (text_length text ▸ nonempty)
  have source := texts i
  rw [if_pos rfl, if_neg letters] at source
  have stored : Controller.after {} (.upload i text.toUTF8.toList) = { sources := sources : Controller } := by
    simp only [after, upload, withSlot, check_id_fin, uploaded]
  have made : compileSource { sources := sources : Controller } i = .ok b := by
    simp only [compileSource, source, Option.bind_some, text_of_bytes, compiled]
  unfold holding
  rw [stored]
  simp only [after, compile, withSlot, check_id_fin, made]
  exact install_programs _ i b

theorem holding_names_fit : (holding i text).NamesFit ↔ ShortNames b := by
  obtain ⟨p, programs, name, bytecode⟩ := holding_programs i text b nonempty room compiled
  unfold NamesFit
  rw [programs]
  constructor
  · intro fit
    have names := (fit i).2 b
    rw [Slots.get_put_self] at names
    exact names bytecode
  · intro short j
    by_cases same : i = j
    · subst same
      rw [Slots.get_put_self]
      exact ⟨name ▸ (fresh_slots i).1, fun b' found => Option.some.inj (bytecode.symm.trans found) ▸ short⟩
    · rw [Slots.get_put_other _ i j p same]
      refine ⟨(fresh_slots j).1, fun b' found => ?_⟩
      cases (fresh_slots j).2.symm.trans found

end

-- What a configuration keeps comes back whole exactly where each name fits the length byte in front of it; a longer one
-- is cut where it is written.
theorem load_save_iff_names_fit (c : Controller) (reachable : Reachable c) (target : Controller) :
    (∃ restored, target.load c.save = (.ok (), restored) ∧ restored.kept = c.kept) ↔ c.NamesFit := by
  constructor
  · rintro ⟨restored, loaded, same⟩
    exact c.kept_names_fit restored same (target.loaded_names_fit restored c.save loaded)
  · intro fit
    exact c.load_save target (reachable_sound c reachable) fit

theorem held_function_is_restored :
    let c := holding ⟨2, by decide⟩ "VAR r : REAL := 2; b : BOOL; END_VAR b := SQRT(r) > 1;"
    ∃ restored, Controller.load {} c.save = (.ok (), restored) ∧ restored.kept = c.kept := by
  intro c
  obtain ⟨b, compiled, short⟩ := Compile.accepted_with
    "VAR r : REAL := 2; b : BOOL; END_VAR b := SQRT(r) > 1;"
    (fun b => b.name = none ∧ ∀ v ∈ b.vars, v.name.utf8ByteSize ≤ 255) (by decide +kernel)
  apply (load_save_iff_names_fit c (holding_reachable _ _) {}).mpr
  apply (holding_names_fit _ _ b (by decide +kernel) (by decide +kernel) compiled).mpr
  refine ⟨fun s named => ?_, short.2⟩
  cases short.1.symm.trans named

def longNamed : List Char :=
  "VAR ".toList ++ List.replicate 256 'A' ++ " : INT; END_VAR".toList

theorem long_name_is_not_restored :
    let c := holding ⟨0, by decide⟩ (String.ofList longNamed)
    Reachable c ∧ ∀ target restored : Controller,
      target.load c.save = (.ok (), restored) → restored.kept ≠ c.kept := by
  intro c
  refine ⟨holding_reachable _ _, fun target restored loaded same => ?_⟩
  have compiles : ∃ b, SoftPlc.compile (String.ofList longNamed) = .ok b ∧ b.vars.map (·.name.utf8ByteSize) = [256] := by
    apply Compile.accepted_with
    simp only [SoftPlc.compile, scan, String.toList_ofList]
    decide +kernel
  obtain ⟨b, compiled, lengths⟩ := compiles
  have fit := c.kept_names_fit restored same (target.loaded_names_fit restored c.save loaded)
  have short := (holding_names_fit _ _ b (by decide +kernel) (by decide +kernel) compiled).mp fit
  have long : 256 ∈ b.vars.map (·.name.utf8ByteSize) := by
    rw [lengths]
    exact List.mem_singleton_self 256
  obtain ⟨v, declared, size⟩ := List.mem_map.mp long
  have fits := short.2 v declared
  unfold Short at fits
  omega

end Controller

namespace Controller

open SoftPlc.Configuration

theorem save_of_kept (c c' : Controller) (same : c.kept = c'.kept) : c.save = c'.save := by
  have interval : c.settings.interval = c'.settings.interval := congrArg Kept.interval same
  have enabled : c.settings.enabled = c'.settings.enabled := congrArg Kept.enabled same
  have debug : c.settings.debug = c'.settings.debug := congrArg Kept.debug same
  have flags : flagsByte c.settings = flagsByte c'.settings := by rw [flagsByte, flagsByte, enabled, debug]
  have record (i : Fin slotCount) : recordBytes (c.programs.get i) ((c.sources.source? i).getD []) =
      recordBytes (c'.programs.get i) ((c'.sources.source? i).getD []) := by
    have slot : c.kept.slots i = c'.kept.slots i := congrFun (congrArg Kept.slots same) i
    simp only [kept, KeptSlot.mk.injEq] at slot
    obtain ⟨name, running, source, bytecode, values⟩ := slot
    rw [recordBytes, recordBytes, name, running, source, bytecode, values]
  have body : bodyBytes c = bodyBytes c' := by
    rw [bodyBytes, bodyBytes, interval, flags, Slots.numbered_fin, Slots.numbered_fin, List.flatMap_map,
      List.flatMap_map]
    simp only [record]
  rw [save, save, body]

-- Whoever wrote the bytes: what a load passes over and values of another type are put right by it once and for all.
theorem load_is_stable (c loaded target : Controller) (blob : Bytes) (accepted : c.load blob = (.ok (), loaded)) :
    ∃ restored, target.load loaded.save = (.ok (), restored) ∧ restored.kept = loaded.kept ∧
      restored.save = loaded.save := by
  have sound := c.loaded_sound loaded blob accepted
  have fit := c.loaded_names_fit loaded blob accepted
  obtain ⟨restored, again, same⟩ := loaded.load_save target sound fit
  exact ⟨restored, again, same, restored.save_of_kept loaded same⟩

-- Flags that stand for nothing, an instruction with bytes that it does not use, one that there is
-- not, a truth value of two and an integer in a variable for truth values.
def strayBody : Bytes :=
  magic ++ littleEndian16 version ++ [50, 0] ++ [0xF5] ++
    [1, 80, 1, 2, 0, 59, 59, 1, 0, 2, 0] ++ [0x00, 1, 9, 9, 9, 9] ++ [0x77, 2, 1, 2, 3, 4] ++
    [1, 1, 66, 0, 0, 1] ++ [0, 2, 0, 0, 0] ++ [1, 3, 0, 0, 0] ++
    [0, 0, 0, 0, 0] ++ [0, 0, 0, 0, 0] ++ [0, 0, 0, 0, 0]

def strayBlob : Bytes := strayBody ++ littleEndian32 (Checksum.ofBytes strayBody)

theorem stray_blob_is_stable : ∃ loaded, Controller.load {} strayBlob = (.ok (), loaded) ∧ loaded.save ≠ strayBlob ∧
    ∃ restored, Controller.load {} loaded.save = (.ok (), restored) ∧ restored.kept = loaded.kept ∧
      restored.save = loaded.save := by
  have accepted : (Controller.load {} strayBlob).1 = .ok () := by decide +kernel
  have other : (Controller.load {} strayBlob).2.save ≠ strayBlob := by decide +kernel
  cases answer : Controller.load {} strayBlob with
  | mk result loaded =>
    rw [answer] at accepted other
    subst accepted
    exact ⟨loaded, rfl, other, load_is_stable {} loaded {} strayBlob answer⟩

end Controller

end SoftPlc
