import SoftPlc.Configuration.Reader
import SoftPlc.Proofs.Bytecode.Sound
import SoftPlc.Proofs.Store.Slots

set_option autoImplicit false

namespace SoftPlc.Configuration

def Reads {α : Type} (reader : Reader α) (bytes : Bytes) (x : α) : Prop :=
  ∀ rest, reader (bytes ++ rest) = .ok (x, rest)

section
variable {α β : Type}

theorem reads_pure (x : α) : Reads (pure x) [] x := fun _ => rfl

theorem bind_of_reads (reader : Reader α) (next : α → Reader β) (front rest : Bytes) (x : α)
    (first : Reads reader front x) : (reader >>= next) (front ++ rest) = next x rest := by
  have read := first rest
  simp only [bind, StateT.bind, read, Except.bind]

theorem reads_bind (reader : Reader α) (next : α → Reader β) (front back : Bytes) (x : α) (y : β)
    (first : Reads reader front x) (second : Reads (next x) back y) :
    Reads (reader >>= next) (front ++ back) y := by
  intro rest
  rw [List.append_assoc]
  exact (bind_of_reads reader next front (back ++ rest) x first).trans (second rest)

theorem reads_then (reader : Reader α) (next : α → Reader β) (bytes : Bytes) (x : α) (y : β)
    (first : Reads reader bytes x) (second : Reads (next x) [] y) : Reads (reader >>= next) bytes y := by
  have both := reads_bind reader next bytes [] x y first second
  rwa [List.append_nil] at both

theorem reads_unless (refused : Prop) [Decidable refused] (refusing reader : Reader α) (bytes : Bytes) (x : α)
    (allowed : ¬ refused) (reads : Reads reader bytes x) :
    Reads (if refused then refusing else reader) bytes x := by
  rw [if_neg allowed]
  exact reads

theorem reads_several (reader : Reader β) (bytes : α → Bytes) (x : α → β) (items : List α)
    (each : ∀ a ∈ items, Reads reader (bytes a) (x a)) :
    Reads (several reader items.length) (items.flatMap bytes) (items.map x) := by
  induction items with
  | nil => exact reads_pure []
  | cons a items ih =>
    have others := ih (fun c member => each c (List.mem_cons_of_mem a member))
    exact reads_bind _ _ _ _ (x a) _ (each a List.mem_cons_self)
      (reads_then _ _ _ (items.map x) _ others (reads_pure _))

end

theorem reads_byte (b : UInt8) : Reads byte [b] b := fun _ => rfl

theorem reads_take (bytes : Bytes) (count : Nat) (length : bytes.length = count) :
    Reads (take count) bytes bytes := by
  intro rest
  have enough : ¬ (bytes ++ rest).length < count := by simp [length]
  rw [take, if_neg enough, List.take_left' length, List.drop_left' length]

theorem of_little_endian_16 (n : UInt16) : ofLittleEndian16 n.toUInt8 (n >>> 8).toUInt8 = n := by
  have eight : UInt16.toBitVec 8 % 16 = 8#16 := rfl
  rw [← UInt16.toBitVec_inj]
  apply BitVec.eq_of_getLsbD_eq
  intro i inside
  simp only [ofLittleEndian16, UInt16.toBitVec_or, UInt16.toBitVec_shiftLeft, UInt8.toBitVec_toUInt16,
    UInt16.toBitVec_toUInt8, UInt16.toBitVec_shiftRight, eight, BitVec.getLsbD_or, BitVec.shiftLeft_eq',
    BitVec.ushiftRight_eq', BitVec.getLsbD_shiftLeft, BitVec.getLsbD_setWidth, BitVec.getLsbD_ushiftRight,
    BitVec.toNat_ofNat, Nat.reducePow, Nat.reduceMod]
  grind

theorem reads_word (n : UInt16) : Reads word (littleEndian16 n) n := by
  intro rest
  simp only [littleEndian16, List.cons_append, List.nil_append, word, of_little_endian_16]

theorem reads_double_word (n : UInt32) : Reads doubleWord (littleEndian32 n) n := by
  intro rest
  simp only [littleEndian32, List.cons_append, List.nil_append, doubleWord, of_little_endian_32]

theorem reads_flag (b : Bool) : Reads flag [flagByte b] b := by
  cases b with
  | false => exact reads_then _ _ _ _ _ (reads_byte 0) (reads_pure false)
  | true => exact reads_then _ _ _ _ _ (reads_byte 1) (reads_pure true)

def Short (s : String) : Prop := s.utf8ByteSize ≤ 255

theorem bytes_to_list_loop (bytes : ByteArray) (i : Nat) (taken : List UInt8) :
    ByteArray.toList.loop bytes i taken = taken.reverse ++ bytes.data.toList.drop i := by
  fun_induction ByteArray.toList.loop bytes i taken with
  | case1 i taken inside ih =>
    have here : i < bytes.data.toList.length := inside
    have first : bytes.get! i = bytes.data.toList[i] := getElem!_pos bytes.data i inside
    rw [ih, List.reverse_cons, List.append_assoc, List.singleton_append, first, List.getElem_cons_drop]
  | case2 i taken outside =>
    have behind : bytes.data.toList.length ≤ i := Nat.not_lt.mp outside
    rw [List.drop_eq_nil_of_le behind, List.append_nil]

theorem bytes_to_list (bytes : ByteArray) : bytes.toList = bytes.data.toList :=
  bytes_to_list_loop bytes 0 []

theorem text_of_bytes (s : String) : Controller.textOf? s.toUTF8.toList = some s := by
  have valid : s.toUTF8.IsValidUTF8 := s.isValidUTF8
  have whole : ByteArray.mk s.toUTF8.toList.toArray = s.toUTF8 := by rw [bytes_to_list]
  rw [Controller.textOf?, whole, String.fromUTF8?, dif_pos valid]
  rfl

theorem bytes_of_text (bytes : Bytes) (s : String) (text : Controller.textOf? bytes = some s) :
    s.toUTF8.toList = bytes := by
  unfold Controller.textOf? String.fromUTF8? at text
  split at text
  · cases text
    rw [bytes_to_list]
    rfl
  · cases text

theorem text_length (s : String) : s.toUTF8.toList.length = s.utf8ByteSize := by
  rw [bytes_to_list]
  rfl

theorem reads_text (s : String) (short : Short s) : Reads text (shortText s) s := by
  have length : s.toUTF8.toList.length ≤ 255 := text_length s ▸ short
  have count : (UInt8.ofNat s.toUTF8.toList.length).toNat = s.toUTF8.toList.length :=
    UInt8.toNat_ofNat_of_lt' (Nat.lt_succ_of_le length)
  rw [shortText, List.take_of_length_le length]
  apply reads_bind _ _ [_] _ _ _ (reads_byte _)
  apply reads_then _ _ _ _ _ (reads_take _ _ count.symm)
  simp only [text_of_bytes]
  exact reads_pure s

theorem reads_data_type (t : DataType) : Reads dataType [t.code] t := by
  apply reads_then _ _ _ _ _ (reads_byte t.code)
  simp only [DataType.ofCode?_code]
  exact reads_pure t

theorem reads_value (v : Value) : Reads value (valueBytes v) v := by
  apply reads_bind _ _ [_] _ _ _ (reads_data_type v.dataType)
  apply reads_then _ _ _ _ _ (reads_double_word v.bits)
  rw [Value.of_bits_bits]
  exact reads_pure v

theorem reads_class (c : VariableClass) : Reads variableClass [classCode c] c := by
  apply reads_then _ _ _ _ _ (reads_byte (classCode c))
  cases c <;> exact reads_pure _

theorem reads_variable (v : Variable) (current : Value) (short : Short v.name)
    (initial : v.initial.dataType = v.dataType) (typed : current.dataType = v.dataType) :
    Reads variableEntry (variableBytes v current) (v, current) := by
  simp only [variableBytes, List.append_assoc]
  apply reads_bind _ _ _ _ _ _ (reads_text v.name short)
  apply reads_bind _ _ [_] _ _ _ (reads_data_type v.dataType)
  apply reads_bind _ _ [_] _ _ _ (reads_class v.variableClass)
  apply reads_bind _ _ [_] _ _ _ (reads_flag v.exported)
  apply reads_bind _ _ _ _ _ _ (reads_value v.initial)
  apply reads_then _ _ _ _ _ (reads_value current)
  have first : v.initial.cast v.dataType = v.initial := by rw [← initial, Value.cast_self]
  have second : current.cast v.dataType = current := by rw [← typed, Value.cast_self]
  rw [first, second]
  exact reads_pure _

theorem reads_instruction (i : Instruction) (fits : i.Encodable) : Reads instruction i.image.toBytes i := by
  apply reads_then _ _ _ _ _ (reads_take i.image.toBytes 6 rfl)
  simp only [Image.of_bytes_bytes, i.image_instruction fits]
  exact reads_pure i

theorem reads_program_name (name : Option String) (short : ∀ s, name = some s → Short s) :
    Reads programName (nameBytes name) name := by
  cases name with
  | none => exact reads_then _ _ _ _ _ (reads_flag false) (reads_pure none)
  | some s =>
    apply reads_bind _ _ [_] _ _ _ (reads_flag true)
    exact reads_then _ _ _ _ _ (reads_text s (short s rfl)) (reads_pure _)

theorem variables_bytes_zip (vars : List Variable) (values : List Value) (same : values.length = vars.length) :
    variablesBytes vars values = (vars.zip values).flatMap fun entry => variableBytes entry.1 entry.2 := by
  induction vars generalizing values with
  | nil => rfl
  | cons v vars ih =>
    cases values with
    | nil => cases same
    | cons x values =>
      rw [variablesBytes, List.zip_cons_cons, List.flatMap_cons, ih values (Nat.succ.inj same)]

def ShortNames (b : Bytecode) : Prop := (∀ s, b.name = some s → Short s) ∧ ∀ v ∈ b.vars, Short v.name

theorem fits_length (vars : List Variable) (values : List Value) (fits : Fits vars values) :
    values.length = vars.length := by
  have lengths := congrArg List.length fits
  simpa using lengths

theorem reads_entries (vars : List Variable) (values : List Value)
    (typed : ∀ v ∈ vars, v.initial.dataType = v.dataType) (fits : Fits vars values)
    (short : ∀ v ∈ vars, Short v.name) :
    Reads (several variableEntry (vars.zip values).length) (variablesBytes vars values) (vars.zip values) := by
  have same := fits_length vars values fits
  have each (entry : Variable × Value) (member : entry ∈ vars.zip values) :
      Reads variableEntry (variableBytes entry.1 entry.2) (id entry) := by
    obtain ⟨i, found⟩ := List.mem_iff_getElem?.mp member
    obtain ⟨declared, current⟩ := List.getElem?_zip_eq_some.mp found
    obtain ⟨x, there, type⟩ := fits_get vars values i entry.1 fits declared
    cases there.symm.trans current
    have known := List.mem_of_getElem? declared
    exact reads_variable entry.1 entry.2 (short _ known) (typed _ known) type
  have all := reads_several variableEntry _ id (vars.zip values) each
  rwa [List.map_id, ← variables_bytes_zip vars values same] at all

theorem reads_bytecode (b : Bytecode) (values : List Value) (sound : b.Sound) (fits : Fits b.vars values)
    (short : ShortNames b) : Reads bytecode (bytecodeBytes b values) (b, values) := by
  have same := fits_length b.vars values fits
  have positive : 0 < b.code.length := List.length_pos_iff.mpr sound.nonempty
  have room : b.code.length ≤ 1024 := sound.room
  have few : b.vars.length ≤ 32 := sound.few
  have count : (UInt16.ofNat b.code.length).toNat = b.code.length :=
    UInt16.toNat_ofNat_of_lt' (by simp only [UInt16.size]; omega)
  have entries : (UInt8.ofNat b.vars.length).toNat = (b.vars.zip values).length := by
    rw [List.length_zip, same, Nat.min_self]
    exact UInt8.toNat_ofNat_of_lt' (by simp only [UInt8.size]; omega)
  have counted : ¬ (UInt16.ofNat b.code.length = 0 ∨ Bytecode.maxInstructions < (UInt16.ofNat b.code.length).toNat) := by
    rintro (zero | more)
    · rw [zero, UInt16.toNat_zero] at count
      omega
    · rw [count] at more
      exact absurd more (Nat.not_lt.mpr room)
  have code := reads_several instruction (·.image.toBytes) id b.code
    (fun i member => reads_instruction i (sound.encodable i member))
  rw [List.map_id, ← count] at code
  simp only [bytecodeBytes, List.append_assoc]
  apply reads_bind _ _ _ _ _ _ (reads_program_name b.name short.1)
  apply reads_bind _ _ _ _ _ _ (reads_word _)
  apply reads_unless _ _ _ _ _ counted
  apply reads_bind _ _ _ _ _ _ code
  apply reads_bind _ _ [_] _ _ _ (reads_byte _)
  rw [entries]
  apply reads_unless _ _ _ _ _ (by rw [List.length_zip, same, Nat.min_self]; exact Nat.not_lt.mpr few)
  apply reads_then _ _ _ _ _ (reads_entries b.vars values sound.typed fits short.2)
  rw [List.map_fst_zip (Nat.le_of_eq same.symm), List.map_snd_zip (Nat.le_of_eq same)]
  exact reads_pure _

structure Record.Sound (r : Record) : Prop where
  name : Short r.name
  source : r.source.length < 2 ^ 16
  compiled : ∀ b values, r.compiled = some (b, values) → b.Sound ∧ Fits b.vars values ∧ ShortNames b

def recordOf (p : LogicProgram) (source : Bytes) : Record where
  name := p.name
  enabled := p.enabled
  source := source
  compiled := p.bytecode.map (·, p.values)

theorem reads_record (p : LogicProgram) (source : Bytes) (storable : (recordOf p source).Sound) :
    Reads record (recordBytes p source) (recordOf p source) := by
  have count : (UInt16.ofNat source.length).toNat = source.length :=
    UInt16.toNat_ofNat_of_lt' storable.source
  simp only [recordBytes, longBytes, List.append_assoc]
  apply reads_bind _ _ _ _ _ _ (reads_text p.name storable.name)
  apply reads_bind _ _ [_] _ _ _ (reads_flag p.enabled)
  apply reads_bind _ _ _ _ _ _ (reads_word _)
  apply reads_bind _ _ _ _ _ _ (reads_take source _ count.symm)
  have inside := storable.compiled
  unfold recordOf at inside ⊢
  cases compiled : p.bytecode with
  | none => exact reads_then _ _ _ _ _ (reads_flag false) (reads_pure _)
  | some b =>
    obtain ⟨sound, fits, short⟩ := inside b p.values (by simp [compiled])
    apply reads_bind _ _ [_] _ _ _ (reads_flag true)
    exact reads_then _ _ _ _ _ (reads_then _ _ _ _ _ (reads_bytecode b p.values sound fits short) (reads_pure _))
      (reads_pure _)

theorem reads_flags (s : Settings) :
    (flagsByte s &&& 1 != 0) = s.enabled ∧ (flagsByte s &&& 2 != 0) = s.debug := by
  unfold flagsByte
  cases s.enabled <;> cases s.debug <;> decide

def contentsOf (c : Controller) : Contents where
  interval := c.settings.interval
  enabled := c.settings.enabled
  debug := c.settings.debug
  records := c.programs.numbered.map fun (id, p) => recordOf p ((c.sources.source? id).getD [])

def payload (c : Controller) : Bytes :=
  littleEndian16 c.settings.interval.milliseconds.toUInt16 ++ ([flagsByte c.settings] ++
    c.programs.numbered.flatMap fun (id, p) => recordBytes p ((c.sources.source? id).getD []))

theorem body_bytes_payload (c : Controller) :
    bodyBytes c = magic ++ (littleEndian16 version ++ payload c) := by
  simp only [bodyBytes, payload, List.append_assoc]

theorem contents_payload (c : Controller) (storable : ∀ r ∈ (contentsOf c).records, r.Sound) :
    contents (payload c) = .ok (contentsOf c, []) := by
  have interval : Interval.ofMilliseconds c.settings.interval.milliseconds.toUInt16.toUInt32 =
      .ok c.settings.interval := by
    cases c.settings.interval <;> rfl
  have records := reads_several record
    (fun entry : Nat × LogicProgram => recordBytes entry.2 ((c.sources.source? entry.1).getD []))
    (fun entry => recordOf entry.2 ((c.sources.source? entry.1).getD [])) c.programs.numbered
    (fun entry member => reads_record _ _ (storable _ (List.mem_map_of_mem member)))
  rw [Slots.numbered_length] at records
  obtain ⟨enabled, debug⟩ := reads_flags c.settings
  have whole (next : List Record → Reader Contents) := bind_of_reads _ next _ [] _ records
  rw [List.append_nil] at whole
  refine (bind_of_reads _ _ _ _ _ (reads_word _)).trans ?_
  simp only [interval, pure_bind]
  refine (bind_of_reads _ _ _ _ _ (reads_byte _)).trans ((whole _).trans ?_)
  simp only [enabled, debug]
  rfl

theorem read_save (c : Controller) (storable : ∀ r ∈ (contentsOf c).records, r.Sound) : read c.save = .ok (contentsOf c) := by
  have tail : (littleEndian32 (Checksum.ofBytes (bodyBytes c))).length = 4 := rfl
  have cut : (bodyBytes c ++ littleEndian32 (Checksum.ofBytes (bodyBytes c))).length - 4 = (bodyBytes c).length := by
    rw [List.length_append, tail, Nat.add_sub_cancel]
  have long : 9 ≤ (bodyBytes c).length := by
    simp [body_bytes_payload, payload, magic, littleEndian16]
  have mark : (bodyBytes c ++ littleEndian32 (Checksum.ofBytes (bodyBytes c))).take 4 = magic := by
    rw [body_bytes_payload]
    rfl
  have behind : (bodyBytes c).drop 4 = littleEndian16 version ++ payload c := by
    rw [body_bytes_payload]
    rfl
  have accepted : ¬ ((bodyBytes c ++ littleEndian32 (Checksum.ofBytes (bodyBytes c))).length < 13 ∨
      (bodyBytes c ++ littleEndian32 (Checksum.ofBytes (bodyBytes c))).take 4 ≠ magic) := by
    rintro (short | other)
    · rw [List.length_append, tail] at short
      omega
    · exact other mark
  unfold read Controller.save
  simp only [if_neg accepted, cut, List.take_left, List.drop_left, behind, reads_word version _,
    contents_payload c storable, ne_eq, not_true_eq_false, if_false]
  rfl

end SoftPlc.Configuration
