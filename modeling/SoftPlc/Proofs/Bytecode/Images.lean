import SoftPlc.Bytecode.Image

set_option autoImplicit false

namespace SoftPlc

def Instruction.Encodable : Instruction → Prop
  | .load n | .store n | .jump n | .jumpIfFalse n | .jumpIfTrue n => n < 4294967296
  | _ => True

theorem Value.of_bits_bits (v : Value) : ofBits v.dataType v.bits = v := by
  cases v with
  | bool b => cases b <;> rfl
  | int n => simp [ofBits, bits, dataType]
  | dint n => simp [ofBits, bits, dataType]
  | dword n => rfl
  | real x => rfl

theorem of_little_endian_32 (n : UInt32) :
    ofLittleEndian32 n.toUInt8 (n >>> 8).toUInt8 (n >>> 16).toUInt8 (n >>> 24).toUInt8 = n := by
  have eight : UInt32.toBitVec 8 % 32 = 8#32 := rfl
  have sixteen : UInt32.toBitVec 16 % 32 = 16#32 := rfl
  have twentyFour : UInt32.toBitVec 24 % 32 = 24#32 := rfl
  rw [← UInt32.toBitVec_inj]
  apply BitVec.eq_of_getLsbD_eq
  intro i inside
  simp only [ofLittleEndian32, UInt32.toBitVec_or, UInt32.toBitVec_shiftLeft, UInt8.toBitVec_toUInt32,
    UInt32.toBitVec_toUInt8, UInt32.toBitVec_shiftRight, eight, sixteen, twentyFour, BitVec.getLsbD_or,
    BitVec.shiftLeft_eq', BitVec.ushiftRight_eq', BitVec.getLsbD_shiftLeft, BitVec.getLsbD_setWidth,
    BitVec.getLsbD_ushiftRight, BitVec.toNat_ofNat, Nat.reducePow, Nat.reduceMod]
  rcases (by omega : i < 8 ∨ 8 ≤ i ∧ i < 16 ∨ 16 ≤ i ∧ i < 24 ∨ 24 ≤ i) with first | second | third | fourth
  · grind
  · grind
  · grind
  · grind

theorem Image.of_bytes_bytes (image : Image) : ofBytes? image.toBytes = some image := by
  simp only [ofBytes?, toBytes, littleEndian32, of_little_endian_32]

theorem Instruction.of_tag_binary (op : BinaryOp) (t : DataType) (argument : UInt32) :
    ofTag? op.tag t argument = some (.binary op t) := by
  cases op <;> rfl

theorem Instruction.image_instruction (i : Instruction) (fits : i.Encodable) : i.image.instruction = i := by
  cases i with
  | push v =>
    simp only [image, Image.instruction, DataType.ofCode?_code, ofTag?, Option.getD_some, Value.of_bits_bits]
  | load n | store n | jump n | jumpIfFalse n | jumpIfTrue n =>
    have same : (UInt32.ofNat n).toNat = n := UInt32.toNat_ofNat_of_lt' fits
    simp only [image, Image.instruction, DataType.ofCode?, DataType.all, List.find?, DataType.code, beq_self_eq_true,
      ofTag?, same, Option.getD_some]
  | binary op t =>
    simp only [image, Image.instruction, DataType.ofCode?_code, of_tag_binary, Option.getD_some]
  | call f =>
    cases f with
    | abs t | min t | max t | limit t | select t =>
      simp only [image, Image.instruction, Builtin.dataType?, Option.map_some, Option.getD_some,
        DataType.ofCode?_code]
      rfl
    | _ => rfl
  | cast t | negate t | complement t =>
    simp only [image, Image.instruction, DataType.ofCode?_code, ofTag?, Option.getD_some]
  | illegal byte => rfl
  | duplicate | discard | nop | halt => rfl

theorem Instruction.of_tag_encodable (tag : UInt8) (t : DataType) (argument : UInt32) (i : Instruction)
    (known : ofTag? tag t argument = some i) : i.Encodable := by
  have small := argument.toNat_lt
  unfold ofTag? at known
  split at known
  all_goals first
    | cases known; first | exact small | trivial
    | obtain ⟨_, _, same⟩ := Option.map_eq_some_iff.mp known; cases same; trivial

theorem Image.instruction_encodable (image : Image) : image.instruction.Encodable := by
  unfold Image.instruction
  split
  · trivial
  · cases known : Instruction.ofTag? image.tag _ image.argument with
    | none => trivial
    | some i => exact Instruction.of_tag_encodable _ _ _ i known

theorem Image.bytes_instruction (image : Image) :
    (ofBytes? image.toBytes).map Image.instruction = some image.instruction := by
  rw [of_bytes_bytes, Option.map_some]

-- The instructions that fit, and no others, are read back from their bytes. Whatever six bytes stand for
-- fits, so the bytes that are written for it stand for it again.
theorem Instruction.bytes_read_back :
    (∀ i : Instruction, (Image.ofBytes? i.image.toBytes).map Image.instruction = some i ↔ i.Encodable) ∧
    ∀ tag kind a b c d : UInt8, ∃ i,
      (Image.ofBytes? [tag, kind, a, b, c, d]).map Image.instruction = some i ∧
      (Image.ofBytes? i.image.toBytes).map Image.instruction = some i := by
  have back (i : Instruction) (fits : i.Encodable) :
      (Image.ofBytes? i.image.toBytes).map Image.instruction = some i := by
    rw [Image.bytes_instruction, image_instruction i fits]
  refine ⟨fun i => ⟨?fits, back i⟩, ?any⟩
  case fits =>
    intro same
    rw [Image.bytes_instruction, Option.some_inj] at same
    exact same ▸ Image.instruction_encodable i.image
  case any =>
    intro tag kind a b c d
    exact ⟨_, rfl, back _ (Image.instruction_encodable _)⟩

example : (Image.ofBytes? (Instruction.illegal 0x02).image.toBytes).map Image.instruction = some (.illegal 0x02) := rfl

end SoftPlc
