import SoftPlc.Proofs.Bytecode.Images
import SoftPlc.Proofs.Configuration.RoundTrip

set_option autoImplicit false

namespace SoftPlc

namespace Checksum

-- The polynomial has the highest bit and a shift to the right has not, so that bit tells which of the two
-- ways a register went.
theorem shift_bit_top (register : BitVec 32) : (shiftBit register).getLsbD 31 = register.getLsbD 0 := by
  have shifted : (register >>> 1).getLsbD 31 = false := by
    rw [BitVec.getLsbD_ushiftRight]
    exact BitVec.getLsbD_of_ge register (1 + 31) (by decide)
  by_cases low : register.getLsbD 0
  · rw [shiftBit, if_pos low, BitVec.getLsbD_xor, shifted, low]
    rfl
  · rw [shiftBit, if_neg low, shifted]
    exact (Bool.eq_false_of_not_eq_true low).symm

theorem shift_bit_injective : Function.Injective shiftBit := by
  intro a b equal
  have low : a.getLsbD 0 = b.getLsbD 0 := by rw [← shift_bit_top a, equal, shift_bit_top b]
  have rest : a >>> 1 = b >>> 1 := by
    by_cases odd : b.getLsbD 0
    · rw [shiftBit, shiftBit, if_pos odd, if_pos (low.trans odd)] at equal
      exact (BitVec.xor_left_inj _).mp equal
    · rw [shiftBit, shiftBit, if_neg odd, if_neg (low ▸ odd)] at equal
      exact equal
  apply BitVec.eq_of_getLsbD_eq
  intro i inside
  cases i with
  | zero => exact low
  | succ i =>
    have bit := congrArg (·.getLsbD i) rest
    simpa only [BitVec.getLsbD_ushiftRight, Nat.add_comm 1 i] using bit

theorem shift_bits_injective (n : Nat) : Function.Injective (shiftBits n) := by
  induction n with
  | zero => exact Function.injective_id
  | succ n ih => exact ih.comp shift_bit_injective

theorem add_byte_injective (byte : UInt8) : Function.Injective (addByte · byte) := by
  intro a b equal
  exact (BitVec.xor_left_inj _).mp (shift_bits_injective 8 equal)

theorem add_byte_apart (register : BitVec 32) : Function.Injective (addByte register) := by
  intro a b equal
  have wide := (BitVec.xor_right_inj _).mp (shift_bits_injective 8 equal)
  rw [← UInt8.toBitVec_inj, ← BitVec.toNat_inj]
  have same := congrArg BitVec.toNat wide
  simp only [BitVec.toNat_setWidth] at same
  have small (byte : UInt8) : byte.toBitVec.toNat < 256 := byte.toBitVec.isLt
  have first := small a
  have second := small b
  omega

theorem add_bytes_injective (bytes : Bytes) : Function.Injective (bytes.foldl addByte) := by
  induction bytes with
  | nil => exact Function.injective_id
  | cons byte rest ih => exact ih.comp (add_byte_injective byte)

theorem one_byte_apart (front back : Bytes) (a b : UInt8) (apart : a ≠ b) :
    ofBytes (front ++ a :: back) ≠ ofBytes (front ++ b :: back) := by
  intro equal
  have inverted := congrArg UInt32.toBitVec equal
  simp only [ofBytes, List.foldl_append, List.foldl_cons, UInt32.toBitVec_ofBitVec] at inverted
  have registers := add_bytes_injective back (BitVec.not_inj.mp inverted)
  exact apart (add_byte_apart _ registers)

end Checksum

theorem little_endian_32_injective : Function.Injective littleEndian32 := by
  intro a b equal
  simp only [littleEndian32, List.cons.injEq, and_true] at equal
  obtain ⟨first, second, third, fourth⟩ := equal
  rw [← of_little_endian_32 a, ← of_little_endian_32 b, first, second, third, fourth]

namespace Configuration

theorem read_checked (blob : Bytes) (k : Contents) (accepted : read blob = .ok k) :
    littleEndian32 (Checksum.ofBytes (blob.take (blob.length - 4))) = blob.drop (blob.length - 4) := by
  unfold read at accepted
  by_contra differs
  simp only [ne_eq, differs, not_false_eq_true, if_true] at accepted
  split at accepted
  · cases accepted
  · split at accepted
    · cases accepted
    · split at accepted <;> cases accepted

theorem apart_in_one_place (text other : Bytes) (length : other.length = text.length)
    (one : ∃! place : Nat, other[place]? ≠ text[place]?) :
    ∃ front a b back, a ≠ b ∧ text = front ++ a :: back ∧ other = front ++ b :: back := by
  induction text generalizing other with
  | nil =>
    obtain rfl := List.length_eq_zero_iff.mp length
    obtain ⟨place, differs, _⟩ := one
    exact absurd rfl differs
  | cons a text ih =>
    cases other with
    | nil => simp at length
    | cons b other =>
      have shorter : other.length = text.length := Nat.succ.inj length
      obtain ⟨place, differs, only⟩ := one
      by_cases same : a = b
      · subst same
        cases place with
        | zero => exact absurd rfl differs
        | succ place =>
          obtain ⟨front, x, y, back, apart, rfl, rfl⟩ := ih other shorter
            ⟨place, differs, fun i apart => Nat.succ.inj (only (i + 1) apart)⟩
          exact ⟨a :: front, x, y, back, apart, rfl, rfl⟩
      · have here : 0 = place := only 0 fun equal => same (Option.some.inj equal).symm
        have behind : other = text := by
          apply List.ext_getElem?
          intro i
          by_contra apart
          have there := only (i + 1) apart
          omega
        exact ⟨[], a, b, text, same, rfl, by rw [behind]; rfl⟩

theorem checked_apart (body tail : Bytes) (length : tail.length = 4)
    (checked : littleEndian32 (Checksum.ofBytes ((body ++ tail).take ((body ++ tail).length - 4))) =
      (body ++ tail).drop ((body ++ tail).length - 4)) :
    littleEndian32 (Checksum.ofBytes body) = tail := by
  have split : (body ++ tail).length - 4 = body.length := by rw [List.length_append, length, Nat.add_sub_cancel]
  rwa [split, List.take_left, List.drop_left] at checked

-- Whether the byte is one of the body or one of the check value, the two no longer fit.
theorem damaged_unchecked (body front back : Bytes) (a b : UInt8) (apart : a ≠ b)
    (sealed : body ++ littleEndian32 (Checksum.ofBytes body) = front ++ a :: back) (k : Contents) :
    read (front ++ b :: back) ≠ .ok k := by
  intro accepted
  have checked := read_checked _ k accepted
  have inCheck (rest : Bytes) (own : littleEndian32 (Checksum.ofBytes body) = rest ++ a :: back)
      (place : front = body ++ rest) : False := by
    rw [place, List.append_assoc] at checked
    have length : (rest ++ b :: back).length = 4 := by
      have four := congrArg List.length own
      simp only [List.length_append, List.length_cons] at four ⊢
      exact four.symm
    have damaged := own.symm.trans (checked_apart body _ length checked)
    exact apart (List.cons.inj (List.append_cancel_left damaged)).1
  obtain ⟨rest, place, own⟩ | ⟨rest, place, own⟩ := List.append_eq_append_iff.mp sealed
  · exact inCheck rest own place
  · cases rest with
    | nil =>
      rw [List.append_nil] at place
      exact inCheck [] own.symm (by rw [place, List.append_nil])
    | cons c rest =>
      obtain ⟨rfl, behind⟩ := List.cons.inj own
      have moved : front ++ b :: back = (front ++ b :: rest) ++ littleEndian32 (Checksum.ofBytes body) := by
        rw [behind, List.append_assoc]
        rfl
      rw [moved] at checked
      have equal := little_endian_32_injective (checked_apart _ _ rfl checked)
      rw [place] at equal
      exact Checksum.one_byte_apart front rest a b apart equal.symm

end Configuration

namespace Controller

open SoftPlc.Configuration

variable (c d : Controller)

theorem unread_refused (blob : Bytes) (unread : ∀ k, read blob ≠ .ok k) : ∃ f, c.load blob = (.error f, c) := by
  cases result : read blob with
  | ok k => exact absurd result (unread k)
  | error f => exact ⟨f, by simp only [load, result]⟩

-- The register of the check goes one to one through every byte, so two texts that part in one byte leave different
-- registers there, and no bytes behind it can bring the two together again.
theorem damaged_save_is_refused (blob : Bytes) (length : blob.length = c.save.length)
    (one : ∃! place : Nat, blob[place]? ≠ c.save[place]?) : ∃ f, d.load blob = (.error f, d) := by
  obtain ⟨front, a, b, back, apart, saved, rfl⟩ := apart_in_one_place c.save blob length one
  exact d.unread_refused _ fun k => damaged_unchecked (bodyBytes c) front back a b apart saved k

theorem damaged_function_is_refused :
    let c := holding ⟨2, by decide⟩ "VAR r : REAL := 2; b : BOOL; END_VAR b := SQRT(r) > 1;"
    let blob := c.save.set 120 2
    blob.length = c.save.length ∧ (∃! place : Nat, blob[place]? ≠ c.save[place]?) ∧
      ∃ f, Controller.load {} blob = (.error f, {}) := by
  intro c blob
  have length : blob.length = c.save.length := List.length_set
  have here : blob[120]? ≠ c.save[120]? := by decide +kernel
  have one : ∃! place : Nat, blob[place]? ≠ c.save[place]? := by
    refine ⟨120, here, fun place differs => ?_⟩
    by_contra other
    exact differs (List.getElem?_set_ne fun same => other same.symm)
  exact ⟨length, one, damaged_save_is_refused c {} blob length one⟩

end Controller

end SoftPlc
