import Clickstream.Proofs.Grammar
import Clickstream.Proofs.LittleEndian

namespace Clickstream

theorem Utf8.decode_ok_iff {bytes : List UInt8} {text : String} :
    decode bytes = .ok text ↔ bytes = encode text := by
  by_cases valid : ByteArray.IsValidUTF8 ⟨bytes.toArray⟩
  · simp only [decode, String.fromUTF8?, dif_pos valid, Except.ok.injEq]
    constructor
    · intro h
      subst h
      rfl
    · intro h
      subst h
      exact String.toByteArray_inj.mp rfl
  · simp only [decode, String.fromUTF8?, dif_neg valid, reduceCtorEq, false_iff]
    intro h
    subst h
    exact valid (by simpa [encode] using text.isValidUTF8)

namespace Wire
open Datum Reader Varint

theorem readBoolean_exact :
    Exact readBoolean fun taken flag => taken = [if flag then 1 else 0] := by
  refine (Exact.readByte.check (fun byte flag => byte = if flag then 1 else 0) ?_).congr ?_
  · intro byte _ _
    by_cases zero : byte = 0
    · rw [if_pos zero, zero]
      exact (Exact.pure false).congr fun taken flag => by cases flag <;> simp
    by_cases one : byte = 1
    · rw [if_neg zero, if_pos one, one]
      exact (Exact.pure true).congr fun taken flag => by cases flag <;> simp
    · rw [if_neg zero, if_neg one]
      exact (Exact.refuse _).congr fun taken flag => by cases flag <;> simp [zero, one]
  · intro taken flag
    constructor
    · intro h
      obtain ⟨_, rfl, rfl⟩ := h
      rfl
    · intro h
      exact ⟨_, h, rfl⟩

theorem readInt_exact : Exact readInt fun taken n => Codes taken n.toInt := by
  refine (readLong_exact.check (fun long n => long.toInt = n.toInt) ?_).congr ?_
  · intro long front _
    have low : Int32.minValue.toInt = -2 ^ 31 := by decide
    have high : Int32.maxValue.toInt = 2 ^ 31 - 1 := by decide
    by_cases range : Int32.minValue.toInt ≤ long.toInt ∧ long.toInt ≤ Int32.maxValue.toInt
    · rw [if_pos range]
      refine (Exact.pure long.toInt32).congr fun taken n => ?_
      have same : long.toInt32.toInt = long.toInt := by
        rw [Int64.toInt_toInt32, Int.bmod_eq_of_le] <;> omega
      rw [← same, Int32.toInt_inj, eq_comm (a := n)]
    · rw [if_neg range]
      refine (Exact.refuse _).congr fun taken n => ?_
      have := n.toInt_lt
      have := n.le_toInt
      constructor
      · exact False.elim
      · intro h
        obtain ⟨-, same⟩ := h
        omega
  · intro taken n
    constructor
    · intro h
      obtain ⟨long, codes, same⟩ := h
      simpa [same] using codes
    · intro codes
      exact ⟨n.toInt64, by simpa using codes, by simp⟩

theorem readLength_exact : Exact readLength fun taken (length : Nat) => Codes taken length := by
  refine (readLong_exact.check (fun long (length : Nat) => long.toInt = length) ?_).congr ?_
  · intro long _ _
    have sign : long < 0 ↔ long.toInt < 0 := Int64.lt_iff_toInt_lt
    have clamp := Int64.toNat_toInt long
    by_cases negative : long < 0
    · rw [if_pos negative]
      rw [sign] at negative
      exact (Exact.refuse _).congr fun taken length => by simp; omega
    · rw [if_neg negative]
      rw [sign] at negative
      exact (Exact.pure _).congr fun taken length => and_congr_right fun _ => by omega
  · intro taken length
    constructor
    · intro h
      obtain ⟨long, codes, same⟩ := h
      exact same ▸ codes
    · intro codes
      obtain ⟨long, same⟩ := codes.exists_toInt
      exact ⟨long, same ▸ codes, same⟩

theorem readBytes_exact : Exact readBytes Sized := by
  refine (readLength_exact.bind _ fun length _ _ => Exact.readBlock length).congr ?_
  intro taken data
  constructor
  · intro h
    obtain ⟨head, _, _, rfl, codes, rfl, rfl⟩ := h
    exact ⟨head, rfl, codes⟩
  · intro h
    obtain ⟨head, rfl, codes⟩ := h
    exact ⟨head, data, data.length, rfl, codes, rfl, rfl⟩

theorem readString_exact : Exact readString fun taken text => Sized taken (Utf8.encode text) := by
  refine (readBytes_exact.check (fun data text => data = Utf8.encode text) ?_).congr ?_
  · intro data _ _
    cases found : Utf8.decode data with
    | ok text =>
      refine (Exact.pure text).congr fun taken other => ?_
      rw [← Utf8.decode_ok_iff, found, Except.ok.injEq, eq_comm (a := other)]
    | error fault =>
      refine (Exact.refuse _).congr fun taken other => ?_
      simp [← Utf8.decode_ok_iff, found]
  · intro taken text
    simp

theorem toNat_ofNat_index {index : Int64} (low : 0 ≤ index.toInt) (high : index.toInt < 2 ^ 32) :
    ((UInt32.ofNat index.toNatClampNeg).toNat : Int) = index.toInt := by
  have clamp := Int64.toNat_toInt index
  rw [UInt32.toNat_ofNat']
  omega

theorem readIndex_exact (indexed : Indexed) (count : Nat) :
    Exact (readIndex indexed count) fun taken position =>
      Codes taken position.toNat ∧ position.toNat < count := by
  refine (readLong_exact.check (fun (index : Int64) (position : UInt32) =>
    index.toInt = position.toNat ∧ position.toNat < count) ?_).congr ?_
  · intro index _ _
    by_cases near : 0 ≤ index.toInt ∧ index.toInt < 0x1_0000_0000 ∧ index.toInt < count
    · rw [if_pos near]
      have same := toNat_ofNat_index near.1 near.2.1
      refine (Exact.pure _).congr fun taken position => and_congr_right fun _ => ?_
      rw [← UInt32.toNat_inj]
      omega
    · rw [if_neg near]
      refine (Exact.refuse _).congr fun taken position => ?_
      have top := position.toNat_lt
      simp only [false_iff]
      omega
  · intro taken position
    constructor
    · intro h
      obtain ⟨index, codes, same, inside⟩ := h
      exact ⟨same ▸ codes, inside⟩
    · intro h
      obtain ⟨codes, inside⟩ := h
      obtain ⟨index, same⟩ := codes.exists_toInt
      exact ⟨index, same ▸ codes, same, inside⟩

end Wire

end Clickstream
