import Clickstream.Datum
import Mathlib.Algebra.Group.Int.Defs
import Mathlib.Algebra.Group.Nat.Defs

namespace Clickstream.LittleEndian

theorem decode_lt (bytes : List UInt8) : decode bytes < 256 ^ bytes.length := by
  induction bytes with
  | nil => simp [decode]
  | cons byte rest ih =>
    have := byte.toNat_lt
    simp only [decode, List.foldr_cons, List.length_cons, Nat.pow_succ] at ih ⊢
    omega

theorem length_encode (count n : Nat) : (encode count n).length = count := by
  induction count generalizing n with
  | zero => rfl
  | succ count ih => rw [encode, List.length_cons, ih]

theorem decode_encode (count n : Nat) (h : n < 256 ^ count) : decode (encode count n) = n := by
  induction count generalizing n with
  | zero => simp at h; simp [encode, decode, h]
  | succ count ih =>
    have hd : n / 256 < 256 ^ count := Nat.div_lt_of_lt_mul (by rw [Nat.pow_succ] at h; omega)
    have := ih (n / 256) hd
    simp only [decode] at this
    simp only [encode, decode, List.foldr_cons, this, UInt8.toNat_ofNat']
    omega

theorem encode_decode (bytes : List UInt8) : encode bytes.length (decode bytes) = bytes := by
  induction bytes with
  | nil => rfl
  | cons byte rest ih =>
    have low := byte.toNat_lt
    have high : (byte.toNat + 256 * decode rest) / 256 = decode rest := by omega
    have digit : UInt8.ofNat (byte.toNat + 256 * decode rest) = byte := by
      apply UInt8.toNat_inj.mp
      rw [UInt8.toNat_ofNat']
      omega
    change UInt8.ofNat (byte.toNat + 256 * decode rest) ::
      encode rest.length ((byte.toNat + 256 * decode rest) / 256) = byte :: rest
    rw [high, digit, ih]

theorem encode_of_decode {size n : Nat} {bytes : List UInt8} (length : bytes.length = size)
    (digits : decode bytes = n) : encode size n = bytes := by
  rw [← length, ← digits, encode_decode]

end Clickstream.LittleEndian
