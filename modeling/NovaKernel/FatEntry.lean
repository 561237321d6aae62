import NovaKernel.Fat

set_option autoImplicit false

namespace NovaKernel

theorem or_shift (a b : Nat) {n : Nat} (small : a < 2 ^ n) : a ||| b <<< n = a + 2 ^ n * b := by
  rw [Nat.shiftLeft_eq, Nat.mul_comm b, Nat.or_comm, ← Nat.two_pow_add_eq_or_of_lt small,
    Nat.add_comm]

theorem low_bits (v n : Nat) : v &&& (2 ^ n - 1) = v % 2 ^ n := Nat.and_two_pow_sub_one_eq_mod v n

theorem low_nibble (b : Byte) : (b &&& 0x0F).toNat = b.toNat % 16 :=
  low_bits b.toNat 4

theorem high_nibble (b : Byte) : (b &&& 0xF0).toNat = 16 * (b.toNat / 16) := by
  revert b
  decide

theorem nibbles (high low : Byte) :
    ((high &&& 0xF0) ||| (low &&& 0x0F)).toNat = 16 * (high.toNat / 16) + low.toNat % 16 := by
  rw [BitVec.toNat_or, high_nibble, low_nibble]
  exact (Nat.two_pow_add_eq_or_of_lt (Nat.mod_lt low.toNat (show 0 < 2 ^ 4 by decide)) _).symm

variable {c : Nat}

theorem entryOf_even (even : c % 2 = 0) (lo hi : Byte) :
    entryOf c lo hi = lo.toNat + 256 * (hi.toNat % 16) := by
  have low := lo.isLt
  have other : ¬ c % 2 = 1 := by omega
  simp only [entryOf, if_neg other, or_shift lo.toNat hi.toNat (n := 8) low]
  rw [show (0x0FFF : Nat) = 2 ^ 12 - 1 by rfl, low_bits]
  omega

theorem entryOf_odd (odd : c % 2 = 1) (lo hi : Byte) :
    entryOf c lo hi = lo.toNat / 16 + 16 * hi.toNat := by
  have low := lo.isLt
  simp only [entryOf, if_pos odd, or_shift lo.toNat hi.toNat (n := 8) low,
    Nat.shiftRight_eq_div_pow]
  omega

theorem entryLo_even (even : c % 2 = 0) (v : Nat) (old : Byte) :
    (entryLo c v old).toNat = v % 256 := by
  have other : ¬ c % 2 = 1 := by omega
  rw [entryLo, if_neg other, show (0xFF : Nat) = 2 ^ 8 - 1 by rfl, low_bits, u8, BitVec.toNat_ofNat]
  exact Nat.mod_mod _ _

theorem entryLo_odd (odd : c % 2 = 1) (v : Nat) (old : Byte) :
    (entryLo c v old).toNat = old.toNat % 16 + 16 * (v % 16) := by
  have small := old.isLt
  rw [entryLo, if_pos odd, BitVec.or_comm, nibbles, u8, BitVec.toNat_ofNat, Nat.shiftLeft_eq]
  omega

theorem entryHi_even (even : c % 2 = 0) (v : Nat) (old : Byte) :
    (entryHi c v old).toNat = 16 * (old.toNat / 16) + v / 256 % 16 := by
  have other : ¬ c % 2 = 1 := by omega
  rw [entryHi, if_neg other, nibbles, u8, BitVec.toNat_ofNat, Nat.shiftRight_eq_div_pow]
  omega

theorem entryHi_odd (odd : c % 2 = 1) (v : Nat) (old : Byte) :
    (entryHi c v old).toNat = v / 16 % 256 := by
  rw [entryHi, if_pos odd, show (0xFF : Nat) = 2 ^ 8 - 1 by rfl, low_bits, u8, BitVec.toNat_ofNat,
    Nat.shiftRight_eq_div_pow]
  omega

theorem entryOf_stored (c v : Nat) (lo hi : Byte) :
    entryOf c (entryLo c v lo) (entryHi c v hi) = v % 4096 := by
  rcases Nat.mod_two_eq_zero_or_one c with even | odd
  · rw [entryOf_even even, entryLo_even even, entryHi_even even]
    have high := hi.isLt
    omega
  · rw [entryOf_odd odd, entryLo_odd odd, entryHi_odd odd]
    omega

theorem entryOf_after (even : c % 2 = 0) (v : Nat) (old hi : Byte) :
    entryOf (c + 1) (entryHi c v old) hi = entryOf (c + 1) old hi := by
  have odd : (c + 1) % 2 = 1 := by omega
  rw [entryOf_odd odd, entryOf_odd odd, entryHi_even even]
  omega

theorem entryOf_before (even : c % 2 = 0) (v : Nat) (lo old : Byte) :
    entryOf c lo (entryLo (c + 1) v old) = entryOf c lo old := by
  have odd : (c + 1) % 2 = 1 := by omega
  rw [entryOf_even even, entryOf_even even, entryLo_odd odd]
  omega

theorem entryOf_half (c v : Nat) (lo hi : Byte) :
    entryOf c (entryLo c v lo) hi =
      if c % 2 = 1 then v % 16 + 16 * hi.toNat else v % 256 + 256 * (hi.toNat % 16) := by
  rcases Nat.mod_two_eq_zero_or_one c with even | odd
  · rw [entryOf_even even, entryLo_even even, if_neg (by omega)]
  · rw [entryOf_odd odd, entryLo_odd odd, if_pos odd]
    omega

end NovaKernel
