import Mathlib

/-!
# Sums in one's complement

The checksum of RFC 1071 adds the 16-bit words of a string of bytes, with the carry added to the lowest bit. Up to the
two representations of zero it is the number that the bytes stand for, modulo `2 ^ 16 - 1` (`cast_onesSum`): to swap the
two bytes of a sum is to multiply it by 256 (`cast_swapBytes`), and its own inverse.
-/

namespace Minix.Lib

/-- Addition in one's complement: a carry is added to the lowest bit. -/
def onesAdd (x y : Nat) : Nat := if x + y < 2 ^ 16 then x + y else x + y - (2 ^ 16 - 1)

/-- The sum of the words of a string, the high byte of each first, and the last one filled up with zero. -/
def onesSum : List UInt8 → Nat
  | [] => 0
  | [b] => b.toNat * 256
  | b₀ :: b₁ :: data => onesAdd (b₀.toNat * 256 + b₁.toNat) (onesSum data)

/-- The two bytes of a word change places. -/
def swapBytes (x : Nat) : Nat := (x &&& 0xff) <<< 8 ||| (x &&& 0xff00) >>> 8

/-- The number that a string stands for, the lowest byte first. -/
def number (data : List UInt8) : Nat := Nat.ofDigits 256 (data.map (·.toNat))

theorem number_cons (b : UInt8) (data : List UInt8) : number (b :: data) = b.toNat + 256 * number data :=
  Nat.ofDigits_cons

theorem number_append (data rest : List UInt8) :
    number (data ++ rest) = number data + 256 ^ data.length * number rest := by
  rw [number, List.map_append, Nat.ofDigits_append, List.length_map]
  rfl

/-- Modulo `2 ^ 16 - 1`, 256 is its own inverse. -/
theorem byte_sq : (256 * 256 : ZMod 65535) = 1 := by decide

theorem byte_pow (n : Nat) : (256 : ZMod 65535) ^ n = if n % 2 = 1 then 256 else 1 := by
  induction n with
  | zero => rfl
  | succ n ih =>
    rw [pow_succ, ih]
    split_ifs with h1 h2 h2
    · omega
    · exact byte_sq
    · exact one_mul _
    · omega

theorem cast_number_append {data rest : List UInt8} (heven : data.length % 2 = 0) :
    (number (data ++ rest) : ZMod 65535) = number data + number rest := by
  rw [number_append]
  push_cast
  rw [byte_pow, if_neg (by omega), one_mul]

theorem swapBytes_eq (x : Nat) : swapBytes x = x % 256 * 256 + x / 256 % 256 := by
  have hhigh : (x &&& 0xff00) >>> 8 = x / 256 % 256 := by
    rw [Nat.shiftRight_and_distrib, Nat.shiftRight_eq_div_pow]
    exact Nat.and_two_pow_sub_one_eq_mod (x / 256) 8
  rw [swapBytes, hhigh, ← Nat.shiftLeft_add_eq_or_of_lt (Nat.mod_lt _ (by decide)), Nat.shiftLeft_eq]
  exact congrArg (· * 256 + x / 256 % 256) (Nat.and_two_pow_sub_one_eq_mod x 8)

theorem swapBytes_lt (x : Nat) : swapBytes x < 2 ^ 16 := by
  rw [swapBytes_eq]
  omega

theorem swapBytes_pos {x : Nat} (h : 0 < x) (hlt : x < 2 ^ 16) : 0 < swapBytes x := by
  rw [swapBytes_eq]
  omega

theorem swapBytes_mod (x : Nat) : swapBytes (x % 2 ^ 16) = swapBytes x := by
  rw [swapBytes_eq, swapBytes_eq]
  omega

theorem cast_eq_of_carry {x y k : Nat} (h : x = y + 65535 * k) : (x : ZMod 65535) = y := by
  have hzero : (65535 : ZMod 65535) = 0 := by decide
  rw [h]
  push_cast
  rw [hzero, zero_mul, add_zero]

theorem cast_swapBytes {x : Nat} (h : x < 2 ^ 16) : (swapBytes x : ZMod 65535) = 256 * x := by
  have hmul : 256 * x = swapBytes x + 65535 * (x / 256) := by
    rw [swapBytes_eq]
    omega
  exact_mod_cast (cast_eq_of_carry hmul).symm

theorem cast_onesAdd (x y : Nat) : (onesAdd x y : ZMod 65535) = x + y := by
  have hadd : x + y = onesAdd x y + 65535 * if x + y < 2 ^ 16 then 0 else 1 := by
    rw [onesAdd]
    split <;> omega
  exact_mod_cast (cast_eq_of_carry hadd).symm

theorem cast_onesSum (data : List UInt8) : (onesSum data : ZMod 65535) = 256 * number data := by
  fun_induction onesSum data with
  | case1 => rfl
  | case2 b => simp [number, mul_comm]
  | case3 b0 b1 data ih =>
    rw [cast_onesAdd, ih, number_cons, number_cons]
    push_cast
    linear_combination -(b1.toNat + 256 * number data : ZMod 65535) * byte_sq

end Minix.Lib
