import Mathlib

/-!
# Numbers of two words

A number of `2 * w` bits is kept in two words of `w` bits. Sums and differences are computed word by word, with a carry
or a borrow from the low word (`add`, `subWord`), and two numbers are compared by their high words first (`Before`).

- `value_add`, `value_subWord`: the results are right modulo `2 ^ w * 2 ^ w`;
- `before_iff`: the comparison is that of the values;
- `hi_eq_zero_iff`: the high word is zero if the value fits in one word.
-/

namespace Minix.Lib

open BitVec

/-- A number of two words. -/
structure DWord (w : Nat) where
  lo : BitVec w
  hi : BitVec w
  deriving DecidableEq

namespace DWord

variable {w : Nat} {x y : DWord w} {n : BitVec w}

/-- The number. -/
def value (x : DWord w) : Nat := x.lo.toNat + 2 ^ w * x.hi.toNat

/-- The number that a word stands for. -/
def ofWord (n : BitVec w) : DWord w := ⟨n, 0⟩

/-- The words of a number, modulo `2 ^ w * 2 ^ w`. -/
def ofInt (w : Nat) (n : Int) : DWord w := ⟨BitVec.ofInt w n, BitVec.ofInt w (n / 2 ^ w)⟩

/-- The sum. The quotient is the carry. -/
def add (x y : DWord w) : DWord w :=
  ⟨x.lo + y.lo, x.hi + y.hi + BitVec.ofNat w ((x.lo.toNat + y.lo.toNat) / 2 ^ w)⟩

/-- The sum with a word. -/
def addWord (x : DWord w) (n : BitVec w) : DWord w := x.add (ofWord n)

/-- The difference with a word. -/
def subWord (x : DWord w) (n : BitVec w) : DWord w := ⟨x.lo - n, if x.lo < n then x.hi - 1 else x.hi⟩

/-- A number is less than another. -/
def Before (x y : DWord w) : Prop := x.hi < y.hi ∨ x.hi = y.hi ∧ x.lo < y.lo

instance (x y : DWord w) : Decidable (x.Before y) := inferInstanceAs (Decidable (_ ∨ _))

theorem value_lt (x : DWord w) : x.value < 2 ^ w * 2 ^ w := by
  have hhi := x.hi.isLt
  unfold value
  calc x.lo.toNat + 2 ^ w * x.hi.toNat < 2 ^ w + 2 ^ w * x.hi.toNat := by omega
    _ = 2 ^ w * (x.hi.toNat + 1) := by ring
    _ ≤ 2 ^ w * 2 ^ w := Nat.mul_le_mul_left _ hhi

@[simp] theorem value_ofWord (n : BitVec w) : (ofWord n).value = n.toNat := by simp [value, ofWord]

theorem value_mod (x : DWord w) : x.value % 2 ^ w = x.lo.toNat := by
  rw [value, Nat.add_mul_mod_self_left, Nat.mod_eq_of_lt x.lo.isLt]

theorem value_div (x : DWord w) : x.value / 2 ^ w = x.hi.toNat := by
  rw [value, Nat.add_mul_div_left _ _ (Nat.two_pow_pos w), Nat.div_eq_of_lt x.lo.isLt, Nat.zero_add]

theorem ext_value (h : x.value = y.value) : x = y := by
  have hlo : x.lo = y.lo := eq_of_toNat_eq (by rw [← value_mod, ← value_mod, h])
  have hhi : x.hi = y.hi := eq_of_toNat_eq (by rw [← value_div, ← value_div, h])
  cases x
  cases y
  simp_all

/-- The high word is zero if the number fits in one word. -/
theorem hi_eq_zero_iff : x.hi = 0 ↔ x.value < 2 ^ w := by
  rw [← Nat.div_eq_zero_iff_lt (Nat.two_pow_pos w), value_div]
  exact ⟨fun h => by rw [h]; rfl, fun h => eq_of_toNat_eq (by rw [h]; rfl)⟩

theorem value_ofInt {n : Int} (h0 : 0 ≤ n) (hn : n < 2 ^ w * 2 ^ w) : ((ofInt w n).value : Int) = n := by
  obtain ⟨m, rfl⟩ := Int.eq_ofNat_of_zero_le h0
  have hm : m < 2 ^ w * 2 ^ w := by exact_mod_cast hn
  have hdiv : m / 2 ^ w < 2 ^ w := Nat.div_lt_of_lt_mul hm
  have hcast : ((m : Int) / 2 ^ w) = ((m / 2 ^ w : Nat) : Int) := by norm_cast
  unfold value ofInt
  rw [hcast, ofInt_natCast, ofInt_natCast, toNat_ofNat, toNat_ofNat, Nat.mod_eq_of_lt hdiv,
    Nat.mod_add_div]

/-! ## Sums and differences -/

/-- A sum of words, and what is carried. -/
theorem add_mul_mod (a b c W : Nat) (hb : a + W * b = c) : c % (W * W) = a % W + W * ((a / W + b) % W) := by
  rcases Nat.eq_zero_or_pos W with rfl | hW
  · simp at hb ⊢
    omega
  · rw [Nat.mod_mul, ← hb, Nat.add_mul_mod_self_left, Nat.add_mul_div_left _ _ hW]

theorem value_add (x y : DWord w) : (x.add y).value = (x.value + y.value) % (2 ^ w * 2 ^ w) := by
  rw [add_mul_mod (x.lo.toNat + y.lo.toNat) (x.hi.toNat + y.hi.toNat) _ _ (by unfold value; ring)]
  unfold value add
  rw [toNat_add, toNat_add, toNat_add, toNat_ofNat, ← Nat.add_mod, Nat.add_comm (_ / _)]

theorem value_addWord (x : DWord w) (n : BitVec w) : (x.addWord n).value = (x.value + n.toNat) % (2 ^ w * 2 ^ w) := by
  rw [addWord, value_add, value_ofWord]

theorem value_subWord (x : DWord w) (n : BitVec w) :
    (x.subWord n).value = (x.value + (2 ^ w * 2 ^ w - n.toNat)) % (2 ^ w * 2 ^ w) := by
  have hhi := x.hi.isLt
  have hW : 2 ^ w ≤ 2 ^ w * 2 ^ w := Nat.le_mul_of_pos_left _ (Nat.two_pow_pos w)
  have hsub : (x.lo - n).toNat = (x.lo.toNat + (2 ^ w - n.toNat)) % 2 ^ w := by rw [toNat_sub, Nat.add_comm]
  have hsplit : x.lo.toNat + (2 ^ w - n.toNat) + 2 ^ w * (x.hi.toNat + (2 ^ w - 1)) =
      x.value + (2 ^ w * 2 ^ w - n.toNat) := by
    have hmul : 2 ^ w * (x.hi.toNat + (2 ^ w - 1)) = 2 ^ w * x.hi.toNat + (2 ^ w * 2 ^ w - 2 ^ w) := by
      rw [Nat.mul_add, Nat.mul_sub, Nat.mul_one]
    rw [hmul, value]
    omega
  rw [add_mul_mod _ _ _ _ hsplit, ← hsub]
  unfold value subWord
  congr 2
  -- the quotient of the low words is zero if there is a borrow
  split <;> rename_i hb
  · have hlt : x.lo.toNat < n.toNat := hb
    have hone : (1 : BitVec w).toNat = 1 := Nat.mod_eq_of_lt (show 1 < 2 ^ w by omega)
    rw [Nat.div_eq_of_lt (by omega), Nat.zero_add, toNat_sub, Nat.add_comm, hone]
  · have hle : n.toNat ≤ x.lo.toNat := Nat.le_of_not_lt hb
    rw [Nat.div_eq_of_lt_le (k := 1) (by omega) (by omega)]
    rw [show 1 + (x.hi.toNat + (2 ^ w - 1)) = x.hi.toNat + 2 ^ w by omega, Nat.add_mod_right, Nat.mod_eq_of_lt hhi]

/-- The comparison of the words is that of the numbers. -/
theorem before_iff : x.Before y ↔ x.value < y.value := by
  have hmul : ∀ {a b : Nat}, a < b → 2 ^ w * a + 2 ^ w ≤ 2 ^ w * b := fun {a b} h =>
    calc 2 ^ w * a + 2 ^ w = 2 ^ w * (a + 1) := by ring
      _ ≤ 2 ^ w * b := Nat.mul_le_mul_left _ h
  unfold Before value
  rw [lt_def, lt_def]
  rcases Nat.lt_trichotomy x.hi.toNat y.hi.toNat with h | h | h
  · have := hmul h
    exact ⟨fun _ => by omega, fun _ => .inl h⟩
  · have heq := eq_of_toNat_eq h
    rw [heq]
    simp
  · have := hmul h
    refine ⟨?_, fun _ => by omega⟩
    rintro (h' | ⟨h', _⟩)
    · omega
    · rw [h'] at h
      omega

end DWord

end Minix.Lib
