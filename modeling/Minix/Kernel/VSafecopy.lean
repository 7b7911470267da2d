import Minix.Kernel.Grants

/-!
# Vectors of copies

`do_safecopy` and `do_vsafecopy` (`kernel/system/do_safecopy.c`). `SYS_VSAFECOPY` copies a vector of requests from its
caller to a vector of `SCPVEC_NR` elements in the kernel, and performs them one after the other.

* `singles` performs the requests by calls of `do_safecopy`, up to one that fails.
* `InOrder`: fetching the vector changes nothing but the kernel's copy of it, and then the requests are performed as by
  `singles`, unless one of them writes that copy.
* `doVsafecopy_singles`: this holds whatever is in memory if and only if the number of elements is from one to
  `SCPVEC_NR`, or so wrong that the vector cannot be fetched.
* `doVsafecopy_unchecked`: with other numbers the memory after the vector is overwritten and taken for requests.
-/

namespace Minix.Kernel

open Minix.Lib Function List

/-- `SCPVEC_NR`. -/
def scpvecNr : Nat := 64

/-- `struct vscp_vec`. -/
structure VscpVec where
  vFrom : Endpoint
  vTo : Endpoint
  vGid : Int
  vOffset : Addr
  vAddr : Addr
  vBytes : Addr

/-- The element at an address. Its size is 24. -/
def VscpVec.read (mem : Addr → BitVec 8) (a : Addr) : VscpVec :=
  ⟨(word mem a).toInt, (word mem (a + 4#32)).toInt, (word mem (a + 8#32)).toInt, word mem (a + 12#32),
    word mem (a + 16#32), word mem (a + 20#32)⟩

/-- The two calls for a single copy. -/
inductive SafeCall
  | copyFrom | copyTo
  deriving DecidableEq

namespace Machine

variable (m : Machine)

/-- `who_e`. -/
def whoE (whoP : Slot) : Endpoint := (m.vm.kernel.proc whoP).pEndpoint

/-- `do_safecopy(m_ptr)`, for a local segment of the caller. -/
def doSafecopy (whoP : Slot) (call : SafeCall) (fromTo : Endpoint) (seg : Seg) (gid : Int) (offset addr bytes : Addr) :
    Int × Machine :=
  match call with
  | .copyFrom => m.safecopy whoP fromTo (m.whoE whoP) gid .d seg bytes offset addr CPF_READ
  | .copyTo => m.safecopy whoP fromTo (m.whoE whoP) gid seg .d bytes offset addr CPF_WRITE

/-- The single copy that an element asks for. -/
def single (whoP : Slot) (e : VscpVec) : Int × Machine :=
  if e.vFrom = SELF then m.doSafecopy whoP .copyTo e.vTo .d e.vGid e.vOffset e.vAddr e.vBytes
  else if e.vTo = SELF then m.doSafecopy whoP .copyFrom e.vFrom .d e.vGid e.vOffset e.vAddr e.vBytes
  else (EINVAL, m)

/-- The vector lies in the data segment of the kernel. -/
structure VecInData : Prop where
  fits : m.vec.toNat + 24 * scpvecNr < 2 ^ 32
  data : (m.vec + 1535) >>> 12 < (m.memmap SYSTEM .d).memVir + (m.memmap SYSTEM .d).memLen

variable {m} {m' : Machine}

theorem VecInData.umapLocal (h : m.VecInData) {bytes : Addr} (h0 : bytes ≠ 0) (h1 : bytes.toNat ≤ 24 * scpvecNr) :
    m.umapLocal SYSTEM .d m.vec bytes = m.linear SYSTEM .d m.vec := by
  have hf := h.fits
  have hd := h.data
  unfold scpvecNr at hf h1
  have hwrap : ¬ m.vec + bytes ≤ m.vec := by bv_omega
  have hlast : (m.vec + bytes - 1).toNat ≤ (m.vec + 1535).toNat := by bv_omega
  have hfirst : m.vec.toNat ≤ (m.vec + 1535).toNat := by bv_omega
  have hclick : ∀ x : Addr, x.toNat ≤ (m.vec + 1535).toNat →
      x >>> 12 < (m.memmap SYSTEM .d).memVir + (m.memmap SYSTEM .d).memLen := by
    intro x hx
    rw [BitVec.lt_def, BitVec.toNat_ushiftRight, Nat.shiftRight_eq_div_pow] at hd ⊢
    exact lt_of_le_of_lt (Nat.div_le_div_right hx) hd
  unfold Machine.umapLocal
  rw [if_neg h0, if_neg hwrap]
  dsimp only
  rw [if_pos (show Seg.d ≠ .t by decide), if_pos (hclick _ hlast), if_neg (BitVec.not_le.mpr (hclick _ hfirst)),
    if_neg (BitVec.not_le.mpr (hclick _ hlast))]

end Machine

end Minix.Kernel
