import Minix.Kernel.System

/-!
# Privilege structures

`get_priv`, `set_sendto_bit` and `unset_sendto_bit` (`kernel/system.c`), `do_privctl` (`kernel/system/do_privctl.c`),
and the part of `main` (`kernel/main.c`) that sets up the processes of the boot image (`kernel/table.c`).

The fields of `struct priv` that message passing does not read are in `PrivRes`. What the kernel finds in the caller's
memory is an argument of the call.
-/

namespace Minix.Kernel

open Minix.Lib Function

def ENOMEM : Int := -12

def ENOSPC : Int := -28

/-- `FILLED_MASK`. -/
def filledMask : Int := -1

/-- The bits of `s_k_call_mask`: three chunks of 16 bits. -/
abbrev CallNr := Fin 48

structure IoRange where
  iorBase : Nat := 0
  iorLimit : Nat := 0
  deriving DecidableEq

structure MemRange where
  mrBase : Nat := 0
  mrLimit : Nat := 0
  deriving DecidableEq

/-- The other fields of `struct priv`, with `NR_IO_RANGE = 32`, `NR_MEM_RANGE = 10` and `NR_IRQ = 4`. -/
structure PrivRes where
  sKCallMask : Finset CallNr := ∅
  sNrIoRange : Nat := 0
  sIoTab : Fin 32 → IoRange := fun _ => {}
  sNrMemRange : Nat := 0
  sMemTab : Fin 10 → MemRange := fun _ => {}
  sNrIrq : Nat := 0
  sIrqTab : Fin 4 → Int := fun _ => 0
  sGrantTable : Nat := 0
  sGrantEntries : Int := 0

/-- The fields of the `struct priv` in the caller's memory that `SYS_PRIV_INIT` reads. -/
structure PrivArg where
  kCallMask : Finset CallNr
  nrIrq : Int
  irqTab : Fin 4 → Int
  nrIoRange : Int
  ioTab : Fin 32 → IoRange
  ipcTo : Finset PrivId

/-- `CTL_REQUEST` with its arguments. For `SYS_PRIV_INIT` the argument is `none` for a null pointer, or the result of
copying the structure from the caller. Where the result of copying is not checked, the argument is what the variable
holds afterwards. -/
inductive PrivReq
  | init (arg : Option (Except Int PrivArg))
  | user
  | addIo (range : IoRange)
  | addMem (range : Except Int MemRange)
  | addIrq (irq : Int)
  | queryMem (physStart physLen : Nat)
  | other

/-- The kernel's state with all of the privilege structures. -/
structure PrivState where
  kernel : State
  res : PrivId → PrivRes

namespace State

variable (k : State)

/-- `get_priv(rc, proc_type)`. -/
def getPriv (rc : Slot) (sys : Bool) : Int × State :=
  if sys then
    match (List.finRange 32).find? fun i => (k.priv i).sProcNr = none ∧ i ≠ userPrivId with
    | none => (ENOSPC, k)
    | some i =>
      (OK, (k.modProc rc fun r => { r with pPriv := i }).modPriv i fun r =>
        { r with sProcNr := some rc, sFlags := {.sysProc}, sAsyntab := 2 ^ 32 - 1, sAsynsize := 0 })
  else
    (OK, (k.modProc rc fun r => { r with pPriv := userPrivId }).modPriv userPrivId fun r =>
      { r with sProcNr := some INIT })

/-- `set_sendto_bit(rp, id)`. -/
def setSendtoBit (rp : Slot) (id : PrivId) : State :=
  match (k.priv id).sProcNr with
  | none => k
  | some rrp =>
    if (k.proc rp).pPriv = id then k
    else
      let k := k.modPriv (k.proc rp).pPriv fun r => { r with sIpcTo := insert id r.sIpcTo }
      if procNr rrp < 0 then k
      else k.modPriv (k.proc rrp).pPriv fun r => { r with sIpcTo := insert (k.proc rp).pPriv r.sIpcTo }

/-- `unset_sendto_bit(rp, id)`. -/
def unsetSendtoBit (rp : Slot) (id : PrivId) : State :=
  let k := k.modPriv (k.proc rp).pPriv fun r => { r with sIpcTo := r.sIpcTo.erase id }
  k.modPriv id fun r => { r with sIpcTo := r.sIpcTo.erase (k.proc rp).pPriv }

/-- A loop over the send mask: the bits of `mask` are set, the others are unset. -/
def sendMask (rp : Slot) (mask : PrivId → Bool) : State :=
  (List.finRange 32).foldl (fun k i => if mask i then k.setSendtoBit rp i else k.unsetSendtoBit rp i) k

/-- The privilege structure of `rp` becomes a copy of the caller's, with no pending notifications, interrupts and
signals. -/
def copyPriv (rp caller : Slot) : State :=
  let r := k.priv (k.proc caller).pPriv
  k.modPriv (k.proc rp).pPriv fun _ =>
    { r with sProcNr := some rp, sNotifyPending := ∅, sIntPending := 0, sSigPending := 0, sTrapMask := filledMask }

end State

namespace PrivState

variable (s : PrivState)

def modRes (i : PrivId) (f : PrivRes → PrivRes) : PrivState := { s with res := update s.res i (f (s.res i)) }

/-- `priv(rp)`, the fields of `PrivRes`. -/
def modResOf (rp : Slot) (f : PrivRes → PrivRes) : PrivState := s.modRes (s.kernel.proc rp).pPriv f

/-- `priv(rp)->s_flags |= f`. -/
def setFlag (rp : Slot) (f : PrivFlag) : PrivState :=
  { s with kernel := s.kernel.modPriv (s.kernel.proc rp).pPriv fun r => { r with sFlags := insert f r.sFlags } }

/-- `SYS_PRIV_INIT` up to the copy of the requested privileges: the caller's, with a default send mask and no resources.
-/
def initDefaults (rp caller : Slot) : PrivState :=
  let res := s.res (s.kernel.proc caller).pPriv
  let k := (s.kernel.copyPriv rp caller).sendMask rp fun i => i ≠ userPrivId
  { kernel := k
    res := update s.res (s.kernel.proc rp).pPriv
      { res with sNrIoRange := 0, sNrMemRange := 0, sNrIrq := 0, sGrantTable := 0, sGrantEntries := 0 } }

/-- The first `n` entries of a table are copied. -/
def copyTab {α : Type} {m : Nat} (n : Nat) (new old : Fin m → α) : Fin m → α :=
  fun i => if i.val < n then new i else old i

/-- The privileges that are requested in `SYS_PRIV_INIT`. -/
def initArg (rp : Slot) (a : PrivArg) : Int × PrivState :=
  let s := s.modResOf rp fun r => { r with sKCallMask := a.kCallMask }
  if a.nrIrq < 0 ∨ a.nrIrq > 4 then (EINVAL, s)
  else
    let n := a.nrIrq.toNat
    let s := s.modResOf rp fun r => { r with sNrIrq := n, sIrqTab := copyTab n a.irqTab r.sIrqTab }
    let s := s.setFlag rp .checkIrq
    if a.nrIoRange < 0 ∨ a.nrIoRange > 32 then (EINVAL, s)
    else
      let n := a.nrIoRange.toNat
      let s := s.modResOf rp fun r => { r with sNrIoRange := n, sIoTab := copyTab n a.ioTab r.sIoTab }
      let s := s.setFlag rp .checkIoPort
      (OK, { s with kernel := s.kernel.sendMask rp fun i => i ∈ a.ipcTo })

/-- `SYS_PRIV_INIT`. -/
def privInit (rp caller : Slot) (arg : Option (Except Int PrivArg)) : Int × PrivState :=
  match s.kernel.getPriv rp true with
  | (r, k) =>
    if r ≠ OK then (r, s)
    else
      let s := { s with kernel := k }.initDefaults rp caller
      match arg with
      | some (.error r) => (r, s)
      | some (.ok a) =>
        match s.initArg rp a with
        | (r, s) => if r ≠ OK then (r, s) else (OK, { s with kernel := s.kernel.rtsUnset rp {.noPriv} })
      | none => (OK, { s with kernel := s.kernel.rtsUnset rp {.noPriv} })

/-- `SYS_PRIV_ADD_IO`. -/
def addIo (rp : Slot) (range : IoRange) : Int × PrivState :=
  let s := s.setFlag rp .checkIoPort
  let n := (s.res (s.kernel.proc rp).pPriv).sNrIoRange
  if h : n < 32 then
    (OK, s.modResOf rp fun r => { r with sIoTab := update r.sIoTab ⟨n, h⟩ range, sNrIoRange := n + 1 })
  else (ENOMEM, s)

/-- `SYS_PRIV_ADD_MEM`. -/
def addMem (rp : Slot) (range : Except Int MemRange) : Int × PrivState :=
  match range with
  | .error r => (r, s)
  | .ok range =>
    let s := s.setFlag rp .checkMem
    let n := (s.res (s.kernel.proc rp).pPriv).sNrMemRange
    if h : n < 10 then
      (OK, s.modResOf rp fun r => { r with sMemTab := update r.sMemTab ⟨n, h⟩ range, sNrMemRange := n + 1 })
    else (ENOMEM, s)

/-- `SYS_PRIV_ADD_IRQ`. -/
def addIrq (rp : Slot) (irq : Int) : Int × PrivState :=
  let s := s.setFlag rp .checkIrq
  let n := (s.res (s.kernel.proc rp).pPriv).sNrIrq
  if h : n < 4 then
    (OK, s.modResOf rp fun r => { r with sIrqTab := update r.sIrqTab ⟨n, h⟩ irq, sNrIrq := n + 1 })
  else (ENOMEM, s)

/-- `SYS_PRIV_QUERY_MEM`. Addresses have 32 bits. -/
def queryMem (rp : Slot) (physStart physLen : Nat) : Int :=
  let addr := physStart % 2 ^ 32
  let limit := (addr + physLen + (2 ^ 32 - 1)) % 2 ^ 32
  let r := s.res (s.kernel.proc rp).pPriv
  if limit < addr then EPERM
  else if .sysProc ∉ s.kernel.privFlags rp then EPERM
  else if ∃ i : Fin 10, i.val < r.sNrMemRange ∧ (r.sMemTab i).mrBase ≤ addr ∧ limit ≤ (r.sMemTab i).mrLimit then OK
  else EPERM

/-- The requests that add a resource are for system processes that have their privileges. -/
def ifPrivileged (rp : Slot) (x : Int × PrivState) : Int × PrivState :=
  if s.kernel.rtsIsset rp .noPriv then (EPERM, s)
  else if .sysProc ∉ s.kernel.privFlags rp then (EPERM, s)
  else x

/-- The switch of `do_privctl`. -/
def privRequest (rp caller : Slot) : PrivReq → Int × PrivState
  | .init arg => if !s.kernel.rtsIsset rp .noPriv then (EPERM, s) else s.privInit rp caller arg
  | .user =>
    if !s.kernel.rtsIsset rp .noPriv then (EPERM, s)
    else (OK, { s with kernel := (s.kernel.getPriv rp false).2.rtsUnset rp {.noPriv} })
  | .addIo range => s.ifPrivileged rp (s.addIo rp range)
  | .addMem range => s.ifPrivileged rp (s.addMem rp range)
  | .addIrq irq => s.ifPrivileged rp (s.addIrq rp irq)
  | .queryMem a n => (s.queryMem rp a n, s)
  | .other => (EINVAL, s)

/-- The process that a request is about. -/
def target (whoP : Slot) (ctlEndpt : Endpoint) : Option Slot :=
  if ctlEndpt = SELF then some whoP else s.kernel.isokendpt ctlEndpt

/-- `do_privctl(m_ptr)`, requested by `whoP`. -/
def doPrivctl (whoP : Slot) (ctlEndpt : Endpoint) (q : PrivReq) : Int × PrivState :=
  if .sysProc ∉ s.kernel.privFlags whoP then (EPERM, s)
  else
    match s.target whoP ctlEndpt with
    | none => (EINVAL, s)
    | some rp => s.privRequest rp whoP q

/-- What the requested privileges do to the kernel, up to the first check that fails. -/
theorem initArg_cases (rp : Slot) (a : PrivArg) :
    (a.nrIrq < 0 ∨ a.nrIrq > 4) ∧ (s.initArg rp a).2.kernel = s.kernel ∨
      (a.nrIoRange < 0 ∨ a.nrIoRange > 32) ∧ (s.initArg rp a).2.kernel = (s.setFlag rp .checkIrq).kernel ∨
      (s.initArg rp a).2.kernel = ((s.setFlag rp .checkIrq).setFlag rp .checkIoPort).kernel.sendMask rp fun i =>
      i ∈ a.ipcTo := by
  unfold initArg
  split
  next h => exact .inl ⟨h, rfl⟩
  · split
    next h => exact .inr (.inl ⟨h, rfl⟩)
    · exact .inr (.inr rfl)

/-- What a request does to the kernel: nothing, a structure gets a flag, or a process that waits for its privileges gets
them. -/
theorem doPrivctl_cases (whoP : Slot) (e : Endpoint) (q : PrivReq) :
    (s.doPrivctl whoP e q).2.kernel = s.kernel ∨
      (∃ rp f, f ≠ .sysProc ∧ (s.doPrivctl whoP e q).2.kernel = (s.setFlag rp f).kernel) ∨
      .sysProc ∈ s.kernel.privFlags whoP ∧ ∃ rp ∈ s.target whoP e, .noPriv ∈ (s.kernel.proc rp).pRtsFlags ∧
        (q = .user ∧ (s.doPrivctl whoP e q).2.kernel = (s.kernel.getPriv rp false).2.rtsUnset rp {.noPriv} ∨
          ∃ arg, q = .init arg ∧ s.doPrivctl whoP e q = s.privInit rp whoP arg) := by
  have hadd (rp : Slot) (f : PrivFlag) (hf : f ≠ .sysProc) {x : Int × PrivState}
      (hx : x.2.kernel = s.kernel ∨ x.2.kernel = (s.setFlag rp f).kernel) : (s.ifPrivileged rp x).2.kernel = s.kernel ∨
        ∃ p f, f ≠ .sysProc ∧ (s.ifPrivileged rp x).2.kernel = (s.setFlag p f).kernel := by
    have h : s.ifPrivileged rp x = (EPERM, s) ∨ s.ifPrivileged rp x = x := by
      unfold ifPrivileged
      split_ifs <;> simp
    rcases h with h | h <;> rw [h]
    · exact .inl rfl
    · exact hx.imp_right fun hx => ⟨rp, f, hf, hx⟩
  unfold doPrivctl
  split
  · exact .inl rfl
  split
  · exact .inl rfl
  next hsys _ rp hrp =>
    cases q with
    | init arg =>
      rw [privRequest]
      split
      · exact .inl rfl
      next hno =>
          exact .inr (.inr ⟨not_not.mp hsys, rp, hrp, by simpa [State.rtsIsset] using hno, .inr ⟨arg, rfl, rfl⟩⟩)
    | user =>
      rw [privRequest]
      split
      · exact .inl rfl
      next hno => exact .inr (.inr ⟨not_not.mp hsys, rp, hrp, by simpa [State.rtsIsset] using hno, .inl ⟨rfl, rfl⟩⟩)
    | addIo range =>
      rw [privRequest]
      refine (hadd rp .checkIoPort (by decide) (.inr ?_)).imp_right .inl
      unfold addIo
      dsimp only
      split <;> rfl
    | addMem range =>
      rw [privRequest]
      refine (hadd rp .checkMem (by decide) ?_).imp_right .inl
      unfold addMem
      cases range with
      | error r => exact .inl rfl
      | ok range =>
        dsimp only
        split <;> exact .inr rfl
    | addIrq irq =>
      rw [privRequest]
      refine (hadd rp .checkIrq (by decide) (.inr ?_)).imp_right .inl
      unfold addIrq
      dsimp only
      split <;> rfl
    | queryMem a n => exact .inl rfl
    | other => exact .inl rfl

end PrivState

/-! ## The boot image -/

/-- An entry of the boot image. `none` for the kernel calls stands for `SYS_ALL_CALLS`. -/
structure BootImage where
  procNr : Slot
  flags : Finset PrivFlag
  quantum : Int
  priority : Nat
  trapMask : Int
  /-- A mask of 16 bits. -/
  ipcTo : Fin 16 → Bool
  kCalls : Option (Finset CallNr)

/-- The tables that `main` has cleared. A process has no privilege structure yet. -/
def clearedTables : PrivState where
  kernel :=
    { proc := fun p => { pEndpoint := endpoint 0 (procNr p) }
      priv := fun _ => {}
      sched :=
        { pPriority := fun _ => 0
          pMaxPriority := fun _ => 0
          pTicksLeft := fun _ => 0
          pQuantumSize := fun _ => 0
          pNextready := fun _ => none
          rdyHead := fun _ => none
          rdyTail := fun _ => none
          procPtr := IDLE
          nextPtr := none
          billPtr := IDLE
          prevPtr := IDLE
          halted := false
          picked := false }
      vmrequest := none
      realtime := 0
      tab := fun _ _ => {}
      log := [] }
  res _ := {}

namespace PrivState

variable (s : PrivState)

/-- The scheduling fields of a process of the boot image. -/
def bootSched (d : Sched) (ip : BootImage) : Sched :=
  { d with
    pMaxPriority := update d.pMaxPriority ip.procNr ip.priority
    pPriority := update d.pPriority ip.procNr ip.priority
    pQuantumSize := update d.pQuantumSize ip.procNr ip.quantum
    pTicksLeft := update d.pTicksLeft ip.procNr ip.quantum }

/-- The privileges of a process of the boot image. The process is not ready yet. -/
def bootPriv (ip : BootImage) : Option PrivState :=
  let rp := ip.procNr
  let k := { s.kernel with sched := bootSched s.kernel.sched ip }
  match k.getPriv rp (.sysProc ∈ ip.flags) with
  | (r, k) =>
    -- without a privilege structure the next assignment is to the null pointer
    if r ≠ OK then none
    else
      let i := (k.proc rp).pPriv
      let k := k.modPriv i fun r => { r with sFlags := ip.flags, sTrapMask := ip.trapMask }
      let k := (List.finRange 16).foldl
        (fun k j => if ip.ipcTo j then k.setSendtoBit rp (j.castLE (by decide)) else k) k
      some ({ s with kernel := k }.modRes i fun r => { r with sKCallMask := ip.kCalls.getD Finset.univ })

/-- The flags and the send mask of a process of the boot image that has its structure. -/
def bootGrants (k : State) (ip : BootImage) : State :=
  (List.finRange 16).foldl (fun k j => if ip.ipcTo j then k.setSendtoBit ip.procNr (j.castLE (by decide)) else k)
    (k.modPriv (k.proc ip.procNr).pPriv fun r => { r with sFlags := ip.flags, sTrapMask := ip.trapMask })

/-- The process is made ready, unless VM has to set it up or it is the `HARDWARE` task. -/
def bootReady (ip : BootImage) : PrivState :=
  let rp := ip.procNr
  let k := s.kernel
  let k := if .procFullvm ∈ k.privFlags rp then k.rtsSet rp {.vminhibit} else k
  let k := if rp = HARDWARE then k.rtsSet rp {.procStop} else k
  { s with kernel := k.rtsUnset rp {.slotFree} }

/-- One round of the loop of `main`. -/
def bootProc (s : PrivState) (ip : BootImage) : Option PrivState := (s.bootPriv ip).map fun s => s.bootReady ip

/-- The loop of `main` over the boot image. -/
def boot (image : List BootImage) : Option PrivState := image.foldlM bootProc clearedTables

end PrivState

/-- What can happen: what can happen to the kernel, and requests for privileges. -/
inductive PrivOp
  | op (o : Op)
  | privctl (whoP : Slot) (ctlEndpt : Endpoint) (q : PrivReq)

namespace PrivState

variable (s : PrivState)

/-- The effect of an operation, if it is possible. -/
def exec : PrivOp → Option PrivState
  | .op o => (s.kernel.exec o).map fun k => { s with kernel := k }
  | .privctl whoP e q => some (s.doPrivctl whoP e q).2

/-- One step of the kernel, which goes on unless it has halted. -/
def step (o : PrivOp) : Option PrivState := (s.exec o).filter fun s => !s.kernel.sched.halted

end PrivState

/-! ## The image of this system -/

/-- `s(n)`, the bit of a process of the boot image. -/
def maskOf (l : List Slot) : Fin 16 → Bool := fun j => j.val ∈ l.map fun p => p.val + 1

def usrM : Fin 16 → Bool := maskOf [PM, VFS, RS, VM]

def srvM : Fin 16 → Bool := fun _ => true

def idlF : Finset PrivFlag := {.sysProc, .preemptible, .billable}

def tskF : Finset PrivFlag := {.sysProc}

def srvF : Finset PrivFlag := {.sysProc, .preemptible}

def usrF : Finset PrivFlag := {.billable, .preemptible, .procFullvm}

def svmF : Finset PrivFlag := {.sysProc, .preemptible, .procFullvm}

/-- `FS_C`. -/
def fsC : Finset CallNr := {6, 15, 31, 32, 17, 14, 26, 2, 25, 24, 4, 5, 34, 38, 44}

/-- `DRV_C`. -/
def drvC : Finset CallNr := fsC ∪ {12, 19, 20, 21, 22, 23, 34, 38, 44}

/-- The boot image. -/
def image : List BootImage :=
  [⟨IDLE, idlF, 8, idleQ, 0, fun _ => false, some ∅⟩,
    ⟨CLOCK, tskF, 8, 0, 2 ^ 2, fun _ => false, some ∅⟩,
    ⟨SYSTEM, tskF, 8, 0, 2 ^ 2, fun _ => false, some ∅⟩,
    ⟨HARDWARE, tskF, 8, 0, 0, fun _ => false, some ∅⟩,
    ⟨PM, srvF, 32, 4, -1, srvM, none⟩,
    ⟨VFS, srvF, 32, 5, -1, srvM, some fsC⟩,
    ⟨RS, svmF, 4, 4, -1, srvM, none⟩,
    -- memory, log, tty, ds and mfs
    ⟨7, svmF, 4, 3, -1, srvM, some (drvC ∪ {16, 18, 28})⟩,
    ⟨8, srvF, 4, 2, -1, srvM, some drvC⟩,
    ⟨9, svmF, 4, 1, -1, srvM, some (drvC ∪ {16, 27, 28, 35})⟩,
    ⟨10, svmF, 4, 4, -1, srvM, none⟩,
    ⟨11, svmF, 32, 5, -1, srvM, some fsC⟩,
    ⟨VM, tskF, 32, 2, -1, srvM, none⟩,
    ⟨INIT, usrF, 8, 7, 2 ^ 3, usrM, some {44}⟩]

end Minix.Kernel
