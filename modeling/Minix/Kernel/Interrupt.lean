import Minix.Kernel.Privileges

/-!
# Interrupt hooks

`put_irq_handler`, `rm_irq_handler`, `irq_handle`, `enable_irq` and `disable_irq` (`kernel/interrupt.c`), `do_irqctl`
(`kernel/system/do_irqctl.c`), and the loop of `clear_proc` (`kernel/system/do_exit.c`) over the hooks of a process.

The hooks of a line are a list here. A hook has one `next` field, and it is only put on a list when it is on none.
-/

namespace Minix.Kernel

open Function

/-- The interrupt lines: `NR_IRQ_VECTORS` is 16. -/
abbrev IrqLine := Fin 16

/-- Where a hook is: in the table `irq_hooks` of `NR_IRQ_HOOKS` hooks, or the hook of the clock. -/
inductive HookRef
  | clock
  | table (i : Fin 16)
  deriving DecidableEq

/-- `irq_hook_t`. -/
structure IrqHook where
  irq : IrqLine := 0
  id : BitVec 32 := 0
  /-- `NONE` if the hook is not in use. -/
  procNrE : Option Endpoint := none
  notifyId : Nat := 0
  /-- `IRQ_REENABLE` in `policy`. -/
  reenable : Bool := false

/-- The hooks, the lists of the lines with their active bits, the map of lines in use, and the lines that are masked. -/
structure IrqState where
  irqHooks : HookRef → IrqHook
  irqHandlers : IrqLine → List HookRef
  irqActids : IrqLine → BitVec 32
  irqUse : BitVec 32
  masked : IrqLine → Bool

/-- `IRQ_REQUEST` with its arguments. -/
inductive IrqReq
  | enable (irqHookId : Int)
  | disable (irqHookId : Int)
  | setPolicy (irqVector : Int) (irqHookId : Int) (reenable : Bool)
  | rmPolicy (irqHookId : Int)
  | other

namespace IrqState

variable (s : IrqState)

def modHook (h : HookRef) (f : IrqHook → IrqHook) : IrqState :=
  { s with irqHooks := update s.irqHooks h (f (s.irqHooks h)) }

def setHandlers (irq : IrqLine) (l : List HookRef) : IrqState :=
  { s with irqHandlers := update s.irqHandlers irq l }

def setActids (irq : IrqLine) (b : BitVec 32) : IrqState := { s with irqActids := update s.irqActids irq b }

/-- `hw_intr_mask(irq)` and `hw_intr_unmask(irq)`. -/
def setMasked (irq : IrqLine) (b : Bool) : IrqState := { s with masked := update s.masked irq b }

/-- `enable_irq(hook)`. -/
def enableIrq (hook : HookRef) : IrqState :=
  let irq := (s.irqHooks hook).irq
  let s := s.setActids irq (s.irqActids irq &&& ~~~(s.irqHooks hook).id)
  if s.irqActids irq = 0 then s.setMasked irq false else s

/-- `disable_irq(hook)`. -/
def disableIrq (hook : HookRef) : IrqState :=
  let irq := (s.irqHooks hook).irq
  if s.irqActids irq &&& (s.irqHooks hook).id ≠ 0 then s
  else (s.setActids irq (s.irqActids irq ||| (s.irqHooks hook).id)).setMasked irq true

/-- The ids in use on a line. -/
def bitmap (l : List HookRef) : BitVec 32 := l.foldr (fun h b => (s.irqHooks h).id ||| b) 0

/-- The lowest id that is not in use. -/
def lowestId (bitmap : BitVec 32) : Option (BitVec 32) :=
  ((List.range 32).map fun k => BitVec.twoPow 32 k).find? fun id => bitmap &&& id = 0

/-- `put_irq_handler(hook, irq, handler)`. The kernel panics if there are too many handlers. -/
def putIrqHandler (hook : HookRef) (irq : IrqLine) : Option IrqState :=
  let line := s.irqHandlers irq
  -- extra initialization
  if hook ∈ line then some s
  else
    match lowestId (s.bitmap line) with
    | none => none
    | some id =>
      let s := (s.modHook hook fun r => { r with irq := irq, id := id }).setHandlers irq (line ++ [hook])
      some ({ s with irqUse := s.irqUse ||| BitVec.twoPow 32 irq }.enableIrq hook)

/-- `rm_irq_handler(hook)`. -/
def rmIrqHandler (hook : HookRef) : IrqState :=
  let irq := (s.irqHooks hook).irq
  let id := (s.irqHooks hook).id
  let s := (s.setActids irq (s.irqActids irq ||| id)).setMasked irq true
  let line := s.irqHandlers irq
  if ∃ h ∈ line, (s.irqHooks h).id = id then
    -- the first hook with this id, whose hook it may be
    let line := line.eraseP fun h => (s.irqHooks h).id = id
    let s := s.setHandlers irq line
    let s := if line = [] then { s with irqUse := s.irqUse &&& ~~~BitVec.twoPow 32 irq } else s
    s.setActids irq (s.irqActids irq &&& ~~~id)
  else s

/-- A handler is called: the one of the clock always reenables the line, the others do if their policy says so. -/
def callHandler (irq : IrqLine) (hook : HookRef) : IrqState :=
  let s := s.setActids irq (s.irqActids irq ||| (s.irqHooks hook).id)
  if hook = .clock ∨ (s.irqHooks hook).reenable then
    let irq := (s.irqHooks hook).irq
    s.setActids irq (s.irqActids irq &&& ~~~(s.irqHooks hook).id)
  else s

/-- `irq_handle(irq)`. -/
def irqHandle (irq : IrqLine) : IrqState :=
  let s := (s.irqHandlers irq).foldl (fun s h => s.callHandler irq h) (s.setMasked irq true)
  if s.irqActids irq = 0 then s.setMasked irq false else s

/-! ## Requests -/

/-- The hook with a hook identifier, which start at 1. -/
def hookOf (irqHookId : Int) : Option (Fin 16) :=
  if h : 1 ≤ irqHookId ∧ irqHookId ≤ 16 then some ⟨(irqHookId - 1).toNat, by omega⟩ else none

/-- The hook that a process may control. -/
def ownHook (source : Endpoint) (irqHookId : Int) : Except Int (Fin 16) :=
  match hookOf irqHookId with
  | none => .error EINVAL
  | some i =>
    match (s.irqHooks (.table i)).procNrE with
    | none => .error EINVAL
    | some e => if e = source then .ok i else .error EPERM

/-- The first hook that is free. -/
def freeHook : Option (Fin 16) := (List.finRange 16).find? fun i => (s.irqHooks (.table i)).procNrE = none

/-- `IRQ_SETPOLICY`. `irqTab` are the lines that the caller's privileges allow, if they are checked. The result has the
index of the hook. -/
def setPolicy (source : Endpoint) (irqTab : Option (List Int)) (irqVector irqHookId : Int) (reenable : Bool) :
    Option (Int × Option (Fin 16) × IrqState) :=
  if h : 0 ≤ irqVector ∧ irqVector < 16 then
    if irqTab.any (irqVector ∉ ·) then some (EPERM, none, s)
    else
      match s.freeHook with
      | none => some (ENOSPC, none, s)
      | some i =>
        -- the identifier is compared as an unsigned number
        if irqHookId < 0 ∨ irqHookId > 31 then some (EINVAL, none, s)
        else
          let s := s.modHook (.table i) fun r =>
            { r with procNrE := some source, notifyId := irqHookId.toNat, reenable := reenable }
          (s.putIrqHandler (.table i) ⟨irqVector.toNat, by omega⟩).map fun s => (OK, some i, s)
  else some (EINVAL, none, s)

/-- `do_irqctl(m_ptr)`. -/
def doIrqctl (source : Endpoint) (irqTab : Option (List Int)) : IrqReq → Option (Int × Option (Fin 16) × IrqState)
  | .enable id =>
    match s.ownHook source id with
    | .error r => some (r, none, s)
    | .ok i => some (OK, none, s.enableIrq (.table i))
  | .disable id =>
    match s.ownHook source id with
    | .error r => some (r, none, s)
    | .ok i => some (OK, none, s.disableIrq (.table i))
  | .setPolicy v id reenable => s.setPolicy source irqTab v id reenable
  | .rmPolicy id =>
    match s.ownHook source id with
    | .error r => some (r, none, s)
    | .ok i => some (OK, none, s.rmIrqHandler (.table i))
  | .other => some (EINVAL, none, s)

/-- A round of the loop of `clear_proc` over the hooks. -/
def clearHook (e : Endpoint) (i : Fin 16) : IrqState :=
  if (s.irqHooks (.table i)).procNrE = some e then
    (s.rmIrqHandler (.table i)).modHook (.table i) fun r => { r with procNrE := none }
  else s

/-- The hooks of an exiting process are released. -/
def clearHooks (e : Endpoint) : IrqState := (List.finRange 16).foldl (fun s i => s.clearHook e i) s

end IrqState

/-- What can happen to the hooks. -/
inductive IrqOp
  | irqctl (source : Endpoint) (irqTab : Option (List Int)) (q : IrqReq)
  | exit (e : Endpoint)
  | interrupt (irq : IrqLine)

namespace IrqState

/-- The hook of the clock is on line 0. -/
def start : IrqState where
  irqHooks
    | .clock => { irq := 0, id := 1, procNrE := some (-3) }
    | .table _ => {}
  irqHandlers irq := if irq = 0 then [.clock] else []
  irqActids _ := 0
  irqUse := 1
  masked irq := irq ≠ 0

/-- The effect of an operation, unless the kernel panics. -/
def step (s : IrqState) : IrqOp → Option IrqState
  | .irqctl source tab q => (s.doIrqctl source tab q).map fun x => x.2.2
  | .exit e => some (s.clearHooks e)
  | .interrupt irq => some (s.irqHandle irq)

end IrqState

end Minix.Kernel
