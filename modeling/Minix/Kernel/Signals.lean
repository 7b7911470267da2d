import Minix.Kernel.Boot
import Minix.Lib.Run

/-!
# Kernel signals

`do_getksig`, `do_endksig`, `do_runctl` and the flags of `do_trace` (`kernel/system/`), and the protocol between
`cause_sig` and PM.

* `SigView` has what signals depend on of one process, and `State.sig` is its value in a state. Most functions of the
  kernel leave it as it is; `causeSig_sig` says that `cause_sig` makes `SigView.raise` of it.
* `signals_of_run`: in every run of `cause_sig`, `getksig` and `endksig` PM gets exactly the signals that were caused,
  and a process to which a signal was caused stays blocked until PM has ended with it.
-/

namespace Minix.Kernel

open Minix.Lib Function List

def EBUSY : Int := -16

/-! ## The calls of PM -/

/-- The fields of a message of `SYS_GETKSIG`. -/
structure SigMsg where
  sigEndpt : Endpoint
  sigMap : Nat
  deriving DecidableEq

/-- `RC_ACTION` of a message of `SYS_RUNCTL`. -/
inductive RcAction
  | stop | resume | other
  deriving DecidableEq

/-- The requests of `SYS_TRACE` that touch flags of the process table. -/
inductive TraceReq
  | stop | resume | step | syscall
  deriving DecidableEq

namespace State

variable (k : State)

/-- The process that `do_getksig` finds: the first one from `BEG_USER_ADDR` on that is signaled. -/
def nextSignaled : Option Slot := allSlots.find? fun p => nrTasks ≤ p && k.rtsIsset p .signaled

/-- `do_getksig(m_ptr)`. -/
def doGetksig (m : SigMsg) : Int × SigMsg × State :=
  match k.nextSignaled with
  | none => (OK, { m with sigEndpt := NONE }, k)
  | some p =>
    (OK, ⟨(k.proc p).pEndpoint, (k.proc p).pPending⟩,
      (k.modProc p fun r => { r with pPending := 0 }).rtsUnset p {.signaled})

/-- `do_endksig(m_ptr)`. -/
def doEndksig (sigEndpt : Endpoint) : Int × State :=
  match k.isokendpt sigEndpt with
  | none => (EINVAL, k)
  | some p =>
    if !k.rtsIsset p .sigPending then (EINVAL, k)
    else (OK, if !k.rtsIsset p .signaled then k.rtsUnset p {.sigPending} else k)

/-- The part of `do_runctl` for a stop that may be delayed: whether it is delayed. -/
def delayStop (p : Slot) : Bool × State :=
  let k := k.rtsSet p {.sysLock}
  let k :=
    if k.rtsIsset p .sending || k.mf p .scDefer then
      k.modProc p fun r => { r with pMiscFlags := r.pMiscFlags ∪ {.sigDelay} }
    else k
  (k.mf p .sigDelay, k.rtsUnset p {.sysLock})

/-- The part of `do_runctl` that sets or clears the stop flag. -/
def setStop (p : Slot) : RcAction → Int × State
  | .stop => (OK, k.rtsSet p {.procStop})
  | .resume => (OK, k.rtsUnset p {.procStop})
  | .other => (EINVAL, k)

/-- `do_runctl(m_ptr)`, where `rcDelay` is the flag `RC_DELAY` of `RC_FLAGS`. -/
def doRunctl (rcEndpt : Endpoint) (action : RcAction) (rcDelay : Bool) : Int × State :=
  match k.isokendpt rcEndpt with
  | none => (EINVAL, k)
  | some p =>
    if procNr p < 0 then (EPERM, k)
    else if action = .stop ∧ rcDelay then
      match k.delayStop p with
      | (true, k) => (EBUSY, k)
      | (false, k) => k.setStop p action
    else k.setStop p action

/-- `do_trace(m_ptr)`, without the requests that read or write the memory or the registers of the process. -/
def doTrace (e : Endpoint) (req : TraceReq) : Int × State :=
  match k.isokendpt e with
  | none => (EINVAL, k)
  | some p =>
    if procNr p < 0 then (EPERM, k)
    else if k.isemptyp p then (EINVAL, k)
    else
      match req with
      | .stop =>
        (OK, (k.rtsSet p {.pStop}).modProc p fun r => { r with pMiscFlags := r.pMiscFlags \ {.scTrace} })
      | .resume | .step => (OK, k.rtsUnset p {.pStop})
      | .syscall =>
        (OK, (k.modProc p fun r => { r with pMiscFlags := r.pMiscFlags ∪ {.scTrace} }).rtsUnset p {.pStop})

end State

/-! ## What signals depend on -/

/-- What signals depend on of one process. -/
@[ext] structure SigView where
  pending : Nat
  signaled : Bool
  sigPending : Bool
  sending : Bool
  delay : Bool
  defer : Bool
  live : Bool
  deriving DecidableEq

/-- A signal is added, and PM is told unless it knows of another one. -/
def SigView.raise (v : SigView) (sig : Nat) : SigView :=
  if v.pending.testBit sig then v
  else if v.signaled then { v with pending := v.pending ||| 2 ^ sig }
  else { v with pending := v.pending ||| 2 ^ sig, signaled := true, sigPending := true }

/-- The flags that are columns of `SigView`. -/
def sigFlags : Finset RtsFlag := {.slotFree, .noEndpoint, .sending, .signaled, .sigPending}

/-- The entry of the process table as signals see it. -/
def Proc.sig (r : Proc) : SigView where
  pending := r.pPending
  signaled := .signaled ∈ r.pRtsFlags
  sigPending := .sigPending ∈ r.pRtsFlags
  sending := .sending ∈ r.pRtsFlags
  delay := .sigDelay ∈ r.pMiscFlags
  defer := .scDefer ∈ r.pMiscFlags
  live := .slotFree ∉ r.pRtsFlags ∧ .noEndpoint ∉ r.pRtsFlags

namespace State

variable {k : State} {p : Slot}

/-- What signals depend on, of every process. -/
def sig (k : State) (p : Slot) : SigView := (k.proc p).sig

@[simp] theorem sig_record (e : Event) : (k.record e).sig = k.sig := rfl

theorem sig_modProc (f : Proc → Proc) : (k.modProc p f).sig = update k.sig p (f (k.proc p)).sig := by
  funext q
  by_cases hq : q = p
  · subst hq
    simp [sig, modProc]
  · simp [sig, modProc, hq]

theorem sig_same {f : Proc → Proc} (h : (f (k.proc p)).sig = (k.proc p).sig) : (k.modProc p f).sig = k.sig := by
  rw [sig_modProc, h]
  exact update_eq_self p k.sig

theorem sig_rtsSet (f : Finset RtsFlag) :
    (k.rtsSet p f).sig = (k.modProc p fun r => { r with pRtsFlags := r.pRtsFlags ∪ f }).sig := by
  unfold rtsSet
  split <;> rfl

theorem sig_rtsUnset (f : Finset RtsFlag) :
    (k.rtsUnset p f).sig = (k.modProc p fun r => { r with pRtsFlags := r.pRtsFlags \ f }).sig := by
  unfold rtsUnset
  dsimp only
  split <;> rfl

theorem sig_rtsSet_quiet {f : Finset RtsFlag} (hf : Disjoint sigFlags f) : (k.rtsSet p f).sig = k.sig := by
  have hn := fun x (hx : x ∈ sigFlags) => Finset.disjoint_left.mp hf hx
  simp only [sigFlags, Finset.mem_insert, Finset.mem_singleton, forall_eq_or_imp, forall_eq] at hn
  rw [sig_rtsSet]
  apply sig_same
  simp [Proc.sig, hn]

theorem sig_rtsUnset_quiet {f : Finset RtsFlag} (hf : Disjoint sigFlags f) : (k.rtsUnset p f).sig = k.sig := by
  have hn := fun x (hx : x ∈ sigFlags) => Finset.disjoint_left.mp hf hx
  simp only [sigFlags, Finset.mem_insert, Finset.mem_singleton, forall_eq_or_imp, forall_eq] at hn
  rw [sig_rtsUnset]
  apply sig_same
  simp [Proc.sig, hn]

@[simp] theorem sig_hand (via : Via) (s d : Slot) (m : Message) : (k.hand via s d m).sig = k.sig := by
  unfold hand queueMess
  rw [sig_record]
  exact sig_same (by simp [Proc.sig])

theorem sig_buildNotifyMessage (s d : Slot) : (k.buildNotifyMessage s d).2.sig = k.sig := by
  unfold buildNotifyMessage
  split_ifs <;> rfl

@[simp] theorem sig_miniNotify (c : Slot) (e : Endpoint) : (k.miniNotify c e).2.sig = k.sig := by
  unfold miniNotify
  split
  · rfl
  · split_ifs
    · rw [sig_rtsUnset_quiet (by decide), sig_hand, sig_buildNotifyMessage]
    · rfl

@[simp] theorem sig_sendSig (s : Nat) : (k.sendSig p s).sig = k.sig := by
  unfold sendSig
  split_ifs
  · rfl
  · exact sig_miniNotify ..

theorem causeSig_sig (hp : p ≠ PM) (s : Nat) : (k.causeSig p s).sig = update k.sig p ((k.sig p).raise s) := by
  unfold causeSig
  rw [if_neg hp]
  by_cases h1 : (k.sig p).pending.testBit s = true
  · have : (k.sig p).raise s = k.sig p := if_pos h1
    rw [this, update_eq_self]
    exact congrArg sig (if_pos h1)
  refine (congrArg sig (if_neg h1)).trans ?_
  set k1 := k.modProc p fun r => { r with pPending := r.pPending ||| 2 ^ s } with hk1
  have hs1 : k1.rtsIsset p .signaled = (k.sig p).signaled := by simp [hk1, rtsIsset, modProc, sig, Proc.sig]
  by_cases h2 : (k.sig p).signaled = true
  · have : (k.sig p).raise s = { k.sig p with pending := (k.sig p).pending ||| 2 ^ s } := by
      rw [SigView.raise, if_neg h1, if_pos h2]
    rw [if_pos (hs1.trans h2), sig_modProc, this]
    rfl
  · have : (k.sig p).raise s =
        { k.sig p with pending := (k.sig p).pending ||| 2 ^ s, signaled := true, sigPending := true } := by
      rw [SigView.raise, if_neg h1, if_neg h2]
    rw [if_neg (by rw [hs1]; exact h2), sig_sendSig, sig_rtsSet, sig_modProc, sig_modProc, update_idem, this]
    congr 1
    simp [hk1, modProc, sig, Proc.sig]

theorem causeSig_halts (s : Nat) : (k.causeSig PM s).sched.halted = true := by simp [causeSig, halt]

theorem doGetksig_sig (m : SigMsg) (h : k.nextSignaled = some p) : (k.doGetksig m).2.2.sig =
    update k.sig p { k.sig p with pending := 0, signaled := false } := by
  simp only [doGetksig, h]
  rw [sig_rtsUnset, sig_modProc, sig_modProc, update_idem]
  congr 1
  simp [modProc, sig, Proc.sig]

theorem nextSignaled_some (h : k.nextSignaled = some p) : (k.sig p).signaled = true := by
  have := find?_some h
  simp only [Bool.and_eq_true] at this
  exact this.2

theorem doEndksig_sig {e : Endpoint} (h : k.isokendpt e = some p) : (k.doEndksig e).2.sig =
    update k.sig p { k.sig p with sigPending := (k.sig p).signaled && (k.sig p).sigPending } := by
  simp only [doEndksig, h]
  have h1 : k.rtsIsset p .sigPending = (k.sig p).sigPending := rfl
  have h2 : k.rtsIsset p .signaled = (k.sig p).signaled := rfl
  rw [h1, h2]
  cases hp : (k.sig p).sigPending with
  | false => exact (update_eq_self_iff.mpr (by ext1 <;> simp [hp])).symm
  | true =>
    cases hs : (k.sig p).signaled with
    | true => exact (update_eq_self_iff.mpr (by ext1 <;> simp [hp, hs])).symm
    | false =>
      refine (sig_rtsUnset _).trans ((sig_modProc _).trans ?_)
      congr 1
      ext1 <;> simp [← hs, sig, Proc.sig]

end State

/-! ## The protocol with PM -/

/-- The operations of the protocol: a signal is caused, or PM makes one of its two calls. -/
inductive SigOp
  | cause (p : Slot) (sig : Nat)
  | getksig (m : SigMsg)
  | endksig (sigEndpt : Endpoint)

/-- What happens in a run of the protocol. -/
inductive SigEvent
  | caused (p : Slot) (sig : Nat)
  /-- PM got the signals `map` of `p`. -/
  | fetched (p : Slot) (map : Nat)
  /-- PM told the kernel that it is done with `p`. -/
  | ended (p : Slot)
  deriving DecidableEq

namespace State

/-- One operation of the protocol. A process that is signaled causes a panic if it is PM. -/
def sigStep (k : State) (o : SigOp) : Option State :=
  Option.filter (fun k => !k.sched.halted) <| some <|
    match o with
    | .cause p sig => k.causeSig p sig
    | .getksig m => (k.doGetksig m).2.2
    | .endksig e => (k.doEndksig e).2

/-- The event of an operation. Signals are fetched for the process that the reply names. -/
def sigEvents (k : State) (o : SigOp) (_ : State) : List SigEvent :=
  match o with
  | .cause p sig => [.caused p sig]
  | .getksig m =>
    (k.nextSignaled.filter fun p => (k.proc p).pEndpoint = (k.doGetksig m).2.1.sigEndpt).toList.map fun p =>
      .fetched p (k.doGetksig m).2.1.sigMap
  | .endksig e => (k.isokendpt e).toList.map .ended

end State

/-- Signal `sig` was caused to `p`, and PM has not fetched the signals of `p` since. -/
def Owed (T : List SigEvent) (p : Slot) (sig : Nat) : Prop :=
  ∃ A B, T = A ++ .caused p sig :: B ∧ ∀ m, .fetched p m ∉ B

/-- What the protocol guarantees after the events `T`. -/
structure SigProtocol (T : List SigEvent) (k : State) : Prop where
  /-- The pending signals are those that PM has not fetched. -/
  pending : ∀ p sig, (k.proc p).pPending.testBit sig = true ↔ Owed T p sig
  signaled : ∀ p, k.rtsIsset p .signaled = true ↔ ∃ sig, Owed T p sig
  sigPending : ∀ p, k.rtsIsset p .signaled = true → k.rtsIsset p .sigPending = true
  /-- What PM fetched were the signals that had been caused and not fetched. -/
  fetched : ∀ A p m B, T = A ++ .fetched p m :: B → ∀ sig, m.testBit sig = true ↔ Owed A p sig
  /-- A process is blocked from a signal on until PM ends with it while there is no signal to fetch. -/
  blocked : ∀ A p sig B, T = A ++ .caused p sig :: B →
    (∀ C D, B = C ++ .ended p :: D → ∃ s, Owed (A ++ .caused p sig :: C) p s) →
    k.rtsIsset p .sigPending = true ∧ k.runnable p = false

/-! ## The protocol in every run -/

theorem owed_concat {T : List SigEvent} {e : SigEvent} {p : Slot} {sig : Nat} :
    Owed (T ++ [e]) p sig ↔ e = .caused p sig ∨ Owed T p sig ∧ ∀ m, e ≠ .fetched p m := by
  constructor
  · rintro ⟨A, B, h, hB⟩
    rcases concat_eq_append_cons h with ⟨_, he, _⟩ | ⟨C, rfl, rfl⟩
    · exact .inl he
    · refine .inr ⟨⟨A, C, rfl, fun m hm => hB m ?_⟩, fun m hm => hB m ?_⟩
      · exact mem_append_left _ hm
      · rw [hm]
        simp
  · rintro (rfl | ⟨⟨A, B, rfl, hB⟩, he⟩)
    · exact ⟨T, [], rfl, nofun⟩
    · refine ⟨A, B ++ [e], by simp, fun m hm => ?_⟩
      rcases mem_append.mp hm with hm | hm
      · exact hB m hm
      · exact he m (mem_singleton.mp hm).symm

namespace SigView

variable {v : SigView} {s : Nat}

theorem testBit_raise {sig : Nat} :
    (v.raise s).pending.testBit sig = true ↔ v.pending.testBit sig = true ∨ sig = s := by
  have key : (v.pending ||| 2 ^ s).testBit sig = true ↔ v.pending.testBit sig = true ∨ sig = s := by
    rw [Nat.testBit_or, Bool.or_eq_true, Nat.testBit_two_pow, decide_eq_true_eq, @eq_comm _ s sig]
  unfold raise
  split_ifs with h1 h2
  · constructor
    · exact .inl
    · rintro (h | rfl)
      · exact h
      · exact h1
  · exact key
  · exact key

theorem signaled_raise (h : v.pending.testBit s = true → v.signaled = true) : (v.raise s).signaled = true := by
  unfold raise
  split_ifs with h1 h2
  · exact h h1
  · exact h2
  · rfl

theorem sigPending_raise (h : v.pending.testBit s = true → v.signaled = true)
    (h' : v.signaled = true → v.sigPending = true) : (v.raise s).sigPending = true := by
  unfold raise
  split_ifs with h1 h2
  · exact h' (h h1)
  · exact h' h2
  · rfl

end SigView

/-- `SigProtocol` in terms of what signals depend on. -/
structure Ledger (T : List SigEvent) (v : Slot → SigView) : Prop where
  pending : ∀ p sig, (v p).pending.testBit sig = true ↔ Owed T p sig
  signaled : ∀ p, (v p).signaled = true ↔ ∃ sig, Owed T p sig
  sigPending : ∀ p, (v p).signaled = true → (v p).sigPending = true
  fetched : ∀ A p m B, T = A ++ .fetched p m :: B → ∀ sig, m.testBit sig = true ↔ Owed A p sig
  blocked : ∀ A p sig B, T = A ++ .caused p sig :: B →
    (∀ C D, B = C ++ .ended p :: D → ∃ s, Owed (A ++ .caused p sig :: C) p s) → (v p).sigPending = true

namespace Ledger

variable {T : List SigEvent} {v : Slot → SigView}

section

variable (h : Ledger T v)

include h

theorem signaled_of_testBit {p : Slot} {sig : Nat} (hs : (v p).pending.testBit sig = true) : (v p).signaled = true :=
  (h.signaled p).mpr ⟨sig, (h.pending p sig).mp hs⟩

/-- An event that changes what is owed to one process at most, with the new entry of that process. -/
theorem concat {e : SigEvent} {q : Slot} {x : SigView} (hrest : ∀ p sig, p ≠ q → (Owed (T ++ [e]) p sig ↔ Owed T p sig))
    (hp : ∀ sig, x.pending.testBit sig = true ↔ Owed (T ++ [e]) q sig)
    (hs : x.signaled = true ↔ ∃ sig, Owed (T ++ [e]) q sig) (hx : x.signaled = true → x.sigPending = true)
    (hf : ∀ p m, e = .fetched p m → m = (v p).pending) (hc : ∀ p s, e = .caused p s → p = q ∧ x.sigPending = true)
    (hb : (v q).sigPending = true → (e = .ended q → (v q).signaled = true) → x.sigPending = true) :
    Ledger (T ++ [e]) (update v q x) where
  pending p sig := by
    by_cases hpq : p = q
    · subst hpq
      rw [update_self, hp]
    · rw [update_of_ne hpq, h.pending, hrest p sig hpq]
  signaled p := by
    by_cases hpq : p = q
    · subst hpq
      rw [update_self, hs]
    · simp only [update_of_ne hpq, h.signaled, hrest p _ hpq]
  sigPending p := by
    by_cases hpq : p = q
    · subst hpq
      rwa [update_self]
    · rw [update_of_ne hpq]
      exact h.sigPending p
  fetched A p m B hT := by
    rcases concat_eq_append_cons hT with ⟨rfl, he, _⟩ | ⟨C, _, hT'⟩
    · rw [hf p m he]
      exact h.pending p
    · exact h.fetched A p m C hT'
  blocked A p sig B hT hq := by
    rcases concat_eq_append_cons hT with ⟨_, he, _⟩ | ⟨C, hB, hT'⟩
    · obtain ⟨rfl, hx'⟩ := hc p sig he
      rwa [update_self]
    · have hold : (v p).sigPending = true := by
        refine h.blocked A p sig C hT' fun C' D hC => hq C' (D ++ [e]) ?_
        rw [hB, hC, append_assoc, cons_append]
      by_cases hpq : p = q
      · -- when PM has ended with `p` itself, there is a signal that it has not fetched
        subst hpq
        rw [update_self]
        exact hb hold fun he => (h.signaled p).mpr (hT' ▸ hq C [] (he ▸ hB))
      · rwa [update_of_ne hpq]

theorem caused (q : Slot) (s : Nat) : Ledger (T ++ [.caused q s]) (update v q ((v q).raise s)) := by
  have hx : ((v q).raise s).sigPending = true := SigView.sigPending_raise h.signaled_of_testBit (h.sigPending q)
  apply h.concat
  · simp +contextual [owed_concat, eq_comm]
  · intro sig
    rw [owed_concat, SigView.testBit_raise, h.pending]
    simp [eq_comm, or_comm]
  · exact iff_of_true (SigView.signaled_raise h.signaled_of_testBit) ⟨s, owed_concat.mpr (.inl rfl)⟩
  · exact fun _ => hx
  · exact nofun
  · rintro _ _ ⟨⟩
    exact ⟨rfl, hx⟩
  · exact fun _ _ => hx

theorem fetches (q : Slot) :
    Ledger (T ++ [.fetched q (v q).pending]) (update v q { v q with pending := 0, signaled := false }) := by
  apply h.concat
  · intro p sig hp
    simp [owed_concat, hp.symm]
  · simp [owed_concat]
  · simp [owed_concat]
  · exact nofun
  · rintro _ _ ⟨⟩
    rfl
  · exact nofun
  · exact fun hq _ => hq

theorem ends (q : Slot) :
    Ledger (T ++ [.ended q]) (update v q { v q with sigPending := (v q).signaled && (v q).sigPending }) := by
  apply h.concat
  · simp [owed_concat]
  · simp [owed_concat, h.pending]
  · simp [owed_concat, h.signaled]
  · intro hs
    simp [show (v q).signaled = true from hs, h.sigPending q hs]
  · exact nofun
  · exact nofun
  · intro hq he
    simp [hq, he rfl]

end

end Ledger

namespace State

variable {k k' : State}

/-- No process has a signal pending. -/
def NoSignals (k : State) : Prop := ∀ p, (k.proc p).pPending = 0 ∧ k.rtsIsset p .signaled = false

theorem NoSignals.ledger (h : k.NoSignals) : Ledger [] k.sig where
  pending p s := by
    have : (k.sig p).pending = 0 := (h p).1
    simp [this, Owed]
  signaled p := by
    have : (k.sig p).signaled = false := (h p).2
    simp [this, Owed]
  sigPending p hs := by
    have : (k.sig p).signaled = false := (h p).2
    rw [this] at hs
    cases hs
  fetched A p m B hT := by simp at hT
  blocked A p sig B hT := by simp at hT

theorem sigStep_ledger {T : List SigEvent} (h : Ledger T k.sig) {o : SigOp} (hs : k.sigStep o = some k') :
    Ledger (T ++ k.sigEvents o k') k'.sig := by
  obtain ⟨hx, hh⟩ := Option.filter_eq_some_iff.mp hs
  cases hx
  cases o with
  | cause p s =>
    have hp : p ≠ PM := by
      rintro rfl
      simp [causeSig_halts] at hh
    rw [causeSig_sig hp]
    exact h.caused p s
  | getksig m =>
    cases hn : k.nextSignaled with
    | none => simpa [sigEvents, doGetksig, hn] using h
    | some p =>
      rw [doGetksig_sig m hn]
      simp only [sigEvents, doGetksig, hn, Option.filter_some, decide_true, if_true, Option.toList_some,
        map_cons, map_nil]
      exact h.fetches p
  | endksig e =>
    cases hn : k.isokendpt e with
    | none => simpa [sigEvents, doEndksig, hn] using h
    | some p =>
      rw [doEndksig_sig hn]
      simpa [sigEvents, hn] using h.ends p

theorem not_runnable_of_sigPending {p : Slot} (h : (k.sig p).sigPending = true) : k.runnable p = false := by
  have h' : RtsFlag.sigPending ∈ (k.proc p).pRtsFlags := by simpa [sig, Proc.sig] using h
  simp [runnable, Finset.ne_empty_of_mem h']

/-- **The signal protocol**, in every run from a state without signals. -/
theorem signals_of_run {os : List SigOp} (h0 : k.NoSignals) (hr : run sigStep os k = some k') :
    SigProtocol (outputs sigStep sigEvents os k) k' := by
  have hok : AllOk sigStep (fun _ _ => True) os k := allOk_of_forall k fun _ _ _ => trivial
  have hl : Ledger ([] ++ outputs sigStep sigEvents os k) k'.sig :=
    run_history (I := fun T k => Ledger T k.sig) sigEvents (fun _ _ _ _ h _ hs => sigStep_ledger h hs) h0.ledger hok hr
  rw [nil_append] at hl
  exact {
    pending := hl.pending
    signaled := hl.signaled
    sigPending := hl.sigPending
    fetched := hl.fetched
    blocked := fun A p sig B hT hq => by
      have := hl.blocked A p sig B hT hq
      exact ⟨this, not_runnable_of_sigPending this⟩ }

end State

theorem sixState_noSignals : sixState.NoSignals := by
  unfold State.NoSignals
  decide +kernel

/-- A signal is caused to INIT while PM deals with another one. -/
def twoSignals : List SigOp :=
  [.cause INIT 2, .getksig ⟨NONE, 0⟩, .cause INIT 15, .endksig (procNr INIT), .getksig ⟨NONE, 0⟩]

theorem signals_twoSignals : sixState.NoSignals ∧ ∃ k, run State.sigStep twoSignals sixState = some k ∧
    outputs State.sigStep State.sigEvents twoSignals sixState =
      [.caused INIT 2, .fetched INIT (2 ^ 2), .caused INIT 15, .ended INIT, .fetched INIT (2 ^ 15)] ∧
    SigProtocol (outputs State.sigStep State.sigEvents twoSignals sixState) k := by
  refine ⟨sixState_noSignals, ?_⟩
  obtain ⟨k, hk⟩ : ∃ k, run State.sigStep twoSignals sixState = some k :=
    Option.isSome_iff_exists.mp (by decide +kernel)
  exact ⟨k, hk, by decide +kernel, State.signals_of_run sixState_noSignals hk⟩

end Minix.Kernel
