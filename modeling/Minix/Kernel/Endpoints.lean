import Minix.Kernel.Delay
import Minix.Kernel.Leaves
import Minix.Kernel.Privileges

/-!
# Endpoints

An endpoint is made of a generation and a process number. `do_fork` gives the child the next generation of its slot.

* `endpoint_inverse`: both can be read off again, nothing overflows, and no endpoint is one of the magic numbers.
* `endpoints_of_run`: in every run in which no process forks while it has callers or is sending, two processes never
  have the same endpoint, and that of a dead process is not valid until its slot was used in all generations.
* `isokendpt_dead`: without the condition a child takes the message of a caller of its parent that has died meanwhile,
  and `sig_delay_done` sets flags in the free slot, which makes the endpoint of the dead process valid again.
-/

namespace Minix.Kernel

open Minix.Lib

/-! ## Arithmetic -/

theorem maxGeneration_eq : endpointMaxGeneration = 58740 := by decide

/-- A value of type `int`. -/
def IsInt (n : Int) : Prop := -2 ^ 31 ≤ n ∧ n < 2 ^ 31

/-- Everything that `_ENDPOINT`, `_ENDPOINT_P` and `_ENDPOINT_G` compute for generation `g` and number `p` is an `int`.
-/
structure NoOverflow (g p : Int) : Prop where
  base : IsInt (g * endpointGenerationSize)
  value : IsInt (endpoint g p)
  shifted : IsInt (endpoint g p + maxNrTasks)
  rest : IsInt ((endpoint g p + maxNrTasks).tmod endpointGenerationSize)

/-- **Endpoints**: the generation and the number of an endpoint, without overflow and apart from the magic numbers. -/
theorem endpoint_inverse {g p : Int} (hg : 0 ≤ g) (hg' : g < endpointMaxGeneration) (hp : -maxNrTasks ≤ p)
    (hp' : p < NONE) :
    NoOverflow g p ∧ endpointP (endpoint g p) = p ∧ endpointG (endpoint g p) = g ∧
      endpoint g p ≠ ANY ∧ endpoint g p ≠ NONE ∧ endpoint g p ≠ SELF := by
  rw [maxGeneration_eq] at hg'
  unfold maxNrTasks at hp
  unfold NONE at hp'
  have he : endpoint g p + maxNrTasks = (p + 1023) + g * 36558 := by
    rw [endpoint, generationSize_eq, maxNrTasks]; ring
  have hmod : (endpoint g p + maxNrTasks).tmod endpointGenerationSize = p + 1023 := by
    rw [he, generationSize_eq, Int.tmod_eq_emod_of_nonneg (by omega), Int.add_mul_emod_self_right,
      Int.emod_eq_of_lt (by omega) (by omega)]
  have hdiv : (endpoint g p + maxNrTasks).tdiv endpointGenerationSize = g := by
    rw [he, generationSize_eq, Int.tdiv_eq_ediv_of_nonneg (by omega), Int.add_mul_ediv_right _ _ (by norm_num),
      Int.ediv_eq_zero_of_lt (by omega) (by omega), zero_add]
  have hval : endpoint g p = g * 36558 + p := by rw [endpoint, generationSize_eq]
  refine ⟨⟨?_, ?_, ?_, ?_⟩, ?_, hdiv, ?_, ?_, ?_⟩
  · rw [generationSize_eq]
    constructor <;> omega
  · rw [hval]
    constructor <;> omega
  · rw [he]
    constructor <;> omega
  · rw [hmod]
    constructor <;> omega
  · rw [endpointP, hmod, maxNrTasks]
    ring
  -- the magic numbers are between the endpoints of two generations
  · intro h
    have h : g * 36558 + p = (0x7ace : Int) := hval.symm.trans h
    omega
  · intro h
    have h : g * 36558 + p = (0x6ace : Int) := hval.symm.trans h
    omega
  · intro h
    have h : g * 36558 + p = (0x8ace : Int) := hval.symm.trans h
    omega

/-- The generation of a slot after it was used `n` times more. -/
def laterGen (g : Int) (n : Nat) : Int :=
  if g + n < endpointMaxGeneration then g + n else g + n - (endpointMaxGeneration - 1)

theorem laterGen_zero {g : Int} (hg : g < endpointMaxGeneration) : laterGen g 0 = g := by simp [laterGen, hg]

theorem laterGen_bounds {g : Int} (hg : 0 ≤ g) (hg' : g < endpointMaxGeneration) {n : Nat}
    (hn : n < endpointMaxGeneration - 1) : 0 ≤ laterGen g n ∧ laterGen g n < endpointMaxGeneration := by
  unfold laterGen
  split_ifs <;> constructor <;> omega

theorem laterGen_succ {g : Int} (hg : 0 ≤ g) (hg' : g < endpointMaxGeneration) {n : Nat}
    (hn : (n : Int) + 1 < endpointMaxGeneration - 1) (p : Slot) :
    State.nextGen (endpoint (laterGen g n) (procNr p)) = laterGen g (n + 1) := by
  have hb := laterGen_bounds hg hg' (n := n) (by omega)
  rw [State.nextGen, endpointG_endpoint hb.1]
  unfold laterGen at hb ⊢
  push_cast
  split_ifs at hb ⊢ <;> omega

/-- A generation comes back only when the slot was used in all the others. -/
theorem laterGen_ne {g : Int} {n : Nat} (h0 : 0 < n) (hn : n < endpointMaxGeneration - 1) : laterGen g n ≠ g := by
  unfold laterGen
  split_ifs <;> omega

/-! ## Operations of the system task -/

/-- An operation of the kernel, or the assignment of privileges. -/
inductive SysOp
  | ctl (o : CtlOp)
  | privctl (whoP : Slot) (ctlEndpt : Endpoint) (q : PrivReq)

namespace PrivState

/-- The effect of an operation, if it is possible. -/
def sysExec (s : PrivState) : SysOp → Option PrivState
  | .ctl o => (s.kernel.ctlExec o).map fun k => { s with kernel := k }
  | .privctl whoP e q => some (s.doPrivctl whoP e q).2

/-- One step of the kernel, which goes on unless it has halted. -/
def sysStep (s : PrivState) (o : SysOp) : Option PrivState := (s.sysExec o).filter fun s => !s.kernel.sched.halted

/-- A process that forks has no callers in its queue and is not sending. -/
def ForksOk (s : PrivState) : SysOp → Prop
  | .ctl (.op o) => s.kernel.ForkOk o
  | _ => True

instance (s : PrivState) : ∀ o, Decidable (s.ForksOk o)
  | .ctl (.op o) => inferInstanceAs (Decidable (s.kernel.ForkOk o))
  | .ctl (.getksig _) | .ctl (.endksig _) | .ctl (.runctl ..) | .ctl (.trace ..) | .privctl .. => isTrue trivial

end PrivState

/-! ## What happens to a slot -/

namespace View

/-- What a step does to slot `p`: its endpoint stays, and a free slot stays free, or a process is born in a free slot
and gets the endpoint of the next generation. -/
inductive SlotStep (v : View) (p : Slot) (w : View) : Prop
  | same (he : w.endpoint p = v.endpoint p) (hf : v.empty p = true → w.empty p = true)
  | born (hf : v.empty p = true) (hn : w.empty p = false)
      (he : w.endpoint p = Kernel.endpoint (State.nextGen (v.endpoint p)) (procNr p))

theorem SameSlots.slotStep {v w : View} (h : v.SameSlots w) (p : Slot) : v.SlotStep p w :=
  .same (by rw [h.endpoint]) (by rw [h.empty]; exact id)

theorem Dies.sameSlots {v w : View} {rc : Slot} (h : v.Dies rc w) : w.endpoint = v.endpoint ∧ w.empty = v.empty := by
  obtain ⟨f, v2, -, hu, rfl⟩ := h
  rcases hu with ⟨-, rfl⟩ | ⟨t, l, r, -, -, rfl⟩
  · exact ⟨rfl, rfl⟩
  · exact ⟨rfl, rfl⟩

end View

namespace State

variable {k k' : State}

theorem doFork_slotStep (hg : k.view.Good) (e : Endpoint) (rpc : Slot) (vm : Bool) (lin : Nat) (p : Slot) :
    k.view.SlotStep p (k.doFork e rpc vm lin).2.view := by
  rcases doFork_fork hg e rpc vm lin with h | ⟨rpp, i, -, -, hn, hc, h⟩
  · rw [h]
    exact .same rfl id
  rw [h]
  by_cases hp : p = rpc
  · subst hp
    exact .born hc (by simp [View.fork]) (by simp [View.fork])
  · exact .same (by simp [View.fork, hp]) (by simp [View.fork, hp])

/-- What a step of the kernel does to a slot. -/
theorem step_slotStep (hg : k.view.Good) {o : Op} (h : k.step o = some k') (p : Slot) : k.view.SlotStep p k'.view := by
  have hv := step_view hg h
  generalize hw : k'.view = w at hv
  cases hv with
  | call hc _ hw' => exact (hw'.sameSlots hg).slotStep p
  | resume _ hw' =>
    cases hw' with
    | delivered => exact .same rfl id
    | notify hn => exact hn.eases.sameSlots.slotStep p
    | called _ hc hn => exact ((hc.sameSlots hg).trans hn.eases.sameSlots).slotStep p
  | notify hw' => exact hw'.eases.sameSlots.slotStep p
  | noReply => exact .same rfl id
  | reply _ _ hr => exact hr.sameSlots.slotStep p
  | noExit => exact .same rfl id
  | exit _ hd =>
    obtain ⟨h1, h2⟩ := hd.sameSlots
    refine .same (by simp [View.gone, View.setProcOf, h1]) fun hf => ?_
    simp only [View.gone, View.setProcOf, Function.update_apply, h2]
    split
    · rfl
    · exact hf
  | signal hw' => exact hw'.eases.sameSlots.slotStep p
  | kill _ _ hn hd =>
    obtain ⟨h1, h2⟩ := hd.sameSlots
    have hs := hn.eases.sameSlots
    exact .same (by rw [h1, hs.endpoint]) (by rw [h2, hs.empty]; exact id)
  | noFork => exact .same rfl id
  | fork =>
    obtain ⟨hx, -⟩ := Option.filter_eq_some_iff.mp h
    cases hx
    rw [← hw]
    exact doFork_slotStep hg _ _ _ _ p

/-! ## Privileges -/

/-- Some processes have new privileges, and may have been waiting for them. -/
def Regrants (k k' : State) : Prop :=
  (∀ p, ∃ i f, (f = (k.proc p).pRtsFlags ∨ f = (k.proc p).pRtsFlags \ {.noPriv}) ∧
    k'.proc p = { k.proc p with pPriv := i, pRtsFlags := f }) ∧ k'.log = k.log

namespace Regrants

variable {k k' k'' : State}

theorem of_proc (hp : k'.proc = k.proc) (hl : k'.log = k.log) : k.Regrants k' :=
  ⟨fun p => ⟨_, _, .inl rfl, by rw [hp]⟩, hl⟩

theorem trans (h : k.Regrants k') (h' : k'.Regrants k'') : k.Regrants k'' := by
  refine ⟨fun p => ?_, h'.2.trans h.2⟩
  obtain ⟨i, f, hf, hp⟩ := h.1 p
  obtain ⟨i', f', hf', hp'⟩ := h'.1 p
  rw [hp] at hf' hp'
  refine ⟨i', f', ?_, hp'⟩
  rcases hf with rfl | rfl <;> rcases hf' with rfl | rfl
  · exact .inl rfl
  · exact .inr rfl
  · exact .inr rfl
  · exact .inr (by simp)

theorem modPriv (i : PrivId) (f : Priv → Priv) : k.Regrants (k.modPriv i f) := of_proc rfl rfl

theorem getPriv (rc : Slot) (sys : Bool) : k.Regrants (k.getPriv rc sys).2 := by
  have h : ∀ i, k.Regrants (k.modProc rc fun r => { r with pPriv := i }) := fun i =>
    ⟨fun p => by
      by_cases hp : p = rc
      · subst hp
        exact ⟨i, _, .inl rfl, by simp [modProc]⟩
      · exact ⟨(k.proc p).pPriv, _, .inl rfl, by simp [modProc, hp]⟩, rfl⟩
  unfold State.getPriv
  split
  · split
    · exact of_proc rfl rfl
    · exact (h _).trans (modPriv _ _)
  · exact (h _).trans (modPriv _ _)

theorem rtsUnset_noPriv (p : Slot) : k.Regrants (k.rtsUnset p {.noPriv}) := by
  obtain ⟨h1, -, -, h4⟩ := rtsUnset_fixed k p {.noPriv}
  refine ⟨fun q => ?_, h4⟩
  rw [h1]
  by_cases hq : q = p
  · subst hq
    exact ⟨(k.proc q).pPriv, _, .inr rfl, by simp [modProc]⟩
  · exact ⟨(k.proc q).pPriv, _, .inl rfl, by simp [modProc, hq]⟩

theorem sendMask (rp : Slot) (mask : PrivId → Bool) : k.Regrants (k.sendMask rp mask) := by
  have hset : ∀ (k : State) i, k.Regrants (k.setSendtoBit rp i) := by
    intro k i
    unfold setSendtoBit
    split
    · exact of_proc rfl rfl
    · split_ifs <;> exact of_proc rfl rfl
  unfold State.sendMask
  generalize List.finRange 32 = l
  induction l generalizing k with
  | nil => exact of_proc rfl rfl
  | cons i l ih =>
    rw [List.foldl_cons]
    refine .trans ?_ ih
    split
    · exact hset k i
    · exact of_proc rfl rfl

theorem eases (h : k.Regrants k') (hg : k.view.Good) : k.view.Eases k'.view := by
  have hrow : ∀ p, (k'.proc p).pEndpoint = (k.proc p).pEndpoint ∧ (k'.proc p).pGetfromE = (k.proc p).pGetfromE ∧
      (k'.proc p).pSendtoE = (k.proc p).pSendtoE ∧ (k'.proc p).pCallerQ = (k.proc p).pCallerQ ∧
      (k'.proc p).pQLink = (k.proc p).pQLink ∧ (k'.proc p).pSendmsg = (k.proc p).pSendmsg := by
    intro p
    obtain ⟨i, f, -, hp⟩ := h.1 p
    rw [hp]
    exact ⟨rfl, rfl, rfl, rfl, rfl, rfl⟩
  have hflag : ∀ p x, x ≠ .noPriv → (x ∈ (k'.proc p).pRtsFlags ↔ x ∈ (k.proc p).pRtsFlags) := by
    intro p x hx
    obtain ⟨i, f, hf, hp⟩ := h.1 p
    rw [hp]
    rcases hf with rfl | rfl
    · exact Iff.rfl
    · simp [hx]
  have hempty : ∀ p, k'.view.empty p = k.view.empty p := by
    intro p
    obtain ⟨i, f, hf, hp⟩ := h.1 p
    simp only [State.view, hp]
    rcases hf with rfl | rfl
    · rfl
    · -- a free slot has no other flag
      have hfree : .slotFree ∈ (k.proc p).pRtsFlags ↔ (k.proc p).pRtsFlags = {.slotFree} := by
        have := hg.free_eq p
        simpa [State.view] using this
      rw [decide_eq_decide]
      constructor
      · intro he
        refine hfree.mp ?_
        have : RtsFlag.slotFree ∈ (k.proc p).pRtsFlags \ {.noPriv} := by rw [he]; simp
        exact (Finset.mem_sdiff.mp this).1
      · intro he
        rw [he]
        decide
  refine .quiet ?_ ?_ h.2
  · have hcol : ∀ x, x ≠ RtsFlag.noPriv → (fun p => decide (x ∈ (k'.proc p).pRtsFlags)) =
        fun p => decide (x ∈ (k.proc p).pRtsFlags) := fun x hx => funext fun p => by
          rw [decide_eq_decide]; exact hflag p x hx
    simp only [View.core, View.Core.mk.injEq]
    exact ⟨funext fun p => (hrow p).1, funext hempty, hcol _ (by decide), hcol _ (by decide), hcol _ (by decide),
      funext fun p => (hrow p).2.1, funext fun p => (hrow p).2.2.1, funext fun p => (hrow p).2.2.2.1,
      funext fun p => (hrow p).2.2.2.2.1, funext fun p => (hrow p).2.2.2.2.2⟩
  · exact funext fun p => by
      simp only [State.view, decide_eq_decide]
      exact hflag p _ (by decide)

end Regrants

end State

namespace PrivState

variable {s s' : PrivState}

open State (Regrants)

theorem initDefaults_regrants (rp caller : Slot) : s.kernel.Regrants (s.initDefaults rp caller).kernel :=
  (Regrants.modPriv _ _).trans (Regrants.sendMask rp _)

theorem initArg_regrants (rp : Slot) (a : PrivArg) : s.kernel.Regrants (s.initArg rp a).2.kernel := by
  rcases s.initArg_cases rp a with ⟨-, h⟩ | ⟨-, h⟩ | h <;> rw [h]
  · exact .of_proc rfl rfl
  · exact Regrants.modPriv _ _
  · exact ((Regrants.modPriv _ _).trans (Regrants.modPriv _ _)).trans (Regrants.sendMask rp _)

theorem privInit_regrants (rp caller : Slot) (arg : Option (Except Int PrivArg)) :
    s.kernel.Regrants (s.privInit rp caller arg).2.kernel := by
  unfold privInit
  have h1 : s.kernel.Regrants (s.kernel.getPriv rp true).2 := Regrants.getPriv rp true
  cases hk : s.kernel.getPriv rp true with
  | mk r k =>
    rw [hk] at h1
    dsimp only
    split_ifs
    · exact .of_proc rfl rfl
    have h2 : s.kernel.Regrants ({ s with kernel := k }.initDefaults rp caller).kernel :=
      h1.trans (initDefaults_regrants (s := { s with kernel := k }) rp caller)
    generalize { s with kernel := k }.initDefaults rp caller = s1 at h2
    split
    · exact h2
    · next a =>
      have h3 := h2.trans (initArg_regrants rp a)
      split
      · exact h3
      · exact h3.trans (Regrants.rtsUnset_noPriv rp)
    · exact h2.trans (Regrants.rtsUnset_noPriv rp)

theorem doPrivctl_regrants (whoP : Slot) (e : Endpoint) (q : PrivReq) :
    s.kernel.Regrants (s.doPrivctl whoP e q).2.kernel := by
  rcases s.doPrivctl_cases whoP e q with h | ⟨rp, f, -, h⟩ | ⟨-, rp, -, -, ⟨-, h⟩ | ⟨arg, -, h⟩⟩ <;> rw [h]
  · exact .of_proc rfl rfl
  · exact Regrants.modPriv _ _
  · exact (Regrants.getPriv rp false).trans (Regrants.rtsUnset_noPriv rp)
  · exact privInit_regrants rp whoP arg

/-- A step of the kernel, or one that keeps the queues, the slots and the endpoints. -/
theorem sysStep_cases (hg : s.kernel.view.Good) {o : SysOp} (h : s.sysStep o = some s') :
    (∃ o', o = .ctl (.op o') ∧ s.kernel.step o' = some s'.kernel) ∨ s.kernel.view.Eases s'.kernel.view := by
  obtain ⟨hx, hh⟩ := Option.filter_eq_some_iff.mp h
  cases o with
  | privctl whoP e q =>
    cases hx
    exact .inr ((doPrivctl_regrants whoP e q).eases hg)
  | ctl o =>
    obtain ⟨k, hk, rfl⟩ := Option.map_eq_some_iff.mp hx
    cases o with
    | op o =>
      have hs : s.kernel.ctlStep (.op o) = some k := Option.filter_eq_some_iff.mpr ⟨hk, hh⟩
      exact .inl ⟨o, rfl, (State.ctlStep_op hs).1⟩
    | getksig m =>
      cases hk
      exact .inr (.of_eq (State.doGetksig_view hg m))
    | endksig e =>
      cases hk
      exact .inr (.of_eq (State.doEndksig_view hg e))
    | runctl e a d =>
      cases hk
      exact .inr (.of_eq (State.doRunctl_view hg e a d))
    | trace e r =>
      cases hk
      exact .inr (.of_eq (State.doTrace_view hg e r))

theorem sysStep_good (hg : s.kernel.view.Good) {o : SysOp} (hok : s.ForksOk o) (h : s.sysStep o = some s') :
    s'.kernel.view.Good := by
  rcases sysStep_cases hg h with ⟨o', rfl, hs⟩ | he
  · exact State.step_good hg hok hs
  · exact hg.eases he

/-- What a step of the system does to a slot. -/
theorem sysStep_slotStep (hg : s.kernel.view.Good) {o : SysOp} (h : s.sysStep o = some s') (p : Slot) :
    s.kernel.view.SlotStep p s'.kernel.view := by
  rcases sysStep_cases hg h with ⟨o', -, hs⟩ | he
  · exact State.step_slotStep hg hs p
  · exact he.sameSlots.slotStep p

/-! ## Generations -/

/-- The endpoint of every slot has a generation below the bound. -/
structure Numbered (s : PrivState) : Prop where
  good : s.kernel.view.Good
  gen : ∀ p, ∃ g, 0 ≤ g ∧ g < endpointMaxGeneration ∧ s.kernel.view.endpoint p = endpoint g (procNr p)

/-- A step keeps the numbering of the slots. -/
theorem Numbered.step (h : s.Numbered) {o : SysOp} (hok : s.ForksOk o) (hs : s.sysStep o = some s') : s'.Numbered := by
  refine ⟨sysStep_good h.good hok hs, fun p => ?_⟩
  obtain ⟨g, hg, hg', he⟩ := h.gen p
  cases sysStep_slotStep h.good hs p with
  | same he' _ => exact ⟨g, hg, hg', he'.trans he⟩
  | born _ _ he' =>
    refine ⟨_, ?_, ?_, he'⟩
    all_goals
      rw [he, State.nextGen, endpointG_endpoint hg]
      rw [maxGeneration_eq] at hg' ⊢
      split_ifs <;> omega

theorem numbered_of_initial (h : s.kernel.Initial) : s.Numbered where
  good := h.good
  gen p := ⟨0, le_refl 0, by decide, (h.endpoint p).trans (by simp [endpoint])⟩

/-- The births in slot `p`. -/
def births (p : Slot) (s : PrivState) (_ : SysOp) (s' : PrivState) : List Slot :=
  if s.kernel.isemptyp p = true ∧ s'.kernel.isemptyp p = false then [p] else []

/-- The slot `p`, which was free and had the endpoint of generation `g`, after `n` births. -/
def After (g : Int) (p : Slot) (n : Nat) (s : PrivState) : Prop :=
  (n : Int) < endpointMaxGeneration - 1 →
    s.kernel.view.endpoint p = endpoint (laterGen g n) (procNr p) ∧ (n = 0 → s.kernel.view.empty p = true)

/-- A step adds its births to those of the slot. -/
theorem After.step {g : Int} {p : Slot} {n : Nat} (hg : 0 ≤ g) (hg' : g < endpointMaxGeneration) (hs : s.Numbered)
    (h : After g p n s) {o : SysOp} (hst : s.sysStep o = some s') : After g p (n + (births p s o s').length) s' := by
  have hmt : ∀ s : PrivState, s.kernel.isemptyp p = s.kernel.view.empty p := fun s => rfl
  intro hn
  unfold births at hn ⊢
  rw [hmt, hmt] at hn ⊢
  cases sysStep_slotStep hs.good hst p with
  | same he hf =>
    have hno : ¬ (s.kernel.view.empty p = true ∧ s'.kernel.view.empty p = false) := by
      rintro ⟨h1, h2⟩
      rw [hf h1] at h2
      cases h2
    rw [if_neg hno] at hn ⊢
    obtain ⟨h1, h2⟩ := h hn
    exact ⟨he.trans h1, fun h0 => hf (h2 h0)⟩
  | born hf hb he =>
    rw [if_pos ⟨hf, hb⟩] at hn ⊢
    obtain ⟨h1, -⟩ := h (by omega)
    rw [he, h1, laterGen_succ hg hg' hn]
    exact ⟨rfl, nofun⟩

/-- An endpoint is not valid while the slot it is of has not been used in all generations. -/
theorem After.isokendpt {g : Int} {p : Slot} {n : Nat} (hg : 0 ≤ g) (hg' : g < endpointMaxGeneration)
    (h : After g p n s)
    (hn : (n : Int) < endpointMaxGeneration - 1) : s.kernel.isokendpt (endpoint g (procNr p)) = none := by
  obtain ⟨h1, h2⟩ := h hn
  cases hd : s.kernel.isokendpt (endpoint g (procNr p)) with
  | none => rfl
  | some d =>
    obtain ⟨ha, hb, hc⟩ := State.isokendpt_iff.mp hd
    rw [endpointP_endpoint hg, procAddr_procNr] at ha
    cases ha
    rcases Nat.eq_zero_or_pos n with h0 | h0
    · rw [h2 h0] at hb
      cases hb
    · have heq := congrArg endpointG (h1.symm.trans hc)
      rw [endpointG_endpoint (laterGen_bounds hg hg' hn).1, endpointG_endpoint hg] at heq
      exact absurd heq (laterGen_ne h0 hn)

/-- Different processes have different endpoints. -/
def Distinct (s : PrivState) : Prop :=
  ∀ p q, s.kernel.isemptyp p = false → s.kernel.isemptyp q = false →
    (s.kernel.proc p).pEndpoint = (s.kernel.proc q).pEndpoint → p = q

/-- The endpoint `e` is not valid in any run from here, until slot `p` has been used in all generations. -/
def Rejects (s : PrivState) (p : Slot) (e : Endpoint) : Prop :=
  ∀ os s', AllOk sysStep ForksOk os s → run sysStep os s = some s' →
    ((outputs sysStep (births p) os s).length : Int) < endpointMaxGeneration - 1 → s'.kernel.isokendpt e = none

/-- **Endpoints in every run** whose forks are by processes without callers that are not sending: they can be read,
those of different processes are different, and the one of a process that dies is not valid any more. -/
theorem endpoints_of_run (os : List SysOp) (h0 : s.kernel.Initial) (hok : AllOk sysStep ForksOk os s)
    (hr : run sysStep os s = some s') :
    (∀ g p : Int, 0 ≤ g → g < endpointMaxGeneration → -maxNrTasks ≤ p → p < NONE →
      NoOverflow g p ∧ endpointP (endpoint g p) = p ∧ endpointG (endpoint g p) = g ∧
        endpoint g p ≠ ANY ∧ endpoint g p ≠ NONE ∧ endpoint g p ≠ SELF) ∧
      s'.Distinct ∧
      ∀ p o s'', s'.kernel.isemptyp p = false → s'.ForksOk o → s'.sysStep o = some s'' →
        s''.kernel.isemptyp p = true → s''.Rejects p (s'.kernel.proc p).pEndpoint := by
  have hs : s'.Numbered := run_invariant (fun _ _ _ h => h.step) (numbered_of_initial h0) hok hr
  refine ⟨fun g p hg hg' hp hp' => endpoint_inverse hg hg' hp hp', fun p q _ _ he => hs.good.endpoint_inj.mp he, ?_⟩
  intro p o s'' hlive hfork hstep hdead os₂ s₃ hok₂ hr₂ hn
  obtain ⟨g, hg, hg', he⟩ := hs.gen p
  have he'' : s''.kernel.view.endpoint p = endpoint g (procNr p) := by
    cases sysStep_slotStep hs.good hstep p with
    | same h1 _ => exact h1.trans he
    | born hf _ _ =>
      rw [show s'.kernel.view.empty p = false from hlive] at hf
      cases hf
  have hstart : After g p 0 s'' := fun _ => ⟨by rw [he'', laterGen_zero hg'], fun _ => hdead⟩
  have hend := (run_history (I := fun T t => t.Numbered ∧ After g p T.length t) (T := []) (births p)
    (fun T t o t' ht ho hst => ⟨ht.1.step ho hst, by
      rw [List.length_append]
      exact ht.2.step hg hg' ht.1 hst⟩)
    ⟨hs.step hfork hstep, hstart⟩ hok₂ hr₂).2
  rw [List.nil_append] at hend
  rw [show (s'.kernel.proc p).pEndpoint = endpoint g (procNr p) from he]
  exact hend.isokendpt hg hg' hn

end PrivState

/-! ## Two runs -/

/-- A system with one more process, in slot 40, and a free privilege structure. -/
def withForty : PrivState :=
  { clearedTables with
    kernel := (startState [IDLE, SYSTEM, PM, VFS, RS, INIT, 40]).modPriv 31 fun r => { r with sProcNr := none } }

theorem withForty_initial : withForty.kernel.Initial where
  endpoint := by decide +kernel
  flags := by decide +kernel
  callerQ := by decide +kernel
  deliver := by decide +kernel
  asynsize := by decide +kernel
  log := by decide +kernel

/-- The process in slot 40 dies, and INIT forks a child in the slot. -/
def reborn : List SysOp :=
  [.ctl (.op (plainCall PM RECEIVE ANY)), .ctl (.op (plainCall INIT SENDREC (procNr PM))),
    .ctl (.op (.fork (procNr INIT) 40 false 1))]

/-- The endpoint of the process in slot 40 is not the one of the next process there. -/
theorem endpoints_of_run_reborn : ∃ s s', withForty.sysStep (.ctl (.op (.exit PM (procNr 40)))) = some s ∧
    run PrivState.sysStep reborn s = some s' ∧ s'.kernel.isokendpt (procNr 40) = none ∧
    s'.kernel.isokendpt (endpoint 1 (procNr 40)) = some 40 := by
  obtain ⟨s, hs, hd, s', hr, hn, hok, he⟩ : ∃ s, withForty.sysStep (.ctl (.op (.exit PM (procNr 40)))) = some s ∧
      s.kernel.isemptyp 40 = true ∧ ∃ s', run PrivState.sysStep reborn s = some s' ∧
      ((outputs PrivState.sysStep (PrivState.births 40) reborn s).length : Int) < endpointMaxGeneration - 1 ∧
      AllOk PrivState.sysStep PrivState.ForksOk reborn s ∧ s'.kernel.isokendpt (endpoint 1 (procNr 40)) = some 40 := by
    decide +kernel
  have h := PrivState.endpoints_of_run [] withForty_initial trivial rfl
  exact ⟨s, s', hs, hr, h.2.2 40 (.ctl (.op (.exit PM (procNr 40)))) s
    (by decide +kernel) trivial hs hd reborn s' hok hr hn, he⟩

/-- The process goes on, and makes no call. -/
def goOn (p : Slot) : SysOp := .ctl (.op (.resume p { callNr := 0, srcDstE := 0, buf := ⟨0, 1, none⟩ } false))

/-- The process in slot 40 is sending to RS and is to be stopped when RS forks. -/
def senderOfForking : List SysOp :=
  [.ctl (.op (plainCall 40 SENDREC (procNr RS))), .ctl (.runctl (procNr 40) .stop true),
    .ctl (.op (plainCall PM RECEIVE ANY)), .ctl (.op (plainCall RS SENDREC (procNr PM))),
    .ctl (.op (.fork (procNr RS) 20 false 1))]

/-- The child of RS is answered, gets its privileges and receives. -/
def childReceives : List SysOp :=
  [goOn PM, .ctl (.op (plainCall PM SEND (endpoint 1 (procNr 20)))), .privctl RS (endpoint 1 (procNr 20)) (.init none),
    goOn 20, .ctl (.op (plainCall 20 RECEIVE ANY))]

/-- The process in slot 40 dies. The child of RS takes its message, and its endpoint is valid again. -/
theorem isokendpt_dead : ∃ s, run PrivState.sysStep senderOfForking withForty = some s ∧
    s.kernel.isemptyp 40 = false ∧ ∃ s₁, s.sysStep (.ctl (.op (.exit PM (procNr 40)))) = some s₁ ∧
    s₁.kernel.isemptyp 40 = true ∧ s₁.kernel.isokendpt (procNr 40) = none ∧
    ∃ s₂, run PrivState.sysStep childReceives s₁ = some s₂ ∧ s₂.kernel.isokendpt (procNr 40) = some 40 := by
  decide +kernel

end Minix.Kernel
