import Minix.Kernel.IrqHooks

/-!
# Masked interrupt lines

`masks_of_run`: if no driver removes a policy, and no driver exits that shares a line with another one, then a line with
hooks is masked exactly if one of them is active, and only hooks of the line are.

`rm_irq_handler` masks the line and does not look at it again, so that the exit of one driver leaves the others of its
line without interrupts (`shared_line_stays_masked`).
-/

namespace Minix.Kernel.IrqState

open Minix.Lib Function List BitVec

variable {s s' s'' : IrqState} {h : HookRef} {irq : IrqLine} {e : Endpoint}

/-- The line is masked exactly if it has an active bit. -/
def Lit (s : IrqState) (irq : IrqLine) : Prop := s.masked irq = true ↔ s.irqActids irq ≠ 0

def MaskOk (s : IrqState) : Prop := ∀ irq, s.irqHandlers irq ≠ [] → s.Lit irq

/-- Nothing happens to a line. -/
def SameLine (s s' : IrqState) (irq : IrqLine) : Prop :=
  s'.irqHandlers irq = s.irqHandlers irq ∧ s'.irqActids irq = s.irqActids irq ∧ s'.masked irq = s.masked irq

theorem SameLine.trans (h1 : SameLine s s' irq) (h2 : SameLine s' s'' irq) : SameLine s s'' irq :=
  ⟨h2.1.trans h1.1, h2.2.1.trans h1.2.1, h2.2.2.trans h1.2.2⟩

theorem MaskOk.of_line (hm : s.MaskOk) (irq : IrqLine) (hline : ∀ irq', irq' ≠ irq → SameLine s s' irq')
    (hl : s'.Lit irq) : s'.MaskOk := by
  intro irq' hne
  by_cases hi : irq' = irq
  · rwa [hi]
  · obtain ⟨h1, h2, h3⟩ := hline irq' hi
    rw [h1] at hne
    rw [Lit, h2, h3]
    exact hm irq' hne

/-- A line has an active bit exactly if one of its hooks is active. -/
theorem IrqOk.active_iff (hs : s.IrqOk) :
    s.irqActids irq ≠ 0 ↔ ∃ h ∈ s.irqHandlers irq, s.irqActids irq &&& s.idOf h ≠ 0 := by
  constructor
  · intro hne
    by_contra hno
    push Not at hno
    refine hne (eq_of_getElem_eq fun i hi => ?_)
    rw [ofNat_eq_ofNat, BitVec.getElem_zero, Bool.eq_false_iff]
    intro hb
    obtain ⟨h, hm, hbit⟩ := (getElem_bitmap ⟨i, hi⟩).mp (bitsIn_iff.mp (hs.active irq) ⟨i, hi⟩ hb)
    have := congrArg (fun y : BitVec 32 => y[i]) (hno h hm)
    simp only [getElem_and, ofNat_eq_ofNat, BitVec.getElem_zero, hb, Bool.true_and] at this
    exact absurd hbit (by simp [this])
  · rintro ⟨h, -, hne⟩ h0
    exact hne (by rw [h0]; simp)

theorem MaskOk.masked (hm : s.MaskOk) (hs : s.IrqOk) (ha : s.irqActids irq ≠ 0) : s.masked irq = true := by
  obtain ⟨h, hh, -⟩ := hs.active_iff.mp ha
  exact (hm irq (ne_nil_of_mem hh)).mpr ha

/-! ## Hooks -/

theorem enableIrq_line (h : HookRef) (hi : irq ≠ (s.irqHooks h).irq) : SameLine s (s.enableIrq h) irq := by
  unfold enableIrq
  dsimp only
  split <;> simp [SameLine, setActids, setMasked, hi]

theorem enableIrq_lit (ha : s.irqActids (s.irqHooks h).irq ≠ 0 → s.masked (s.irqHooks h).irq = true) :
    (s.enableIrq h).Lit (s.irqHooks h).irq := by
  unfold enableIrq Lit
  dsimp only
  split
  next h0 => simpa [setMasked] using h0
  next hne =>
    refine iff_of_true (ha fun h0 => hne ?_) hne
    simp [setActids, h0]

theorem disableIrq_maskOk (hm : s.MaskOk) (hid : s.idOf h ≠ 0) : (s.disableIrq h).MaskOk := by
  unfold disableIrq
  dsimp only
  split
  · exact hm
  next hno =>
    refine hm.of_line (s.irqHooks h).irq (fun irq' hi => ?_) ?_
    · simp [SameLine, setActids, setMasked, hi]
    · refine iff_of_true (by simp [setMasked]) fun h0 => hid ?_
      simp only [setMasked, setActids, update_self, ofNat_eq_ofNat, or_eq_zero_iff] at h0
      exact h0.2

theorem putIrqHandler_maskOk (hs : s.IrqOk) (hm : s.MaskOk) {i : Fin 16} (hi : (s.irqHooks (.table i)).procNrE = none)
    {n : Nat} {r : Bool} (h : (s.modHook (.table i) fun x =>
      { x with procNrE := some e, notifyId := n, reenable := r }).putIrqHandler (.table i) irq = some s') :
        s'.MaskOk := by
  unfold putIrqHandler at h
  dsimp only at h
  split at h
  next hmem => exact absurd hi (hs.owner irq _ hmem)
  split at h
  · cases h
  next id _ =>
    set s2 : IrqState := { ((s.modHook (.table i) _).modHook (.table i) _).setHandlers irq _ with irqUse := _ }
    have hirq : (s2.irqHooks (.table i)).irq = irq := by simp [s2, modHook, setHandlers]
    cases h
    refine hm.of_line irq (fun irq' hne => ?_) ?_
    · have h1 : SameLine s s2 irq' := by simp [SameLine, s2, modHook, setHandlers, hne]
      exact h1.trans (enableIrq_line _ (by rwa [hirq]))
    · have := enableIrq_lit (s := s2) (h := .table i) fun ha => by
        rw [hirq] at ha ⊢
        exact hm.masked hs ha
      rwa [hirq] at this

theorem irqHandle_maskOk (hs : s.IrqOk) (hm : s.MaskOk) (irq : IrqLine) : (s.irqHandle irq).MaskOk := by
  have hloop : ∀ (l : List HookRef) (t : IrqState), (∀ h ∈ l, (t.irqHooks h).irq = irq) →
      (l.foldl (fun t h => t.callHandler irq h) t).masked = t.masked ∧
        ∀ irq' ≠ irq, SameLine t (l.foldl (fun t h => t.callHandler irq h) t) irq' := by
    intro l
    induction l with
    | nil => exact fun t _ => ⟨rfl, fun _ _ => ⟨rfl, rfl, rfl⟩⟩
    | cons h l ih =>
      intro t ht
      have hh := ht h mem_cons_self
      have h1 : (t.callHandler irq h).irqHooks = t.irqHooks ∧ (t.callHandler irq h).masked = t.masked ∧
          ∀ irq' ≠ irq, SameLine t (t.callHandler irq h) irq' := by
        unfold callHandler
        dsimp only
        split
        · refine ⟨rfl, rfl, fun irq' hne => ?_⟩
          simp [SameLine, setActids, hh, hne]
        · refine ⟨rfl, rfl, fun irq' hne => ?_⟩
          simp [SameLine, setActids, hne]
      obtain ⟨h2, h3⟩ := ih (t.callHandler irq h) fun x hx => by
        rw [h1.1]
        exact ht x (mem_cons_of_mem h hx)
      exact ⟨h2.trans h1.2.1, fun irq' hne => (h1.2.2 irq' hne).trans (h3 irq' hne)⟩
  obtain ⟨h1, h2⟩ := hloop (s.irqHandlers irq) (s.setMasked irq true) fun h hh => (hs.ids irq h hh).1
  have h3 : ∀ irq' ≠ irq, SameLine s (s.setMasked irq true) irq' := fun irq' hne => by simp [SameLine, setMasked, hne]
  unfold irqHandle
  dsimp only
  split
  next h0 =>
    refine hm.of_line irq (fun irq' hne => ((h3 irq' hne).trans (h2 irq' hne)).trans ?_) ?_
    · simp [SameLine, setMasked, hne]
    · simpa [Lit, setMasked] using h0
  next hne =>
    refine hm.of_line irq (fun irq' hne => (h3 irq' hne).trans (h2 irq' hne)) (iff_of_true ?_ hne)
    rw [h1]
    exact update_self ..

/-! ## Exits -/

/-- The hooks that `e` has left are on no line, and only their lines have changed. -/
structure Left (e : Endpoint) (s s' : IrqState) : Prop where
  owner : ∀ h, (s'.irqHooks h).procNrE = (s.irqHooks h).procNrE ∨ (s'.irqHooks h).procNrE = none
  sub : ∀ irq, s'.irqHandlers irq ⊆ s.irqHandlers irq
  line : ∀ irq, SameLine s s' irq ∨ ∃ i, .table i ∈ s.irqHandlers irq ∧ (s.irqHooks (.table i)).procNrE = some e

theorem Left.refl (e : Endpoint) (s : IrqState) : Left e s s :=
  ⟨fun _ => .inl rfl, fun _ => List.Subset.refl _, fun _ => .inl ⟨rfl, rfl, rfl⟩⟩

theorem Left.trans (h : Left e s s') (h' : Left e s' s'') : Left e s s'' where
  owner x := by
    rcases h'.owner x with h2 | h2
    · rw [h2]
      exact h.owner x
    · exact .inr h2
  sub irq := List.Subset.trans (h'.sub irq) (h.sub irq)
  line irq := by
    rcases h.line irq with h1 | h1
    · refine (h'.line irq).imp h1.trans ?_
      rintro ⟨i, hi, ho⟩
      refine ⟨i, h.sub irq hi, ?_⟩
      rcases h.owner (.table i) with h2 | h2
      · rwa [h2] at ho
      · rw [h2] at ho
        cases ho
    · exact .inr h1

theorem clearHook_left (hs : s.IrqOk) (e : Endpoint) (i : Fin 16) :
    Left e s (s.clearHook e i) ∧ ((s.clearHook e i).irqHooks (.table i)).procNrE ≠ some e := by
  unfold clearHook
  split
  case isFalse ho => exact ⟨.refl e s, ho⟩
  next ho =>
  have hm := hs.mem_line ho
  have hr := rmIrqHandler_removed hs hm
  refine ⟨⟨fun x => ?_, fun irq => (hr.sublist irq).subset, fun irq => ?_⟩, by simp [modHook]⟩
  · by_cases hx : x = .table i
    · exact .inr (by simp [modHook, hx])
    · exact .inl (by simp [modHook, hx, hr.hooks])
  · by_cases hi : irq = (s.irqHooks (.table i)).irq
    · exact .inr ⟨i, hi ▸ hm, ho⟩
    · left
      unfold rmIrqHandler
      dsimp only
      split_ifs <;> simp [SameLine, modHook, setHandlers, setActids, setMasked, hi]

theorem clearHooks_left (hs : s.IrqOk) (e : Endpoint) :
    Left e s (s.clearHooks e) ∧ ∀ i, ((s.clearHooks e).irqHooks (.table i)).procNrE ≠ some e := by
  suffices h : ∀ (l : List (Fin 16)) (s : IrqState), s.IrqOk →
      Left e s (l.foldl (fun s i => s.clearHook e i) s) ∧
        ∀ i ∈ l, ((l.foldl (fun s i => s.clearHook e i) s).irqHooks (.table i)).procNrE ≠ some e by
    obtain ⟨h1, h2⟩ := h (List.finRange 16) s hs
    exact ⟨h1, fun i => h2 i (mem_finRange i)⟩
  intro l
  induction l with
  | nil => exact fun s _ => ⟨.refl e s, fun i hi => by cases hi⟩
  | cons i l ih =>
    intro s hs
    obtain ⟨h1, h2⟩ := clearHook_left hs e i
    obtain ⟨h3, h4⟩ := ih _ (clearHook_ok hs e i).1
    refine ⟨h1.trans h3, fun j hj => ?_⟩
    rcases mem_cons.mp hj with rfl | hj
    · rcases h3.owner (.table j) with h5 | h5
      · rwa [foldl_cons, h5]
      · rw [foldl_cons, h5]
        exact nofun
    · exact h4 j hj

/-- A process that exits shares no line with others, and no driver removes a policy. -/
def AloneOk (s : IrqState) : IrqOp → Prop
  | .exit e => ∀ irq, (∃ i, .table i ∈ s.irqHandlers irq ∧ (s.irqHooks (.table i)).procNrE = some e) →
      ∀ h ∈ s.irqHandlers irq, ∃ i, h = .table i ∧ (s.irqHooks h).procNrE = some e
  | o => s.StepOk o

theorem AloneOk.stepOk {o : IrqOp} (h : s.AloneOk o) : s.StepOk o := by
  cases o with
  | exit => trivial
  | interrupt | irqctl => exact h

theorem clearHooks_maskOk (hs : s.IrqOk) (hm : s.MaskOk) (hal : s.AloneOk (.exit e)) : (s.clearHooks e).MaskOk := by
  obtain ⟨hl, hgone⟩ := clearHooks_left hs e
  have hs' := (clearHooks_ok hs e).1
  intro irq hne
  rcases hl.line irq with ⟨h1, h2, h3⟩ | hown
  · rw [h1] at hne
    rw [Lit, h2, h3]
    exact hm irq hne
  · -- all hooks of the line were those of the process, so that none is left
    obtain ⟨h, hh⟩ := exists_mem_of_ne_nil _ hne
    obtain ⟨i, rfl, ho⟩ := hal irq hown h (hl.sub irq hh)
    rcases hl.owner (.table i) with h2 | h2
    · exact absurd (h2.trans ho) (hgone i)
    · exact absurd h2 (hs'.owner irq _ hh)

/-- A step masks a line exactly if it has an active bit. -/
theorem step_maskOk (hs : s.IrqOk) (hm : s.MaskOk) {o : IrqOp} (hal : s.AloneOk o) (h : s.step o = some s') :
    s'.MaskOk := by
  cases step_done h with
  | same => exact hm
  | @enable e i ha ho =>
    exact hm.of_line _ (fun irq' hi => enableIrq_line _ hi) (enableIrq_lit fun ha => hm.masked hs ha)
  | disable ha ho =>
    obtain ⟨k, hk, hid⟩ := (hs.ids _ _ (hs.mem_line ho)).2
    exact disableIrq_maskOk hm (hid ▸ twoPow_ne_zero hk)
  | put ha hi h1 => exact putIrqHandler_maskOk hs hm hi h1
  | remove ha ho hno => exact absurd hal.stepOk hno
  | exit ho =>
    subst ho
    exact clearHooks_maskOk hs hm hal
  | interrupt => exact irqHandle_maskOk hs hm _

/-- **Interrupt lines.** In every run in which no driver removes a policy, and none exits that shares a line with
others, a line that has hooks is masked exactly if one of them is active, and only hooks of the line are active. -/
theorem masks_of_run {os : List IrqOp} (hok : AllOk step AloneOk os start) (hr : run step os start = some s)
    (irq : IrqLine) :
    (s.irqHandlers irq ≠ [] →
      (s.masked irq = true ↔ ∃ h ∈ s.irqHandlers irq, s.irqActids irq &&& s.idOf h ≠ 0)) ∧
    BitsIn (s.irqActids irq) (s.bitmap (s.irqHandlers irq)) := by
  have hstart : start.MaskOk := by
    intro irq hne
    by_cases hi : irq = 0
    · simp [Lit, start, hi]
    · exact absurd (if_neg hi) hne
  have hs : s.IrqOk ∧ s.MaskOk := by
    refine run_invariant (I := fun s => s.IrqOk ∧ s.MaskOk) (fun s o s' hs hal h => ?_) ⟨start_ok, hstart⟩ hok hr
    exact ⟨step_ok hs.1 hal.stepOk h, step_maskOk hs.1 hs.2 hal h⟩
  exact ⟨fun hne => (hs.2 irq hne).trans hs.1.active_iff, hs.1.active irq⟩

/-- Two drivers share line 3 and have an interrupt. The first one has handled it. -/
def sharedPending : List IrqOp :=
  [.irqctl 20 none (.setPolicy 3 0 false), .irqctl 21 none (.setPolicy 3 1 false), .interrupt 3,
    .irqctl 20 none (.enable 1)]

/-- The line stays masked for the second driver. -/
theorem masks_of_run_pending : ∃ s, run step sharedPending start = some s ∧ s.irqHandlers 3 = [.table 0, .table 1] ∧
    s.masked 3 = true ∧ (s.masked 3 = true ↔ ∃ h ∈ s.irqHandlers 3, s.irqActids 3 &&& s.idOf h ≠ 0) := by
  obtain ⟨s, hs, hl, hm⟩ : ∃ s, run step sharedPending start = some s ∧ s.irqHandlers 3 = [.table 0, .table 1] ∧
      s.masked 3 = true := by decide +kernel
  refine ⟨s, hs, hl, hm, (masks_of_run ?_ hs 3).1 (by simp [hl])⟩
  exact ⟨trivial, trivial, trivial, trivial, trivial⟩

/-- Two drivers on line 3 have enabled it, and the first one exits. No hook is active, and the line stays masked. -/
theorem shared_line_stays_masked : ∃ s, run step sharedThenExit start = some s ∧ s.irqHandlers 3 = [.table 1] ∧
    s.irqActids 3 = 0 ∧
    s.masked 3 = true := by
  refine ⟨_, rfl, ?_⟩
  decide +kernel

end Minix.Kernel.IrqState
