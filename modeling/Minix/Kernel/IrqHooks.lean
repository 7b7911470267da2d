import Minix.Kernel.Interrupt
import Minix.Lib.Run

/-!
# Isolation of interrupt hooks

`hooks_isolated`: in every run in which no driver removes a policy, the hooks of a line have different ids of one bit
each, a hook is on the list of its line while it has an owner and is free otherwise, and what a process does leaves the
hooks of the others as they are.

With `IRQ_RMPOLICY` all of this fails (`hooks_not_isolated`). The hook leaves its line, but keeps its owner, who can
still use its id, which the next hook of the line gets.
-/

namespace Minix.Kernel

open Minix.Lib Function List BitVec Option

/-! ## Bits -/

section

variable {x a b : BitVec 32}

theorem or_and_of_disjoint (h : a &&& b = 0) : (x ||| a) &&& b = x &&& b := by
  ext i hi
  have := congrArg (fun y : BitVec 32 => y[i]) h
  simp only [getElem_and, getElem_or, ofNat_eq_ofNat, BitVec.getElem_zero] at this ⊢
  cases x[i] <;> simp_all

theorem andNot_and_of_disjoint (h : a &&& b = 0) : (x &&& ~~~a) &&& b = x &&& b := by
  ext i hi
  have := congrArg (fun y : BitVec 32 => y[i]) h
  simp only [getElem_and, getElem_not, ofNat_eq_ofNat, BitVec.getElem_zero] at this ⊢
  cases x[i] <;> cases ha : a[i] <;> simp_all

/-- All bits of `x` are in `b`. -/
def BitsIn (x b : BitVec 32) : Prop := x &&& ~~~b = 0

theorem bitsIn_iff : BitsIn x b ↔ ∀ i : Fin 32, x[i] = true → b[i] = true := by
  unfold BitsIn
  constructor
  · intro h i hx
    have := congrArg (fun y : BitVec 32 => y[i]) h
    simp only [Fin.getElem_fin] at hx ⊢
    simpa [hx] using this
  · intro h
    ext i hi
    have := h ⟨i, hi⟩
    cases hx : x[i] <;> simp_all

theorem BitsIn.or (hx : BitsIn x b) (ha : BitsIn a b) : BitsIn (x ||| a) b := by
  rw [bitsIn_iff] at *
  intro i hi
  simp only [Fin.getElem_fin, getElem_or, Bool.or_eq_true] at hi
  rcases hi with hi | hi
  · exact hx i hi
  · exact ha i hi

theorem BitsIn.andNot (hx : BitsIn x b) : BitsIn (x &&& ~~~a) b := by
  rw [bitsIn_iff] at *
  intro i hi
  simp only [Fin.getElem_fin, getElem_and, Bool.and_eq_true] at hi
  exact hx i hi.1

theorem BitsIn.trans {c : BitVec 32} (h : BitsIn x b) (h' : BitsIn b c) : BitsIn x c := by
  rw [bitsIn_iff] at *
  exact fun i hi => h' i (h i hi)

end

theorem twoPow_ne_zero {k : Nat} (h : k < 32) : twoPow 32 k ≠ 0 := by
  intro h0
  have := congrArg (fun y : BitVec 32 => y.getLsbD k) h0
  simp [h] at this

namespace IrqState

variable {s s' : IrqState} {l : List HookRef} {h' : HookRef}

theorem lowestId_some {b id : BitVec 32} (h : lowestId b = some id) : b &&& id = 0 ∧ ∃ k < 32, id = twoPow 32 k := by
  refine ⟨by simpa using find?_some h, ?_⟩
  obtain ⟨k, hk, rfl⟩ := mem_map.mp (mem_of_find?_eq_some h)
  exact ⟨k, mem_range.mp hk, rfl⟩

/-! ## The invariant -/

/-- The id of a hook. -/
def idOf (s : IrqState) (h : HookRef) : BitVec 32 := (s.irqHooks h).id

/-- Two hooks of a line: they differ and have no bit in common. -/
def Apart (s : IrqState) (h h' : HookRef) : Prop := h ≠ h' ∧ s.idOf h &&& s.idOf h' = 0

/-- What holds of the hooks and their lines. -/
structure IrqOk (s : IrqState) : Prop where
  /-- The hooks of a line have it as their line, and ids of one bit. -/
  ids : ∀ irq, ∀ h ∈ s.irqHandlers irq, (s.irqHooks h).irq = irq ∧ ∃ k < 32, s.idOf h = twoPow 32 k
  /-- The ids of a line have no bits in common. -/
  apart : ∀ irq, (s.irqHandlers irq).Pairwise s.Apart
  /-- Only hooks of the line are active. -/
  active : ∀ irq, BitsIn (s.irqActids irq) (s.bitmap (s.irqHandlers irq))
  /-- A hook on a list has an owner. -/
  owner : ∀ irq, ∀ h ∈ s.irqHandlers irq, (s.irqHooks h).procNrE ≠ none
  /-- A hook on no list is free. -/
  free : ∀ h, (∀ irq, h ∉ s.irqHandlers irq) → (s.irqHooks h).procNrE = none

/-- The hooks that others than `e` have registered are as before. -/
def Isolated (e : Endpoint) (s s' : IrqState) : Prop :=
  ∀ h e' irq, (s.irqHooks h).procNrE = some e' → e' ≠ e → h ∈ s.irqHandlers irq →
    h ∈ s'.irqHandlers irq ∧ s'.idOf h = s.idOf h ∧ s'.irqActids irq &&& s.idOf h = s.irqActids irq &&& s.idOf h ∧
      (s'.irqHooks h).procNrE = some e'

theorem Isolated.refl (e : Endpoint) (s : IrqState) : Isolated e s s := fun _ _ _ ho _ hm => ⟨hm, rfl, rfl, ho⟩

variable {e : Endpoint}

theorem Isolated.trans {s'' : IrqState} (h : Isolated e s s') (h' : Isolated e s' s'') : Isolated e s s'' := by
  intro x e' irq ho hne hm
  obtain ⟨hm', hid, hact, ho'⟩ := h x e' irq ho hne hm
  obtain ⟨hm'', hid', hact', ho''⟩ := h' x e' irq ho' hne hm'
  rw [hid] at hid' hact'
  exact ⟨hm'', hid', hact'.trans hact, ho''⟩

theorem getElem_bitmap (i : Fin 32) : (s.bitmap l)[i] = true ↔ ∃ h ∈ l, (s.idOf h)[i] = true := by
  induction l with
  | nil => simp [bitmap]
  | cons h l ih =>
    rw [show s.bitmap (h :: l) = s.idOf h ||| s.bitmap l from rfl]
    simp only [Fin.getElem_fin, getElem_or, Bool.or_eq_true, mem_cons, exists_eq_or_imp] at ih ⊢
    rw [ih]

variable {h : HookRef}

theorem bitsIn_bitmap (hm : h ∈ l) : BitsIn (s.idOf h) (s.bitmap l) :=
  bitsIn_iff.mpr fun i hi => (getElem_bitmap i).mpr ⟨h, hm, hi⟩

theorem and_eq_zero_of_bitsIn {a b c : BitVec 32} (h : BitsIn a b) (hbc : b &&& c = 0) : a &&& c = 0 := by
  rw [bitsIn_iff] at h
  ext i hi
  have h1 := h ⟨i, hi⟩
  have h2 := congrArg (fun y : BitVec 32 => y[i]) hbc
  simp only [Fin.getElem_fin, getElem_and, ofNat_eq_ofNat, BitVec.getElem_zero] at h1 h2 ⊢
  cases ha : a[i] <;> simp_all

theorem bitmap_congr (h : ∀ x ∈ l, s'.idOf x = s.idOf x) : s'.bitmap l = s.bitmap l := by
  induction l with
  | nil => rfl
  | cons x l ih =>
    show s'.idOf x ||| s'.bitmap l = s.idOf x ||| s.bitmap l
    rw [h x mem_cons_self, ih fun y hy => h y (mem_cons_of_mem x hy)]

theorem bitmap_append (s : IrqState) (l : List HookRef) (h : HookRef) : s.bitmap (l ++ [h]) = s.idOf h |||
    s.bitmap l := by
  induction l with
  | nil => rfl
  | cons x l ih =>
    show s.idOf x ||| s.bitmap (l ++ [h]) = s.idOf h ||| (s.idOf x ||| s.bitmap l)
    rw [ih, ← BitVec.or_assoc, ← BitVec.or_assoc, BitVec.or_comm (s.idOf x)]

theorem Apart.symm (ha : s.Apart h h') : s.Apart h' h := by
  refine ⟨ha.1.symm, ?_⟩
  rw [BitVec.and_comm]
  exact ha.2

namespace IrqOk

theorem apart_of_ne (hs : s.IrqOk) (hm : h ∈ s.irqHandlers irq) (hm' : h' ∈ s.irqHandlers irq)
    (hne : h ≠ h') : s.Apart h h' := by
  have : Std.Symm s.Apart := ⟨fun _ _ ha => ha.symm⟩
  exact (hs.apart irq).forall hm hm' hne

theorem mem_line (hs : s.IrqOk) (ho : (s.irqHooks h).procNrE = some e) : h ∈ s.irqHandlers (s.irqHooks h).irq := by
  by_contra hno
  have hnone : (s.irqHooks h).procNrE = none := by
    apply hs.free
    intro irq hm
    rw [← (hs.ids irq h hm).1] at hm
    exact hno hm
  rw [hnone] at ho
  cases ho

/-! ## Active bits -/

theorem setActids (hs : s.IrqOk) {b : BitVec 32} (hb : BitsIn b (s.bitmap (s.irqHandlers irq))) :
    (s.setActids irq b).IrqOk where
  ids := hs.ids
  apart := hs.apart
  active irq' := by
    by_cases hi : irq' = irq
    · subst hi
      show BitsIn (update s.irqActids irq' b irq') _
      rw [update_self]
      exact hb
    · show BitsIn (update s.irqActids irq b irq') _
      rw [update_of_ne hi]
      exact hs.active irq'
  owner := hs.owner
  free := hs.free

theorem setMasked (hs : s.IrqOk) (irq : IrqLine) (b : Bool) : (s.setMasked irq b).IrqOk :=
  ⟨hs.ids, hs.apart, hs.active, hs.owner, hs.free⟩

end IrqOk

section

variable (hs : s.IrqOk)

include hs

theorem isolated_setActids (ho : (s.irqHooks h).procNrE = some e) {b : BitVec 32}
    (hb : ∀ a, s.idOf h &&& a = 0 → b &&& a = s.irqActids (s.irqHooks h).irq &&& a) :
    Isolated e s (s.setActids (s.irqHooks h).irq b) := by
  intro x e' irq hox hne hm
  refine ⟨hm, rfl, ?_, hox⟩
  show update s.irqActids (s.irqHooks h).irq b irq &&& _ = _
  by_cases hi : irq = (s.irqHooks h).irq
  · subst hi
    rw [update_self]
    apply hb
    have hxh : h ≠ x := by
      rintro rfl
      rw [ho] at hox
      exact hne (some.inj hox).symm
    exact (hs.apart_of_ne (hs.mem_line ho) hm hxh).2
  · rw [update_of_ne hi]

theorem enableIrq_ok (h : HookRef) : (s.enableIrq h).IrqOk := by
  have h1 : (s.setActids (s.irqHooks h).irq (s.irqActids (s.irqHooks h).irq &&& ~~~(s.irqHooks h).id)).IrqOk :=
    hs.setActids (hs.active _).andNot
  unfold enableIrq
  dsimp only
  split
  · exact h1.setMasked _ _
  · exact h1

theorem enableIrq_isolated (ho : (s.irqHooks h).procNrE = some e) : Isolated e s (s.enableIrq h) := by
  have h1 : Isolated e s (s.setActids (s.irqHooks h).irq (s.irqActids (s.irqHooks h).irq &&& ~~~(s.irqHooks h).id)) :=
    isolated_setActids hs ho fun a ha => andNot_and_of_disjoint ha
  unfold enableIrq
  dsimp only
  split <;> exact h1

theorem disableIrq_ok (ho : (s.irqHooks h).procNrE = some e) : (s.disableIrq h).IrqOk := by
  unfold disableIrq
  dsimp only
  split
  · exact hs
  · exact (hs.setActids ((hs.active _).or (bitsIn_bitmap (hs.mem_line ho)))).setMasked _ _

theorem disableIrq_isolated (ho : (s.irqHooks h).procNrE = some e) : Isolated e s (s.disableIrq h) := by
  unfold disableIrq
  dsimp only
  split
  · exact .refl e s
  · exact isolated_setActids hs ho fun a ha => or_and_of_disjoint ha

theorem irqHandle_ok (irq : IrqLine) : (s.irqHandle irq).IrqOk := by
  have hloop : ∀ (l : List HookRef) (t : IrqState), t.IrqOk → l ⊆ t.irqHandlers irq →
      (l.foldl (fun t h => t.callHandler irq h) t).IrqOk := by
    intro l
    induction l with
    | nil => exact fun t ht _ => ht
    | cons h l ih =>
      intro t ht hl
      have hm : h ∈ t.irqHandlers irq := hl mem_cons_self
      have h1 : (t.setActids irq (t.irqActids irq ||| (t.irqHooks h).id)).IrqOk :=
        ht.setActids ((ht.active irq).or (bitsIn_bitmap hm))
      rw [foldl_cons]
      unfold callHandler
      dsimp only
      split
      · exact ih _ (h1.setActids (h1.active _).andNot) fun x hx => hl (mem_cons_of_mem h hx)
      · exact ih _ h1 fun x hx => hl (mem_cons_of_mem h hx)
  have h1 := hloop (s.irqHandlers irq) _ (hs.setMasked irq true) (List.Subset.refl _)
  unfold irqHandle
  dsimp only
  split
  · exact h1.setMasked _ _
  · exact h1

end

/-! ## Adding and removing hooks -/

variable {irq : IrqLine}

/-- Hook `i`, which was on no list, is the last one of the line now, with an id that no other hook of the line has. -/
structure Joined (s : IrqState) (i : Fin 16) (irq : IrqLine) (e : Endpoint) (s' : IrqState) : Prop where
  off : ∀ irq', .table i ∉ s.irqHandlers irq'
  others : ∀ h, h ≠ .table i → s'.irqHooks h = s.irqHooks h
  line : (s'.irqHooks (.table i)).irq = irq
  owner : (s'.irqHooks (.table i)).procNrE = some e
  handlers : s'.irqHandlers = update s.irqHandlers irq (s.irqHandlers irq ++ [.table i])
  actids : s'.irqActids = s.irqActids
  bit : ∃ k < 32, s'.idOf (.table i) = twoPow 32 k
  fresh : s.bitmap (s.irqHandlers irq) &&& s'.idOf (.table i) = 0

namespace Joined

variable {i : Fin 16} {irq' : IrqLine} (hj : Joined s i irq e s')

include hj

theorem ne (hm : h ∈ s.irqHandlers irq') : h ≠ .table i := fun he => hj.off irq' (he ▸ hm)

theorem idOf (hm : h ∈ s.irqHandlers irq') : s'.idOf h = s.idOf h := by
  rw [IrqState.idOf, hj.others h (hj.ne hm), IrqState.idOf]

theorem bitmap (irq' : IrqLine) : s'.bitmap (s.irqHandlers irq') = s.bitmap (s.irqHandlers irq') :=
  bitmap_congr fun _ hx => hj.idOf hx

theorem mem_cases (hm : h ∈ s'.irqHandlers irq') : (h = .table i ∧ irq' = irq) ∨ h ∈ s.irqHandlers irq' := by
  rw [hj.handlers, update_apply] at hm
  split at hm
  next hq =>
    rcases mem_append.mp hm with hm | hm
    · exact .inr (hq ▸ hm)
    · exact .inl ⟨mem_singleton.mp hm, hq⟩
  · exact .inr hm

theorem mem (hm : h ∈ s.irqHandlers irq') : h ∈ s'.irqHandlers irq' := by
  rw [hj.handlers, update_apply]
  split
  next hq => exact mem_append_left _ (hq ▸ hm)
  · exact hm

theorem apart (hm : h ∈ s.irqHandlers irq) : s'.Apart h (.table i) := by
  refine ⟨hj.ne hm, and_eq_zero_of_bitsIn (bitsIn_bitmap hm) ?_⟩
  rw [hj.bitmap]
  exact hj.fresh

theorem isolated : Isolated e s s' := fun h _ _ ho _ hm =>
  ⟨hj.mem hm, hj.idOf hm, by rw [hj.actids], by rw [hj.others h (hj.ne hm)]; exact ho⟩

variable (hs : s.IrqOk)

include hs

theorem pairwise (irq' : IrqLine) : (s'.irqHandlers irq').Pairwise s'.Apart := by
  have hpair : (s.irqHandlers irq').Pairwise s'.Apart := by
    refine List.Pairwise.imp_of_mem (fun hx hy ha => ⟨ha.1, ?_⟩) (hs.apart irq')
    rw [hj.idOf hx, hj.idOf hy]
    exact ha.2
  rw [hj.handlers, update_apply]
  split
  next hq =>
    subst hq
    refine pairwise_append.mpr ⟨hpair, pairwise_singleton _ _, fun x hx y hy => ?_⟩
    rw [mem_singleton.mp hy]
    exact hj.apart hx
  · exact hpair

theorem active (irq' : IrqLine) : BitsIn (s'.irqActids irq') (s'.bitmap (s'.irqHandlers irq')) := by
  have hact : BitsIn (s.irqActids irq') (s'.bitmap (s.irqHandlers irq')) := by
    rw [hj.bitmap]
    exact hs.active irq'
  rw [hj.actids, hj.handlers, update_apply]
  split
  next hq =>
    subst hq
    rw [bitmap_append]
    refine hact.trans ?_
    rw [bitsIn_iff]
    intro j hj
    simp only [Fin.getElem_fin, getElem_or, Bool.or_eq_true] at hj ⊢
    exact .inr hj
  · exact hact

theorem irqOk : s'.IrqOk := by
  refine ⟨fun irq' h hm => ?_, hj.pairwise hs, hj.active hs, fun irq' h hm => ?_, fun h hnone => ?_⟩
  · rcases hj.mem_cases hm with ⟨rfl, rfl⟩ | hm
    · exact ⟨hj.line, hj.bit⟩
    · rw [hj.idOf hm, hj.others h (hj.ne hm)]
      exact hs.ids irq' h hm
  · rcases hj.mem_cases hm with ⟨rfl, -⟩ | hm
    · rw [hj.owner]
      exact some_ne_none e
    · rw [hj.others h (hj.ne hm)]
      exact hs.owner irq' h hm
  · have hh : h ≠ .table i := by
      rintro rfl
      refine hnone irq ?_
      rw [hj.handlers, update_self]
      exact mem_append_right _ (mem_singleton_self _)
    rw [hj.others h hh]
    exact hs.free h fun irq' hm => hnone irq' (hj.mem hm)

end Joined

/-- A hook is added to a line, and then enabled. -/
theorem putIrqHandler_joined (hs : s.IrqOk) {i : Fin 16} (hi : (s.irqHooks (.table i)).procNrE = none) {n : Nat}
    {r : Bool} (h : (s.modHook (.table i) fun x =>
      { x with procNrE := some e, notifyId := n, reenable := r }).putIrqHandler (.table i) irq = some s') :
    ∃ s2, Joined s i irq e s2 ∧ s' = s2.enableIrq (.table i) := by
  have hno (irq' : IrqLine) : .table i ∉ s.irqHandlers irq' := fun hm => hs.owner irq' _ hm hi
  set s1 := s.modHook (.table i) fun x => { x with procNrE := some e, notifyId := n, reenable := r } with hs1
  have hhook {h : HookRef} (hh : h ≠ .table i) : s1.irqHooks h = s.irqHooks h := update_of_ne hh _ _
  unfold putIrqHandler at h
  rw [if_neg (show .table i ∉ s1.irqHandlers irq from hno irq)] at h
  cases hid : lowestId (s1.bitmap (s1.irqHandlers irq)) with
  | none =>
    rw [hid] at h
    cases h
  | some id =>
    rw [hid] at h
    cases h
    obtain ⟨hzero, hbit⟩ := lowestId_some hid
    set s2 : IrqState := { (s1.modHook (.table i) fun x => { x with irq := irq, id := id }).setHandlers irq
      (s1.irqHandlers irq ++ [.table i]) with irqUse := s1.irqUse ||| twoPow 32 irq } with hs2
    have hnew : s2.irqHooks (.table i) = { s1.irqHooks (.table i) with irq := irq, id := id } := update_self ..
    have hid' : s2.idOf (.table i) = id := by rw [idOf, hnew]
    refine ⟨s2, ⟨hno, fun h hh => (update_of_ne hh _ _).trans (hhook hh), by rw [hnew], ?_, rfl, rfl, ?_, ?_⟩, rfl⟩
    · rw [hnew, hs1]
      simp [modHook]
    · rw [hid']
      exact hbit
    · have hsame : s1.bitmap (s1.irqHandlers irq) = s.bitmap (s.irqHandlers irq) :=
        bitmap_congr fun x hx => by rw [idOf, hhook fun he => hno irq (he ▸ hx), idOf]
      rw [hid', ← hsame]
      exact hzero

/-- A policy that is set gets an id of its own, and leaves the hooks of others alone. -/
theorem putIrqHandler_ok (hs : s.IrqOk) {i : Fin 16} (hi : (s.irqHooks (.table i)).procNrE = none) {n : Nat}
    {r : Bool} (h : (s.modHook (.table i) fun x =>
      { x with procNrE := some e, notifyId := n, reenable := r }).putIrqHandler (.table i) irq = some s') :
    s'.IrqOk ∧ Isolated e s s' := by
  obtain ⟨s2, hj, rfl⟩ := putIrqHandler_joined hs hi h
  have hok := hj.irqOk hs
  exact ⟨enableIrq_ok hok _, hj.isolated.trans (enableIrq_isolated hok hj.owner)⟩

theorem IrqOk.eq_of_idOf (hs : s.IrqOk) (hm : h ∈ s.irqHandlers irq) (hm' : h' ∈ s.irqHandlers irq)
    (he : s.idOf h' = s.idOf h) : h' = h := by
  by_contra hne
  obtain ⟨k, hk, hid⟩ := (hs.ids irq h hm).2
  have := (hs.apart_of_ne hm' hm hne).2
  rw [he, BitVec.and_self, hid] at this
  exact twoPow_ne_zero hk this

theorem IrqOk.eraseP_eq (hs : s.IrqOk) (hm : h ∈ s.irqHandlers irq) :
    (s.irqHandlers irq).eraseP (fun x => decide (s.idOf x = s.idOf h)) = (s.irqHandlers irq).erase h := by
  have hall : ∀ x ∈ s.irqHandlers irq, decide (s.idOf x = s.idOf h) = (x == h) := by
    intro x hx
    by_cases hxh : x = h
    · simp [hxh]
    · rw [beq_false_of_ne hxh, decide_eq_false fun he => hxh (hs.eq_of_idOf hm hx he)]
  rw [erase_eq_eraseP]
  generalize s.irqHandlers irq = l at hall
  induction l with
  | nil => rfl
  | cons x l ih =>
    have hx := hall x mem_cons_self
    have hl := ih fun y hy => hall y (mem_cons_of_mem x hy)
    rw [eraseP_cons, eraseP_cons, hx, hl, BEq.comm]

/-- The hook leaves the list of its line, and its id is not active any more. -/
theorem rmIrqHandler_spec (hs : s.IrqOk) (hm : h ∈ s.irqHandlers irq) :
    (s.rmIrqHandler h).irqHooks = s.irqHooks ∧
      (s.rmIrqHandler h).irqHandlers = update s.irqHandlers irq ((s.irqHandlers irq).erase h) ∧
      (s.rmIrqHandler h).irqActids = update s.irqActids irq (s.irqActids irq &&& ~~~s.idOf h) := by
  have hirq := (hs.ids irq h hm).1
  have hbits : (s.irqActids irq ||| s.idOf h) &&& ~~~s.idOf h = s.irqActids irq &&& ~~~s.idOf h := by
    ext j hj
    simp only [getElem_and, getElem_or, getElem_not]
    cases (s.idOf h)[j] <;> simp
  rw [← hs.eraseP_eq hm, ← hbits]
  unfold rmIrqHandler
  rw [hirq]
  dsimp only
  rw [if_pos ⟨h, hm, rfl⟩]
  refine ⟨?_, ?_, ?_⟩
  · split <;> rfl
  · split <;> rfl
  · split <;> simp [IrqState.setActids, IrqState.setMasked, setHandlers, idOf]

/-- `h` has left its line `irq`. -/
structure Removed (h : HookRef) (irq : IrqLine) (s s' : IrqState) : Prop where
  hooks : s'.irqHooks = s.irqHooks
  mem_iff : ∀ irq' h', h' ∈ s'.irqHandlers irq' ↔ h' ≠ h ∧ h' ∈ s.irqHandlers irq'
  sublist : ∀ irq', (s'.irqHandlers irq').Sublist (s.irqHandlers irq')
  actids : s'.irqActids = update s.irqActids irq (s.irqActids irq &&& ~~~s.idOf h)

theorem rmIrqHandler_removed (hs : s.IrqOk) (hm : h ∈ s.irqHandlers irq) : Removed h irq s (s.rmIrqHandler h) := by
  obtain ⟨hhooks, hlines, hacts⟩ := rmIrqHandler_spec hs hm
  refine ⟨hhooks, fun irq' h' => ?_, fun irq' => ?_, hacts⟩
  · rw [hlines]
    by_cases hq : irq' = irq
    · have hnodup : (s.irqHandlers irq).Nodup := (hs.apart irq).imp fun ha => ha.1
      rw [hq, update_self, hnodup.mem_erase_iff]
    · rw [update_of_ne hq]
      refine ⟨fun hh => ⟨?_, hh⟩, fun hh => hh.2⟩
      rintro rfl
      exact hq ((hs.ids irq' _ hh).1.symm.trans (hs.ids irq _ hm).1)
  · rw [hlines]
    by_cases hq : irq' = irq
    · rw [hq, update_self]
      exact erase_sublist
    · rw [update_of_ne hq]

theorem Removed.active (hr : Removed h irq s s') (hs : s.IrqOk) (hm : h ∈ s.irqHandlers irq)
    (irq' : IrqLine) : BitsIn (s'.irqActids irq') (s.bitmap (s'.irqHandlers irq')) := by
  rw [bitsIn_iff]
  intro j hj
  rw [getElem_bitmap]
  have hact := bitsIn_iff.mp (hs.active irq') j
  rw [getElem_bitmap] at hact
  rw [hr.actids] at hj
  by_cases hq : irq' = irq
  · rw [hq, update_self] at hj
    simp only [Fin.getElem_fin, getElem_and, getElem_not, Bool.and_eq_true, Bool.not_eq_true'] at hj hact
    obtain ⟨h', hh, hbit⟩ := hact (hq ▸ hj.1)
    refine ⟨h', (hr.mem_iff irq' h').mpr ⟨?_, hh⟩, hbit⟩
    rintro rfl
    rw [hj.2] at hbit
    cases hbit
  · rw [update_of_ne hq] at hj
    obtain ⟨h', hh, hbit⟩ := hact hj
    refine ⟨h', (hr.mem_iff irq' h').mpr ⟨?_, hh⟩, hbit⟩
    rintro rfl
    exact hq ((hs.ids irq' _ hh).1.symm.trans (hs.ids irq _ hm).1)

theorem Removed.isolated (hr : Removed h irq s s') (hs : s.IrqOk)
    (hm : h ∈ s.irqHandlers irq) (ho : (s.irqHooks h).procNrE = some e) : Isolated e s s' := by
  intro h' e' irq' ho' hne' hm'
  have hne : h' ≠ h := by
    rintro rfl
    rw [ho] at ho'
    exact hne' (some.inj ho').symm
  refine ⟨(hr.mem_iff irq' h').mpr ⟨hne, hm'⟩, by rw [idOf, idOf, hr.hooks], ?_, by rw [hr.hooks, ho']⟩
  rw [hr.actids]
  by_cases hq : irq' = irq
  · subst hq
    rw [update_self]
    exact andNot_and_of_disjoint (hs.apart_of_ne hm hm' hne.symm).2
  · rw [update_of_ne hq]

/-- The hook of a process that exits is freed. -/
theorem clearHook_ok (hs : s.IrqOk) (e : Endpoint) (i : Fin 16) : (s.clearHook e i).IrqOk ∧
    Isolated e s (s.clearHook e i) := by
  unfold clearHook
  split
  case isFalse => exact ⟨hs, .refl e s⟩
  next ho =>
  have hm := hs.mem_line ho
  have hr := rmIrqHandler_removed hs hm
  generalize s.rmIrqHandler (.table i) = s1 at hr
  set s2 := s1.modHook (.table i) fun r => { r with procNrE := none } with hs2
  have hold {h : HookRef} (hh : h ≠ .table i) : s2.irqHooks h = s1.irqHooks h := update_of_ne hh _ _
  have hidOf (h : HookRef) : s2.idOf h = s.idOf h := by
    by_cases hh : h = .table i
    · rw [hh, hs2, idOf, modHook]
      simp [hr.hooks, idOf]
    · rw [idOf, hold hh, hr.hooks, idOf]
  constructor
  · refine ⟨fun irq h hh => ?_, fun irq => ?_, fun irq => ?_, fun irq h hh => ?_, fun h hh => ?_⟩
    · obtain ⟨hne, hh⟩ := (hr.mem_iff irq h).mp hh
      rw [hold hne, hidOf, hr.hooks]
      exact hs.ids irq h hh
    · refine ((hs.apart irq).sublist (hr.sublist irq)).imp fun ha => ⟨ha.1, ?_⟩
      rw [hidOf, hidOf]
      exact ha.2
    · rw [bitmap_congr fun x _ => hidOf x]
      exact hr.active hs hm irq
    · obtain ⟨hne, hh⟩ := (hr.mem_iff irq h).mp hh
      rw [hold hne, hr.hooks]
      exact hs.owner irq h hh
    · by_cases hne : h = .table i
      · rw [hne, hs2, modHook]
        simp
      · rw [hold hne, hr.hooks]
        exact hs.free h fun irq hm' => hh irq ((hr.mem_iff irq h).mpr ⟨hne, hm'⟩)
  · intro h e' irq ho' hne' hh
    have hne : h ≠ .table i := by
      rintro rfl
      rw [ho] at ho'
      exact hne' (some.inj ho').symm
    obtain ⟨hm1, hid1, hact1, ho1⟩ := hr.isolated hs hm ho h e' irq ho' hne' hh
    exact ⟨hm1, hidOf h, hact1, by rw [hold hne, ho1]⟩

theorem clearHooks_ok (hs : s.IrqOk) (e : Endpoint) : (s.clearHooks e).IrqOk ∧ Isolated e s (s.clearHooks e) := by
  unfold clearHooks
  generalize List.finRange 16 = l
  induction l generalizing s with
  | nil => exact ⟨hs, .refl e s⟩
  | cons i l ih =>
    obtain ⟨h1, hi1⟩ := clearHook_ok hs e i
    obtain ⟨h2, hi2⟩ := ih h1
    exact ⟨h2, hi1.trans hi2⟩

/-! ## Runs -/

/-- No driver removes a policy. -/
def StepOk (s : IrqState) : IrqOp → Prop
  | .irqctl source _ (.rmPolicy id) => ∀ i, s.ownHook source id ≠ .ok i
  | _ => True

/-- The process that an operation comes from. -/
def actor : IrqOp → Option Endpoint
  | .irqctl source _ _ => some source
  | .exit e => some e
  | .interrupt _ => none

theorem ownHook_ok {source : Endpoint} {id : Int} {i : Fin 16} (h : s.ownHook source id = .ok i) :
    (s.irqHooks (.table i)).procNrE = some source := by
  unfold ownHook at h
  split at h
  · cases h
  next j _ =>
    split at h
    · cases h
    next e he =>
      split at h
      next hes =>
        cases h
        rw [he, hes]
      · cases h

/-- What an operation does. -/
inductive Done (s : IrqState) (o : IrqOp) : IrqState → Prop
  | same : Done s o s
  | enable {e : Endpoint} {i : Fin 16} (ha : actor o = some e) (ho : (s.irqHooks (.table i)).procNrE = some e) :
      Done s o (s.enableIrq (.table i))
  | disable {e : Endpoint} {i : Fin 16} (ha : actor o = some e) (ho : (s.irqHooks (.table i)).procNrE = some e) :
      Done s o (s.disableIrq (.table i))
  | put {e : Endpoint} {i : Fin 16} {n : Nat} {r : Bool} {irq : IrqLine} {s' : IrqState} (ha : actor o = some e)
      (hi : (s.irqHooks (.table i)).procNrE = none) (h : (s.modHook (.table i) fun x =>
        { x with procNrE := some e, notifyId := n, reenable := r }).putIrqHandler (.table i) irq = some s') :
          Done s o s'
  | remove {e : Endpoint} {i : Fin 16} (ha : actor o = some e) (ho : (s.irqHooks (.table i)).procNrE = some e)
      (hno : ¬s.StepOk o) : Done s o (s.rmIrqHandler (.table i))
  | exit {e : Endpoint} (ho : o = .exit e) : Done s o (s.clearHooks e)
  | interrupt {irq : IrqLine} (ho : o = .interrupt irq) : Done s o (s.irqHandle irq)

theorem setPolicy_done {source : Endpoint} {tab tab' : Option (List Int)} {v id : Int} {r : Bool} {q : IrqReq}
    {x : Int × Option (Fin 16) × IrqState} (h : s.setPolicy source tab v id r = some x) :
    s.Done (.irqctl source tab' q) x.2.2 := by
  have hsame (y : Int × Option (Fin 16)) (hx : some (y.1, y.2, s) = some x) : s.Done (.irqctl source tab' q) x.2.2 := by
    cases hx
    exact .same
  unfold setPolicy at h
  split at h
  case isFalse => exact hsame (EINVAL, none) h
  split at h
  · exact hsame (EPERM, none) h
  split at h
  · exact hsame (ENOSPC, none) h
  next i hi =>
    split at h
    · exact hsame (EINVAL, none) h
    · obtain ⟨s1, h1, rfl⟩ := map_eq_some_iff.mp h
      exact .put rfl (by simpa using find?_some hi) h1

/-- What a step does to the hooks. -/
theorem step_done {o : IrqOp} (h : s.step o = some s') : s.Done o s' := by
  cases o with
  | exit e =>
    cases h
    exact .exit rfl
  | interrupt irq =>
    cases h
    exact .interrupt rfl
  | irqctl source tab q =>
    obtain ⟨x, hx, rfl⟩ := map_eq_some_iff.mp h
    cases q with
    | setPolicy v id r => exact setPolicy_done hx
    | other => cases hx; exact .same
    | enable id | disable id | rmPolicy id =>
      rw [doIrqctl] at hx
      split at hx
      next => cases hx; exact .same
      next i hi =>
        cases hx
        have ho := ownHook_ok hi
        first
          | exact .enable rfl ho
          | exact .disable rfl ho
          | exact .remove rfl ho fun hok => hok i hi

/-- A step leaves the hooks of the other processes alone. -/
theorem step_isolated (hs : s.IrqOk) {o : IrqOp} (h : s.step o = some s') : ∀ e ∈ actor o, Isolated e s s' := by
  intro e he
  cases step_done h with
  | same => exact .refl e s
  | enable ha ho =>
    obtain rfl := some.inj (ha.symm.trans he)
    exact enableIrq_isolated hs ho
  | disable ha ho =>
    obtain rfl := some.inj (ha.symm.trans he)
    exact disableIrq_isolated hs ho
  | put ha hi h1 =>
    obtain rfl := some.inj (ha.symm.trans he)
    exact (putIrqHandler_ok hs hi h1).2
  | remove ha ho =>
    obtain rfl := some.inj (ha.symm.trans he)
    have hm := hs.mem_line ho
    exact (rmIrqHandler_removed hs hm).isolated hs hm ho
  | exit ho =>
    subst ho
    cases he
    exact (clearHooks_ok hs _).2
  | interrupt ho =>
    subst ho
    cases he

/-- A step keeps the hooks right. -/
theorem step_ok (hs : s.IrqOk) {o : IrqOp} (hok : s.StepOk o) (h : s.step o = some s') : s'.IrqOk := by
  cases step_done h with
  | same => exact hs
  | enable => exact enableIrq_ok hs _
  | disable ha ho => exact disableIrq_ok hs ho
  | put ha hi h1 => exact (putIrqHandler_ok hs hi h1).1
  | remove ha ho hno => exact absurd hok hno
  | exit => exact (clearHooks_ok hs _).1
  | interrupt => exact irqHandle_ok hs _

theorem start_ok : start.IrqOk where
  ids irq h hm := by
    unfold start at hm
    dsimp only at hm
    split at hm
    next hirq =>
      rw [mem_singleton.mp hm]
      exact ⟨hirq.symm, 0, by decide, rfl⟩
    · cases hm
  apart irq := by
    unfold start
    dsimp only
    split <;> simp
  active irq := by
    show 0#32 &&& _ = 0
    simp
  owner irq h hm := by
    unfold start at hm
    dsimp only at hm
    split at hm
    · rw [mem_singleton.mp hm]
      exact some_ne_none _
    · cases hm
  free h hno := by
    cases h with
    | clock => exact absurd (mem_singleton_self _) (hno 0)
    | table i => rfl

/-- In every run in which no driver removes a policy, the hooks are in order, and what a process does next leaves the
hooks of the others alone. -/
theorem hooks_isolated {os : List IrqOp} (hok : AllOk step StepOk os start) (hr : run step os start = some s) :
    s.IrqOk ∧ ∀ o s', s.step o = some s' → ∀ e ∈ actor o, Isolated e s s' := by
  have hs : s.IrqOk := run_invariant (fun _ _ _ h ho hs => step_ok h ho hs) start_ok hok hr
  exact ⟨hs, fun o s' h => step_isolated hs h⟩

/-- Two drivers on line 3. The first one, with endpoint 20, has left. -/
def sharedThenExit : List IrqOp :=
  [.irqctl 20 none (.setPolicy 3 0 true), .irqctl 21 (some [3, 5]) (.setPolicy 3 1 false), .interrupt 3,
    .irqctl 21 none (.enable 2), .exit 20]

theorem hooks_isolated_shared : ∃ s, run step sharedThenExit start = some s ∧ s.irqHandlers 3 = [.table 1] ∧
    (s.IrqOk ∧ ∀ o s', s.step o = some s' → ∀ e ∈ actor o, Isolated e s s') := by
  obtain ⟨s, hs, hl⟩ : ∃ s, run step sharedThenExit start = some s ∧ s.irqHandlers 3 = [.table 1] := by decide +kernel
  refine ⟨s, hs, hl, hooks_isolated ?_ hs⟩
  exact ⟨trivial, trivial, trivial, trivial, trivial, trivial⟩

/-- The first driver removes its policy, and the second one gets its id. -/
def policyRemoved : List IrqOp :=
  [.irqctl 20 none (.setPolicy 3 0 true), .irqctl 20 none (.rmPolicy 1), .irqctl 21 none (.setPolicy 3 1 false)]

/-- After `IRQ_RMPOLICY` the hook is on no line and not free, and the driver that removed it can disable the hook of
another driver, and takes that hook off its line when it exits. -/
theorem hooks_not_isolated : ∃ s s₁ s₂, run step policyRemoved start = some s ∧
    s.step (.irqctl 20 none (.disable 1)) = some s₁ ∧ s.step (.exit 20) = some s₂ ∧
    (s.irqHooks (.table 0)).procNrE = some 20 ∧ .table 0 ∉ s.irqHandlers 3 ∧ ¬s.IrqOk ∧
    (s.irqHooks (.table 1)).procNrE = some 21 ∧ .table 1 ∈ s.irqHandlers 3 ∧ ¬Isolated 20 s s₁ ∧ ¬Isolated 20 s s₂ := by
  obtain ⟨s, hs, h1, h2, h3, h4, hid⟩ : ∃ s, run step policyRemoved start = some s ∧
      (s.irqHooks (.table 0)).procNrE = some 20 ∧
      (∀ irq, .table 0 ∉ s.irqHandlers irq) ∧ (s.irqHooks (.table 1)).procNrE = some 21 ∧ .table 1 ∈ s.irqHandlers 3 ∧
      (s.irqHooks (.table 0)).irq = 3 ∧ s.idOf (.table 0) = 1 ∧ s.idOf (.table 1) = 1 ∧ s.irqActids 3 = 0 ∧
      .table 1 ∉ (s.clearHooks 20).irqHandlers 3 ∧ (s.disableIrq (.table 0)).irqActids 3 = 1 := by
    refine ⟨_, rfl, ?_⟩
    decide +kernel
  obtain ⟨-, -, hid1, hact, hgone, hdis⟩ := hid
  refine ⟨s, s.disableIrq (.table 0), s.clearHooks 20, hs, ?_, rfl, h1, h2 3, fun hok => ?_, h3, h4, fun hiso => ?_,
    fun hiso => ?_⟩
  · simp [step, doIrqctl, ownHook, hookOf, h1]
  · have := hok.free (.table 0) h2
    rw [h1] at this
    cases this
  · have := (hiso (.table 1) 21 3 h3 (by decide) h4).2.2.1
    rw [hid1, hact, hdis] at this
    exact absurd this (by decide)
  · exact hgone (hiso (.table 1) 21 3 h3 (by decide) h4).1

end IrqState

end Minix.Kernel
