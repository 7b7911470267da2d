import Minix.Vm.AllocPages

/-!
# Blocks of memory

`alloc_mem` and `free_mem` with both back ends. Holes are freed as ranges are (`freeHole_eq_put`).

- `allocMem_block`: a block that is returned was free, respects the flags and is all that is taken exactly if it is not
  to be aligned and the span that it is taken from does not end above a limit that the flags give;
- `allocMem_leaks`: an aligned block takes more than it has, and a low block may be high.
-/

namespace Minix.Vm

open Lib List Option

variable {holes A B : List Span} {F : Set Nat} {x : Span}

/-! ## Holes -/

theorem biteOff_eq {clicks mem : Nat} : ∀ {holes holes' : List Span}, biteOff clicks holes = some (holes', mem) →
    ∃ A hp B, holes = A ++ hp :: B ∧ clicks ≤ hp.len ∧ holes.find? (fun hp => clicks ≤ hp.len) = some hp ∧
    mem = hp.base ∧
      holes' = A ++ if hp.len - clicks = 0 then B else ⟨hp.base + clicks, hp.len - clicks⟩ :: B
  | [], _, h => by cases h
  | hp :: holes, holes', h => by
    rw [biteOff] at h
    split at h
    next hle =>
      cases h
      exact ⟨[], hp, holes, rfl, hle, find?_cons_of_pos (by simpa using hle), rfl, rfl⟩
    next hgt =>
      obtain ⟨⟨l, m⟩, hl, heq⟩ := map_eq_some_iff.mp h
      cases heq
      obtain ⟨A, hq, B, rfl, hle, hfind, rfl, rfl⟩ := biteOff_eq hl
      refine ⟨hp :: A, hq, B, rfl, hle, ?_, rfl, rfl⟩
      rw [find?_cons_of_neg (by simpa using hgt)]
      exact hfind

theorem Rep.takeFront {hp : Span} (h : Rep (A ++ hp :: B) F) {clicks : Nat} (hle : clicks ≤ hp.len) :
    Rep (A ++ if hp.len - clicks = 0 then B else ⟨hp.base + clicks, hp.len - clicks⟩ :: B)
    (F \ Run hp.base clicks) := by
  refine h.takePart (q := ⟨hp.base + clicks, hp.len - clicks⟩) (Nat.le_add_right _ _) ?_ (fun k => ?_) ?_
  · unfold Span.stop
    dsimp only
    omega
  · rw [Span.has_mk]
    unfold Span.Has Span.stop Run
    rw [Set.mem_ofPred_eq]
    omega
  · rintro k ⟨h1, h2⟩
    unfold Span.Has Span.stop
    omega

theorem absorb_cons (x : Span) (l : List Span) : absorb (x :: l) = joinUp x l := by
  cases l <;> rfl

theorem joinUp_of_apart {l : List Span} (h : Apart (x :: l)) : joinUp x l = x :: l := by
  cases l with
  | nil => rfl
  | cons y l => rw [joinUp, if_neg ((Apart.cons_iff.mp h).2.2 y mem_cons_self).ne]

theorem merge_cons {hp : Span} (hx : 0 < x.len) (h : Apart (hp :: holes)) (hle : x.stop ≤ hp.base) :
    merge (x :: hp :: holes) = put x (hp :: holes) := by
  have hall : ∀ y ∈ hp :: holes, x.stop ≤ y.base := fun y hy => by
    rcases mem_cons.mp hy with rfl | hy
    · exact hle
    · exact hle.trans ((Apart.base_lt (A := []) h).2 y hy).le
  rw [put_of_le hx hall, merge, joinUp, absorb_cons, absorb_cons, joinUp_of_apart h]
  split
  next heq =>
    refine joinUp_of_apart (Apart.cons_iff.mpr ⟨Nat.add_pos_left hx _, (Apart.cons_iff.mp h).2.1, fun y hy => ?_⟩)
    have := (Apart.cons_iff.mp h).2.2 y hy
    unfold Span.stop at *
    dsimp only
    omega
  next => rfl

theorem insertAfter_eq {new : Span} (hn : 0 < new.len) : ∀ {l : List Span} {prev : Span}, Apart (prev :: l) →
    Clear new (prev :: l) → prev.base < new.base → insertAfter new prev l = put new (prev :: l)
  | [], prev, _, _, hlt => by
    rw [insertAfter, merge, absorb_cons, absorb_cons, put, if_pos hlt]
    rfl
  | hp :: holes, prev, h, hc, hlt => by
    obtain ⟨hprev, hl, hgap⟩ := Apart.cons_iff.mp h
    have hstop := hgap hp mem_cons_self
    have hcl : Clear new (hp :: holes) := fun y hy => hc y (mem_cons_of_mem _ hy)
    rw [insertAfter, put]
    split
    next hhp =>
      rw [if_neg (by omega), insertAfter_eq hn hl hcl hhp]
    next hhp =>
      have hall : ∀ y ∈ hp :: holes, new.stop ≤ y.base := by
        have hfirst : new.stop ≤ hp.base := by
          have := hcl hp mem_cons_self
          have := hl.pos hp mem_cons_self
          unfold Span.stop at *
          omega
        intro y hy
        rcases mem_cons.mp hy with rfl | hy
        · exact hfirst
        · exact hfirst.trans ((Apart.base_lt (A := []) hl).2 y hy).le
      rw [merge, absorb_cons, absorb_cons, put_of_le hn hall]

/-- **Freeing a hole puts it in the list**, if there is a slot for it. -/
theorem freeHole_eq_put {base clicks : Nat} (hn : 0 < clicks) (h : Apart holes) (hc : Clear ⟨base, clicks⟩ holes)
    (hroom : holes.length < nrHoles) : freeHole holes base clicks = some (put ⟨base, clicks⟩ holes) := by
  unfold freeHole
  rw [if_neg (Nat.not_le_of_lt hroom)]
  cases holes with
  | nil => rfl
  | cons hp holes =>
    dsimp only
    split
    next hle =>
      have hstop : Span.stop ⟨base, clicks⟩ ≤ hp.base := by
        have := hc hp mem_cons_self
        have := h.pos hp mem_cons_self
        unfold Span.stop at *
        dsimp only at *
        omega
      rw [merge_cons hn h hstop]
    next hlt => rw [insertAfter_eq hn h hc (Nat.lt_of_not_le hlt)]

/-! ## Blocks -/

namespace Mem

variable {m m' : Mem} {f : Paf} {mem clicks : Nat} {slab : Slab}

/-- The free clicks. -/
def free (m : Mem) : Set Nat := { k | InSpans m.spans k }

/-- The free memory is in spans that are not adjacent, and in the address space: a physical address has 32 bits. -/
structure Wf (m : Mem) : Prop where
  apart : Apart m.spans
  phys : ∀ k ∈ m.free, k < 2 ^ 20

/-- Where a block ends that is allocated: at the end of the range with room for it that the walk comes to first, or
after the first clicks of the first hole that is big enough. -/
def top (m : Mem) (clicks : Nat) (f : Paf) : Option Nat :=
  if m.paged = true then ((f.walk m.ranges).find? fun pr => clicks ≤ pr.len).map Span.stop
  else (m.holes.find? fun hp => clicks ≤ hp.len).map fun hp => hp.base + clicks

/-- That end is not above a limit that the flags give. -/
def LowOk (m : Mem) (clicks : Nat) (f : Paf) : Prop := clicks ≠ 0 → ∀ t ∈ m.top clicks f, f.Below t

theorem rep (h : Apart m.spans) : Rep m.spans m.free := ⟨h, fun _ => Iff.rfl⟩

/-- What is taken is free, and nothing else is taken. -/
structure Taken (m m' : Mem) (mem clicks : Nat) : Prop where
  paged : m'.paged = m.paged
  slabs : m'.slabs = m.slabs
  run : Run mem clicks ⊆ m.free
  rep : Rep m'.spans (m.free \ Run mem clicks)

theorem take_of_paged (hp : m.paged = true) :
    m.take clicks f = ({ m with ranges := (allocPages m.ranges clicks f).1 }, (allocPages m.ranges clicks f).2) := by
  rw [take, if_pos hp]

/-- What `alloc_pages` returns is the end of the range that the walk comes to. -/
theorem allocPages_top (hmem : (allocPages m.ranges clicks f).2 ≠ NO_MEM) :
    ∃ pr, (f.walk m.ranges).find? (fun pr => clicks ≤ pr.len) = some pr ∧
      (allocPages m.ranges clicks f).2 = pr.stop - clicks ∧ clicks ≤ pr.len := by
  unfold allocPages at hmem ⊢
  split at hmem
  · exact absurd rfl hmem
  next pr hpr =>
    have hle : clicks ≤ pr.len := by simpa using find?_some hpr
    refine ⟨pr, hpr, ?_, hle⟩
    split at hmem
    · exact absurd rfl hmem
    next hlow =>
      rw [if_neg hlow]
      split <;> rfl

theorem take_spec (h : Apart m.spans) (htake : m.take clicks f = (m', mem)) (hmem : mem ≠ NO_MEM) :
    Taken m m' mem clicks ∧ m.top clicks f = some (mem + clicks) := by
  have hrep := rep h
  by_cases hp : m.paged = true
  · rw [take_of_paged hp] at htake
    obtain ⟨rfl, rfl⟩ := Prod.mk.inj htake
    have hspans : m.spans = m.ranges := by rw [spans, if_pos hp]
    rw [hspans] at hrep
    obtain ⟨pr, hfind, hend, hlen⟩ := allocPages_top hmem
    have htop : m.top clicks f = some ((allocPages m.ranges clicks f).2 + clicks) := by
      rw [top, if_pos hp, hfind, hend, map_some]
      unfold Span.stop
      congr 1
      omega
    refine ⟨?_, htop⟩
    rcases allocPages_cases hrep clicks f with ⟨heq, -⟩ | ⟨pr, hpr, hle, -, hm, hrep'⟩
    · exact absurd (congrArg Prod.snd heq) hmem
    · rw [hm]
      refine ⟨rfl, rfl, hrep.run_subset hpr hle, ?_⟩
      rw [spans, if_pos hp]
      exact hrep'
  · rw [take, if_neg hp] at htake
    have hspans : m.spans = m.holes := by rw [spans, if_neg hp]
    rw [hspans] at hrep
    cases hbite : biteOff clicks m.holes with
    | none =>
      rw [hbite] at htake
      cases htake
      exact absurd rfl hmem
    | some r =>
      rw [hbite] at htake
      cases htake
      obtain ⟨A, hq, B, hcut, hle, hfind, hbase, hholes⟩ := biteOff_eq hbite
      have htop : m.top clicks f = some (r.2 + clicks) := by rw [top, if_neg hp, hfind, hbase, map_some]
      rw [hcut] at hrep
      have hrun : Run r.2 clicks ⊆ m.free := by
        rintro k ⟨h1, h2⟩
        refine (hrep.mem k).mp ⟨hq, by simp, ?_, ?_⟩
        · omega
        · unfold Span.stop
          omega
      refine ⟨⟨rfl, rfl, hrun, ?_⟩, htop⟩
      rw [spans, if_neg hp, hbase]
      rw [hholes]
      exact hrep.takeFront hle

/-- A block is low exactly if its end is. -/
theorem below_iff (htop : m.top clicks f = some (mem + clicks)) :
    (∀ k ∈ Run mem clicks, f.Below (k + 1)) ↔ m.LowOk clicks f := by
  unfold LowOk
  rw [htop]
  constructor
  · intro h hn t ht
    obtain rfl := some.inj ht
    have := h (mem + clicks - 1) ⟨by omega, by omega⟩
    rwa [Nat.sub_add_cancel (by omega)] at this
  · rintro h k ⟨h1, h2⟩
    exact (h (by omega) _ rfl).mono (by omega)

/-- There is a slot for one more hole. -/
def Room (m : Mem) : Prop := m.paged = false → m.holes.length < nrHoles

/-- Clicks that were not free become free, and no others but a page of the slab. -/
theorem freeMem_spec (h : Rep m.spans F) {base : Nat} (hd : ∀ k ∈ Run base clicks, k ∉ F)
    (hr : m.freeMem base clicks slab = some m') :
    ∃ page F', FreeSpec F base clicks page F' ∧ Rep m'.spans F' ∧ m'.slabs = page.toList ++ m.slabs ∧
      (slab = .spare → page = none) := by
  unfold freeMem at hr
  split at hr
  next h0 =>
    cases hr
    have hrun : F ∪ Run base clicks = F := by
      refine Set.union_eq_left.mpr fun k hk => ?_
      obtain ⟨h1, h2⟩ := hk
      omega
    exact ⟨none, _, .spare, hrun.symm ▸ h, rfl, fun _ => rfl⟩
  next hn =>
    have hn : 0 < clicks := Nat.pos_of_ne_zero hn
    split at hr
    next hp =>
      rw [spans, if_pos hp] at h
      obtain ⟨⟨ranges, page⟩, hf, heq⟩ := map_eq_some_iff.mp hr
      cases heq
      obtain ⟨F', hspec, hrep⟩ := freePages_spec h hn hd hf
      refine ⟨page, F', hspec, ?_, rfl, ?_⟩
      · rw [spans, if_pos hp]
        exact hrep
      · rintro rfl
        obtain ⟨l, hl, -⟩ := h.freePages_spare hn hd
        exact congrArg Prod.snd (some.inj (hf.symm.trans hl))
    next hp =>
      rw [spans, if_neg hp] at h
      obtain ⟨holes, hf, heq⟩ := map_eq_some_iff.mp hr
      cases heq
      have hc := h.clear hn hd
      have hroom : m.holes.length < nrHoles := by
        by_contra hfull
        unfold freeHole at hf
        rw [if_pos (Nat.le_of_not_lt hfull)] at hf
        cases hf
      cases (freeHole_eq_put hn h.apart hc hroom).symm.trans hf
      refine ⟨none, _, .spare, ?_, rfl, fun _ => rfl⟩
      rw [spans, if_neg hp]
      refine ⟨put_apart hn h.apart hc, fun n => ?_⟩
      rw [inSpans_put, h.mem, or_comm]
      rfl

/-- Freeing does not panic if there is a node or a slot for it. -/
theorem freeMem_some (h : Rep m.spans F) {base : Nat} (hd : ∀ k ∈ Run base clicks, k ∉ F) (hroom : m.Room) :
    ∃ m', m.freeMem base clicks .spare = some m' := by
  unfold freeMem
  split
  · exact ⟨_, rfl⟩
  next hn =>
    have hn : 0 < clicks := Nat.pos_of_ne_zero hn
    split
    next hp =>
      rw [spans, if_pos hp] at h
      obtain ⟨ranges, hf, -⟩ := h.freePages_spare hn hd
      rw [hf]
      exact ⟨_, rfl⟩
    next hp =>
      rw [spans, if_neg hp] at h
      rw [freeHole_eq_put hn h.apart (h.clear hn hd) (hroom (Bool.eq_false_of_not_eq_true hp))]
      exact ⟨_, rfl⟩

/-- The free memory after a block is taken, and after it is given back. -/
structure Exact (m m' : Mem) (mem clicks : Nat) : Prop where
  taken : ∀ k, k ∈ m'.free ↔ k ∈ m.free ∧ k ∉ Run mem clicks
  /-- All that was free is free again, but for a page that the slabs take. -/
  back : ∀ slab m'', m'.freeMem mem clicks slab = some m'' → ∃ page : Option Nat, m''.slabs = page.toList ++ m'.slabs ∧
    (∀ k ∈ page.toFinset, k ∈ m.free) ∧ ∀ k, k ∈ m''.free ↔ k ∈ m.free ∧ k ∉ page.toFinset
  /-- Giving the block back does not panic if there is a node and a slot for it. -/
  fine : m'.Room → ∃ m'', m'.freeMem mem clicks .spare = some m'' ∧ m''.slabs = m'.slabs ∧
    ∀ k, k ∈ m''.free ↔ k ∈ m.free

theorem Taken.exact (h : Taken m m' mem clicks) : Exact m m' mem clicks := by
  have hout : ∀ k ∈ Run mem clicks, k ∉ m.free \ Run mem clicks := fun k hk hk' => hk'.2 hk
  have hback : ∀ slab m'', m'.freeMem mem clicks slab = some m'' →
      ∃ page : Option Nat, m''.slabs = page.toList ++ m'.slabs ∧
      (∀ k ∈ page.toFinset, k ∈ m.free) ∧ (∀ k, k ∈ m''.free ↔ k ∈ m.free ∧ k ∉ page.toFinset) ∧
      (slab = .spare → page = none) := by
    intro slab m'' hr
    obtain ⟨page, F', hspec, hrep, hslabs, hnone⟩ := freeMem_spec h.rep hout hr
    refine ⟨page, hslabs, fun k hk => (hspec.page_mem k hk).1, fun k => ?_, hnone⟩
    rw [free, Set.mem_ofPred_eq, hrep.mem, hspec.mem_iff]
    constructor
    · rintro (⟨⟨hk, -⟩, hp⟩ | hk)
      · exact ⟨hk, hp⟩
      · exact ⟨h.run hk, fun hp => (hspec.page_mem k hp).2 hk⟩
    · rintro ⟨hk, hp⟩
      by_cases hrun : k ∈ Run mem clicks
      · exact .inr hrun
      · exact .inl ⟨⟨hk, hrun⟩, hp⟩
  refine ⟨fun k => h.rep.mem k, fun slab m'' hr => ?_, fun hroom => ?_⟩
  · obtain ⟨page, hslabs, hpage, hfree, -⟩ := hback slab m'' hr
    exact ⟨page, hslabs, hpage, hfree⟩
  · obtain ⟨m'', hr⟩ := freeMem_some h.rep hout hroom
    obtain ⟨page, hslabs, -, hfree, hnone⟩ := hback _ m'' hr
    cases hnone rfl
    exact ⟨m'', hr, hslabs, fun k => (hfree k).trans (and_iff_left (Finset.notMem_empty k))⟩

/-- What `alloc_mem` should do: the block was free and respects the flags, and nothing else is taken. -/
structure Block (m m' : Mem) (mem clicks : Nat) (f : Paf) : Prop where
  run : Run mem clicks ⊆ m.free
  below : ∀ k ∈ Run mem clicks, f.Below (k + 1)
  aligned : f.align64k = true → mem % alignClicks = 0
  exact : Exact m m' mem clicks

/-- An aligned block is cut out of a bigger one, of which the part before it is given back. -/
theorem allocMem_aligned (ha : f.align64k = true) (hr : m.allocMem clicks f slab = some (m', mem))
    (hmem : mem ≠ NO_MEM) :
    ∃ m1 mem1 e, m.take ((clicks + alignClicks) % 2 ^ 32) f = (m1, mem1) ∧ mem1 ≠ NO_MEM ∧ mem = mem1 + e ∧
    e < alignClicks ∧
      mem % alignClicks = 0 ∧ m1.freeMem mem1 e slab = some m' := by
  unfold allocMem at hr
  rw [ha, if_pos rfl] at hr
  cases htake : m.take ((clicks + alignClicks) % 2 ^ 32) f with
  | mk m1 mem1 =>
    rw [htake] at hr
    dsimp only at hr
    split at hr
    next h0 =>
      cases hr
      exact absurd h0 hmem
    next h0 =>
      unfold alignClicks at *
      split at hr
      next hpos =>
        obtain ⟨m2, hfree, heq⟩ := bind_eq_some_iff.mp hr
        cases heq
        exact ⟨m1, mem1, _, rfl, h0, rfl, by omega, by omega, hfree⟩
      next hz =>
        cases hr
        have : ¬ 0 < mem % 16 := fun hpos => hz ⟨rfl, hpos⟩
        exact ⟨m', mem, 0, rfl, h0, rfl, by decide, by omega, rfl⟩

/-- **An aligned block leaks**: the last click that is taken for it is not in it, and is not given back. -/
theorem not_block_of_aligned (h : m.Wf) (ha : f.align64k = true) (hr : m.allocMem clicks f slab = some (m', mem))
    (hmem : mem ≠ NO_MEM) : ¬ Block m m' mem clicks f := by
  intro hb
  obtain ⟨m1, mem1, e, htake, h0, rfl, he, -, hfree⟩ := allocMem_aligned ha hr hmem
  have hfit : clicks + alignClicks < 2 ^ 32 := by
    unfold alignClicks
    rcases Nat.eq_zero_or_pos clicks with hz | hpos
    · omega
    · have := h.phys _ (hb.run ⟨Nat.le_add_right _ (clicks - 1), by omega⟩)
      omega
  rw [Nat.mod_eq_of_lt hfit] at htake
  unfold alignClicks at *
  obtain ⟨htaken, -⟩ := take_spec h.apart htake h0
  have hsub : ∀ k ∈ Run mem1 e, k ∉ m.free \ Run mem1 (clicks + 16) :=
    fun k hk hk' => hk'.2 ⟨hk.1, hk.2.trans (by omega)⟩
  obtain ⟨page, F', hspec, hrep, -, -⟩ := freeMem_spec htaken.rep hsub hfree
  -- the last click that was taken
  have hlast : mem1 + clicks + 15 ∈ Run mem1 (clicks + 16) := ⟨by omega, by omega⟩
  have hin := (hb.exact.taken (mem1 + clicks + 15)).mpr ⟨htaken.run hlast, fun hk => absurd hk.2 (by omega)⟩
  rcases (hspec.mem_iff _).mp ((hrep.mem _).mp hin) with ⟨hk, -⟩ | hk
  · exact hk.2 hlast
  · exact absurd hk.2 (by omega)

/-- **Blocks.** What `alloc_mem` returns was free, respects the flags and is all that is taken exactly if the block is
not to be aligned and its end is not above a limit that the flags give. An aligned block at least was free and respects
the flags, if the bigger one that it is cut out of does and its size has 32 bits. -/
theorem allocMem_block (h : m.Wf) (hr : m.allocMem clicks f slab = some (m', mem)) (hmem : mem ≠ NO_MEM) :
    (Block m m' mem clicks f ↔ f.align64k = false ∧ m.LowOk clicks f) ∧
    (f.align64k = true → clicks + alignClicks < 2 ^ 32 → m.LowOk (clicks + alignClicks) f →
      Run mem clicks ⊆ m.free ∧ (∀ k ∈ Run mem clicks, f.Below (k + 1)) ∧ mem % alignClicks = 0) := by
  cases ha : f.align64k with
  | false =>
    refine ⟨?_, nofun⟩
    unfold allocMem at hr
    rw [ha, if_neg Bool.false_ne_true] at hr
    cases htake : m.take clicks f with
    | mk m1 mem1 =>
      simp only [htake, Bool.false_eq_true, false_and, if_false, ite_self, some.injEq, Prod.mk.injEq] at hr
      obtain ⟨rfl, rfl⟩ := hr
      obtain ⟨htaken, htop⟩ := take_spec h.apart htake hmem
      rw [← below_iff htop]
      exact ⟨fun hb => ⟨rfl, hb.below⟩, fun hb => ⟨htaken.run, hb.2, fun hf => by simp [ha] at hf, htaken.exact⟩⟩
  | true =>
    refine ⟨iff_of_false (not_block_of_aligned h ha hr hmem) fun hb => absurd hb.1 (by simp), fun _ hfit hlow => ?_⟩
    obtain ⟨m1, mem1, e, htake, h0, rfl, he, halign, -⟩ := allocMem_aligned ha hr hmem
    rw [Nat.mod_eq_of_lt hfit] at htake
    obtain ⟨htaken, htop⟩ := take_spec h.apart htake h0
    have hin : Run (mem1 + e) clicks ⊆ Run mem1 (clicks + alignClicks) := by
      rintro k ⟨h1, h2⟩
      exact ⟨by omega, by omega⟩
    exact ⟨hin.trans htaken.run, fun k hk => (below_iff htop).mpr hlow k (hin hk), halign⟩

/-- 48 clicks in paged mode. -/
def oneRange : Mem := ⟨true, [⟨16, 48⟩], [], []⟩

theorem oneRange_wf : oneRange.Wf := by
  refine ⟨Apart.cons_iff.mpr ⟨by decide, Apart.nil, nofun⟩, fun k hk => ?_⟩
  obtain ⟨x, hx, -, hlt⟩ := hk
  obtain rfl := mem_singleton.mp hx
  exact lt_trans hlt (by decide)

theorem allocMem_block_low : ∃ m', oneRange.allocMem 8 { lower1mb := true } .spare = some (m', 56) ∧
    Block oneRange m' 56 8 { lower1mb := true } := by
  have hr : oneRange.allocMem 8 { lower1mb := true } .spare = some (⟨true, [⟨16, 40⟩], [], []⟩, 56) := rfl
  refine ⟨_, hr, (allocMem_block oneRange_wf hr (by decide)).1.mpr ⟨rfl, fun _ t ht => ?_⟩⟩
  obtain rfl : 64 = t := some.inj ht
  decide

/-- An aligned block of 16 clicks takes 32, of which freeing it gives 16 back. A block of one click that has to be below
16 MB is above, as it is the end of a range that crosses the limit. -/
theorem allocMem_leaks :
    (∃ m', oneRange.allocMem 16 { align64k := true } .spare = some (m', 32) ∧ m'.ranges = [⟨16, 16⟩] ∧
      m'.freeMem 32 16 .spare = some { oneRange with ranges := [⟨16, 32⟩] }) ∧
    (∃ m', allocMem ⟨true, [⟨4090, 20⟩], [], []⟩ 1 { lower16mb := true } .spare = some (m', 4109)) ∧
    ¬ Paf.Below { lower16mb := true } (4109 + 1) :=
  ⟨⟨_, rfl, rfl, by decide⟩, ⟨_, rfl⟩, by decide⟩

end Mem

end Minix.Vm
