import Minix.Vm.Alloc

/-!
# The page allocator keeps a set of free pages

The tree of ranges stands for a set of pages (`Rep`). `AllocSpec` and `FreeSpec` say what `alloc_pages` and `free_pages`
do with that set.

- `allocPages_spec`, `freePages_spec`: each call does that, and keeps the ranges sorted, disjoint and not adjacent;
- `pages_of_run`: so do all calls of a run, and the tree has exactly the pages that are not allocated;
- `freePages_takes`: `free_pages` can take a free page for the slabs, so that it does not only add pages.
-/

namespace Minix.Vm

open Lib List

/-- The pages of a run. -/
def Run (a n : Nat) : Set Nat := { k | a ≤ k ∧ k < a + n }

/-- A list of ranges stands for a set of pages. -/
structure Rep (ranges : List Span) (F : Set Nat) : Prop where
  apart : Apart ranges
  mem : ∀ n, InSpans ranges n ↔ n ∈ F

/-- There is a run of free pages for a request. -/
def Fits (F : Set Nat) (pages : Nat) (f : Paf) : Prop := ∃ a n, 0 < n ∧ pages ≤ n ∧ Run a n ⊆ F ∧ f.Below (a + pages)

/-- What `alloc_pages` does with the free pages. -/
inductive AllocSpec (F : Set Nat) (pages : Nat) (f : Paf) : Nat → Set Nat → Prop
  | ok (mem : Nat) : mem ≠ NO_MEM → Run mem pages ⊆ F → AllocSpec F pages f mem (F \ Run mem pages)
  | noMem : ¬ Fits F pages f → AllocSpec F pages f NO_MEM F

/-- What `free_pages` does with the free pages, after the slabs may have taken one. -/
inductive FreeSpec (F : Set Nat) (pageno npages : Nat) : Option Nat → Set Nat → Prop
  | spare : FreeSpec F pageno npages none (F ∪ Run pageno npages)
  | page (mem : Nat) : mem ∈ F → FreeSpec F pageno npages (some mem) (F \ Run mem 1 ∪ Run pageno npages)

variable {ranges A B : List Span} {F F' : Set Nat} {x pr : Span} {page : Option Nat} {n pages : Nat} {f : Paf}

variable {npages pageno : Nat}

theorem FreeSpec.mem_iff (h : FreeSpec F pageno npages page F') (n : Nat) :
    n ∈ F' ↔ n ∈ F ∧ n ∉ page.toFinset ∨ n ∈ Run pageno npages := by
  cases h with
  | spare => simp
  | page mem hmem =>
    have hrun : n ∈ Run mem 1 ↔ n = mem := by
      unfold Run
      rw [Set.mem_ofPred_eq]
      omega
    simp [hrun, Option.toFinset_some]

theorem FreeSpec.page_mem (h : FreeSpec F pageno npages page F') : ∀ n ∈ page.toFinset, n ∈ F := by
  intro n hn
  cases h with
  | spare => simp at hn
  | page mem hmem =>
    rw [Option.toFinset_some, Finset.mem_singleton] at hn
    exact hn ▸ hmem

/-! ## The operations on a tree that is cut at a node -/

section Tree

variable {k : Nat} (hA : ∀ y ∈ A, y.base < k) (hB : ∀ y ∈ B, k < y.base)

include hA hB

theorem addrRemove_append (hx : x.base = k) : addrRemove (A ++ x :: B) k = A ++ B := by
  have hA' : A.filter (fun y => y.base ≠ k) = A := filter_eq_self.mpr fun y hy => by simpa using (hA y hy).ne
  have hB' : B.filter (fun y => y.base ≠ k) = B := filter_eq_self.mpr fun y hy => by simpa using (hB y hy).ne'
  unfold addrRemove
  rw [filter_append, filter_cons_of_neg (by simp [hx]), hA', hB']

theorem addrUse_append (hx : x.base = k) (f : Span → Span) : addrUse (A ++ x :: B) k f = A ++ f x :: B := by
  have hA' : A.map (fun y => if y.base = k then f y else y) = A := by
    refine (map_congr_left fun y hy => if_neg (hA y hy).ne).trans (map_id' A)
  have hB' : B.map (fun y => if y.base = k then f y else y) = B := by
    refine (map_congr_left fun y hy => if_neg (hB y hy).ne').trans (map_id' B)
  unfold addrUse
  rw [map_append, map_cons, hA', hB', if_pos hx]

end Tree

section Search

variable {k : Nat} (hA : ∀ y ∈ A, y.base < k) (hB : ∀ y ∈ B, k ≤ y.base)

include hA hB

theorem takeWhile_append : (A ++ B).takeWhile (fun y => y.base < k) = A := by
  rw [takeWhile_append_of_pos fun y hy => by simpa using hA y hy]
  cases B with
  | nil => simp
  | cons y B =>
    have := hB y mem_cons_self
    rw [takeWhile_cons_of_neg (by simpa using this), append_nil]

theorem dropWhile_append : (A ++ B).dropWhile (fun y => y.base < k) = B := by
  rw [dropWhile_append_of_pos fun y hy => by simpa using hA y hy]
  cases B with
  | nil => simp
  | cons y B =>
    have := hB y mem_cons_self
    rw [dropWhile_cons_of_neg (by simpa using this)]

theorem addrInsert_append (hx : x.base = k) : addrInsert (A ++ B) x = A ++ x :: B := by
  unfold addrInsert
  rw [hx, takeWhile_append hA hB, dropWhile_append hA hB]

theorem addrDecr_append : addrDecr (A ++ B) k = A.getLast? := by
  rw [addrDecr, takeWhile_append hA hB]

end Search

/-! ## Freeing -/

theorem mergeLower_nil (pr : Span) (hB : ∀ y ∈ B, pr.base < y.base) : mergeLower (pr :: B) pr = pr :: B := by
  have hdecr : addrDecr ([] ++ pr :: B) pr.base = none := by
    rw [addrDecr_append (fun y hy => (by cases hy)) fun y hy => ?_]
    · rfl
    · rcases mem_cons.mp hy with rfl | hy
      · exact le_rfl
      · exact (hB y hy).le
  rw [nil_append] at hdecr
  rw [mergeLower, hdecr]

theorem mergeLower_append (p pr : Span) (h : Apart (A ++ [p])) (hp : p.stop ≤ pr.base)
    (hB : ∀ y ∈ B, pr.base < y.base) :
    mergeLower (A ++ p :: pr :: B) pr =
      A ++ if p.stop = pr.base then ⟨p.base, p.len + pr.len⟩ :: B else p :: pr :: B := by
  have hpos : 0 < p.len := h.pos p (mem_append_right _ mem_cons_self)
  have hlt : p.base < pr.base := by
    unfold Span.stop at hp
    omega
  have hA := h.base_lt.1
  have hB' : ∀ y ∈ pr :: B, pr.base ≤ y.base := fun y hy => by
    rcases mem_cons.mp hy with rfl | hy
    · exact le_rfl
    · exact (hB y hy).le
  have hApr : ∀ y ∈ A ++ [p], y.base < pr.base := fun y hy => by
    rcases mem_append.mp hy with hy | hy
    · exact (hA y hy).trans hlt
    · exact mem_singleton.mp hy ▸ hlt
  have hdecr : addrDecr (A ++ p :: pr :: B) pr.base = some p := by
    rw [append_cons, addrDecr_append hApr hB', getLast?_concat]
  rw [mergeLower, hdecr]
  dsimp only
  by_cases heq : p.stop = pr.base
  · have huse : addrUse (A ++ p :: pr :: B) p.base (fun q => { q with len := q.len + pr.len }) =
        A ++ ⟨p.base, p.len + pr.len⟩ :: pr :: B :=
      addrUse_append hA (fun y hy => Nat.lt_of_lt_of_le hlt (hB' y hy)) rfl _
    have hApr' : ∀ y ∈ A ++ [⟨p.base, p.len + pr.len⟩], y.base < pr.base := fun y hy => by
      rcases mem_append.mp hy with hy | hy
      · exact (hA y hy).trans hlt
      · rw [mem_singleton.mp hy]
        exact hlt
    rw [if_pos heq, if_pos heq, huse, append_cons, addrRemove_append hApr' hB rfl, append_assoc]
    rfl
  · rw [if_neg heq, if_neg heq]

/-- A span is put in a tree that is cut where it belongs. -/
theorem mergeLower_joinUp (hx : 0 < x.len) (h : Apart (A ++ B)) (hA : ∀ y ∈ A, y.stop ≤ x.base)
    (hB : ∀ y ∈ B, x.stop ≤ y.base)
    {rest : List Span} (hjoin : joinUp x B = ⟨x.base, n⟩ :: rest) :
    mergeLower (A ++ ⟨x.base, n⟩ :: rest) ⟨x.base, n⟩ = put x (A ++ B) := by
  have hrest : ∀ y ∈ rest, x.base < y.base := fun y hy => by
    obtain ⟨n', rest', hjoin', -, hmem⟩ := joinUp_eq x B
    obtain ⟨-, rfl⟩ := List.cons.inj (hjoin.symm.trans hjoin')
    have := hB y (hmem y hy)
    unfold Span.stop at this
    omega
  rcases eq_nil_or_concat A with rfl | ⟨A', p, rfl⟩
  · rw [nil_append, nil_append, mergeLower_nil ⟨x.base, n⟩ hrest, put_of_le hx hB, hjoin]
  · rw [concat_eq_append] at h hA ⊢
    obtain ⟨hA', -⟩ := Apart.append_iff.mp h
    have hp := hA p (mem_append_right _ mem_cons_self)
    rw [← append_cons, ← append_cons, mergeLower_append p ⟨x.base, n⟩ hA' hp hrest, put_append hx hB hp hA']
    congr 1
    dsimp only
    split
    next heq => rw [joinUp_longer heq hjoin]
    next => rw [hjoin]

theorem addrSearch_eq_none {k : Nat} (h : ∀ y ∈ ranges, y.base ≠ k) : addrSearch ranges k = none := by
  unfold addrSearch
  exact find?_eq_none.mpr fun y hy => by simpa using h y hy

theorem addrSearch_append {k : Nat} (hA : ∀ y ∈ A, y.base < k) (hx : x.base = k) :
    addrSearch (A ++ x :: B) k = some x := by
  unfold addrSearch
  rw [find?_append, find?_eq_none.mpr fun y hy => by simpa using (hA y hy).ne, find?_cons_of_pos (by simpa using hx)]
  rfl

/-- **Freeing pages puts them in the tree**, if a node is at hand. -/
theorem freePages_spare (hn : 0 < npages) (h : Apart ranges) (hc : Clear ⟨pageno, npages⟩ ranges) :
    freePages ranges pageno npages .spare = some (put ⟨pageno, npages⟩ ranges, none) := by
  obtain ⟨A, B, rfl, hA, hB⟩ := hc.split hn h
  have hAk : ∀ y ∈ A, y.base < pageno + npages := fun y hy => by
    have := hA y hy
    unfold Span.stop at this
    dsimp only at this
    omega
  obtain ⟨-, hBapart, -⟩ := Apart.append_iff.mp h
  by_cases hq : ∃ q B', B = q :: B' ∧ q.base = pageno + npages
  · obtain ⟨q, B', rfl, hq⟩ := hq
    have hB' : ∀ y ∈ B', q.base < y.base := (Apart.base_lt (A := []) hBapart).2
    have hjoin : joinUp ⟨pageno, npages⟩ (q :: B') = ⟨pageno, q.len + npages⟩ :: B' := by
      rw [joinUp, Span.stop_mk, if_pos hq.symm, Nat.add_comm]
    have hnew : (⟨q.base - npages, q.len + npages⟩ : Span) = ⟨pageno, q.len + npages⟩ := by
      rw [hq, Nat.add_sub_cancel]
    rw [freePages, addrSearch_append hAk hq]
    dsimp only
    rw [hq, addrUse_append hAk (fun y hy => hq ▸ hB' y hy) hq, ← hq, hnew]
    exact congrArg (fun l => some (l, none)) (mergeLower_joinUp hn h hA hB hjoin)
  · have hjoin : joinUp ⟨pageno, npages⟩ B = ⟨pageno, npages⟩ :: B := by
      cases B with
      | nil => rfl
      | cons q B' => rw [joinUp, if_neg fun heq => hq ⟨q, B', rfl, heq.symm⟩]
    have hfirst : ∀ y ∈ B, y.base ≠ pageno + npages := fun y hy heq => by
      cases B with
      | nil => cases hy
      | cons q B' =>
        rcases mem_cons.mp hy with rfl | hy
        · exact hq ⟨y, B', rfl, heq⟩
        · have h1 := (Apart.base_lt (A := []) hBapart).2 y hy
          have h2 := hB q mem_cons_self
          rw [Span.stop_mk] at h2
          omega
    have hnone : addrSearch (A ++ B) (pageno + npages) = none := by
      refine addrSearch_eq_none fun y hy => ?_
      rcases mem_append.mp hy with hy | hy
      · exact (hAk y hy).ne
      · exact fun heq => hfirst y hy heq
    have hins : addrInsert (A ++ B) ⟨pageno, npages⟩ = A ++ ⟨pageno, npages⟩ :: B := by
      refine addrInsert_append (fun y hy => ?_) (fun y hy => ?_) rfl
      · have h1 := hA y hy
        have h2 := h.pos y (mem_append_left _ hy)
        unfold Span.stop at h1
        exact Nat.lt_of_lt_of_le (Nat.lt_add_of_pos_right h2) h1
      · have h1 := hB y hy
        rw [Span.stop_mk] at h1
        exact (Nat.le_add_right _ _).trans h1
    rw [freePages, hnone]
    exact congrArg
      (fun l => some (l, none)) ((congrArg (mergeLower · _) hins).trans (mergeLower_joinUp hn h hA hB hjoin))

/-! ## Allocating -/

theorem Paf.Below.mono {a b : Nat} (h : f.Below b) (hab : a ≤ b) : f.Below a :=
  ⟨fun hf => hab.trans (h.1 hf), fun hf => hab.trans (h.2 hf)⟩

theorem find?_walk (h : (f.walk ranges).find? (fun x => pages ≤ x.len) = some pr) :
    ∃ A B, ranges = A ++ pr :: B ∧ pages ≤ pr.len ∧
      (¬ f.Below (pr.base + pages) → ∀ y ∈ A, y.len < pages) := by
  obtain ⟨hlen, A, B, hcut, hA⟩ := find?_eq_some_iff_append.mp h
  have hlen : pages ≤ pr.len := of_decide_eq_true hlen
  unfold Paf.walk at hcut
  split at hcut
  next => exact ⟨A, B, hcut, hlen, fun _ y hy => Nat.lt_of_not_le fun hle => by simpa [hle] using hA y hy⟩
  next hlow =>
    refine ⟨B.reverse, A.reverse, ?_, hlen, fun hn => absurd ?_ hn⟩
    · have := congrArg List.reverse hcut
      simpa using this
    · have hlow' : f.lower16mb = false ∧ f.lower1mb = false := by simpa using hlow
      exact ⟨fun h => absurd (hlow'.1.symm.trans h) Bool.false_ne_true,
        fun h => absurd (hlow'.2.symm.trans h) Bool.false_ne_true⟩

/-- A request that fits is for a part of one range. -/
theorem Rep.exists_of_fits (h : Rep ranges F) (hfits : Fits F pages f) :
    ∃ x ∈ ranges, pages ≤ x.len ∧ f.Below (x.base + pages) := by
  obtain ⟨a, n, hn, hle, hrun, hbelow⟩ := hfits
  obtain ⟨x, hx, hbase, hstop⟩ := h.apart.exists_span hn fun k h1 h2 => (h.mem k).mpr (hrun ⟨h1, h2⟩)
  refine ⟨x, hx, ?_, hbelow.mono (by omega)⟩
  unfold Span.stop at hstop
  omega

/-- A run of a range is taken out, and `R` is what is left of it. -/
theorem Rep.cut {R : List Span} {a : Nat} (h : Rep (A ++ pr :: B) F) (hapart : Apart (A ++ (R ++ B)))
    (hR : ∀ k, InSpans R k ↔ pr.Has k ∧ k ∉ Run a n) (hrun : ∀ k ∈ Run a n, pr.Has k) :
    Rep (A ++ (R ++ B)) (F \ Run a n) := by
  refine ⟨hapart, fun k => ?_⟩
  have hF := h.mem k
  rw [inSpans_append, inSpans_cons] at hF
  rw [inSpans_append, inSpans_append, hR, Set.mem_sdiff, ← hF]
  by_cases hpr : pr.Has k
  · obtain ⟨hA, hB⟩ := h.apart.not_inSpans hpr
    simp only [hA, hB, hpr, true_and, false_or, or_false]
  · have hk := mt (hrun k) hpr
    simp only [hpr, hk, false_or, not_false_eq_true, and_true]

/-- A part of a range is taken, and the rest `q` of it stays, if there is one. -/
theorem Rep.takePart {q : Span} {a : Nat} (h : Rep (A ++ pr :: B) F) (hbase : pr.base ≤ q.base)
    (hstop : q.stop ≤ pr.stop) (hq : ∀ k, q.Has k ↔ pr.Has k ∧ k ∉ Run a n) (hrun : ∀ k ∈ Run a n, pr.Has k) :
    Rep (A ++ if q.len = 0 then B else q :: B) (F \ Run a n) := by
  split
  next hall =>
    refine h.cut h.apart.drop (fun k => iff_of_false (inSpans_nil k) fun hk => ?_) hrun
    obtain ⟨h1, h2⟩ := (hq k).mpr hk
    unfold Span.stop at h2
    omega
  next hpart =>
    refine h.cut (R := [q]) (h.apart.narrow (Nat.pos_of_ne_zero hpart) hbase hstop) (fun k => ?_) hrun
    rw [inSpans_cons, or_iff_left (inSpans_nil k), hq]

theorem Rep.takeEnd (h : Rep (A ++ pr :: B) F) (hle : pages ≤ pr.len) :
    Rep (A ++ if pr.len = pages then B else ⟨pr.base, pr.len - pages⟩ :: B)
    (F \ Run (pr.base + pr.len - pages) pages) := by
  have hiff : pr.len = pages ↔ pr.len - pages = 0 := by omega
  simp only [hiff]
  refine h.takePart (q := ⟨pr.base, pr.len - pages⟩) le_rfl ?_ (fun k => ?_) ?_
  · unfold Span.stop
    dsimp only
    omega
  · rw [Span.has_mk]
    unfold Span.Has Span.stop Run
    rw [Set.mem_ofPred_eq]
    omega
  · rintro k ⟨h1, h2⟩
    unfold Span.Has Span.stop
    omega

/-- `alloc_pages` finds no range for the request, or takes the end of one. -/
theorem allocPages_cases (h : Rep ranges F) (pages : Nat) (f : Paf) :
    (allocPages ranges pages f = (ranges, NO_MEM) ∧ ¬ Fits F pages f) ∨
    ∃ pr ∈ ranges, pages ≤ pr.len ∧ f.Below (pr.base + pages) ∧
    (allocPages ranges pages f).2 = pr.base + pr.len - pages ∧
      Rep (allocPages ranges pages f).1 (F \ Run (pr.base + pr.len - pages) pages) := by
  cases hfind : (f.walk ranges).find? fun pr => pages ≤ pr.len with
  | none =>
    refine .inl ⟨by rw [allocPages, hfind], fun hfits => ?_⟩
    obtain ⟨x, hx, hle, -⟩ := h.exists_of_fits hfits
    have hx' : x ∈ f.walk ranges := by
      unfold Paf.walk
      split
      · exact hx
      · exact mem_reverse.mpr hx
    simpa [hle] using find?_eq_none.mp hfind x hx'
  | some pr =>
    obtain ⟨A, B, rfl, hle, hfirst⟩ := find?_walk hfind
    by_cases hbelow : f.Below (pr.base + pages)
    · have heq : allocPages (A ++ pr :: B) pages f =
          (A ++ if pr.len = pages then B else ⟨pr.base, pr.len - pages⟩ :: B, pr.base + pr.len - pages) := by
        obtain ⟨hA, hB⟩ := h.apart.base_lt
        rw [allocPages, hfind]
        dsimp only
        rw [if_neg (not_not.mpr hbelow), addrRemove_append hA hB rfl, addrUse_append hA hB rfl]
        split <;> rfl
      rw [heq]
      exact .inr ⟨pr, by simp, hle, hbelow, rfl, h.takeEnd hle⟩
    · refine .inl ⟨?_, fun hfits => hbelow ?_⟩
      · rw [allocPages, hfind]
        dsimp only
        rw [if_pos hbelow]
      · -- the ranges before are too small, and those after it are higher
        obtain ⟨x, hx, hxle, hxbelow⟩ := h.exists_of_fits hfits
        refine hxbelow.mono (Nat.add_le_add_right ?_ _)
        rcases mem_append.mp hx with hx | hx
        · exact absurd (hfirst hbelow x hx) (Nat.not_lt_of_le hxle)
        · rcases mem_cons.mp hx with rfl | hx
          · exact le_rfl
          · exact (h.apart.base_lt.2 x hx).le

theorem Rep.run_subset (h : Rep ranges F) (hpr : pr ∈ ranges) (hle : pages ≤ pr.len) :
    Run (pr.base + pr.len - pages) pages ⊆ F := by
  rintro k ⟨h1, h2⟩
  refine (h.mem k).mp ⟨pr, hpr, ?_, ?_⟩
  · omega
  · unfold Span.stop
    omega

/-- Pages are taken from the free ones where they fit. -/
theorem allocPages_spec (h : Rep ranges F) (h0 : 0 ∉ F) (pages : Nat) (f : Paf) :
    ∃ F', AllocSpec F pages f (allocPages ranges pages f).2 F' ∧ Rep (allocPages ranges pages f).1 F' := by
  rcases allocPages_cases h pages f with ⟨heq, hfits⟩ | ⟨pr, hpr, hle, -, hmem, hrep⟩
  · rw [heq]
    exact ⟨F, .noMem hfits, h⟩
  · rw [hmem]
    refine ⟨_, .ok _ ?_ (h.run_subset hpr hle), hrep⟩
    have hpos := h.apart.pos pr hpr
    have hbase : pr.base ≠ 0 := fun hz => h0 ((h.mem 0).mp ⟨pr, hpr, hz.le, by unfold Span.stop; omega⟩)
    unfold NO_MEM
    omega

theorem base_allocPages {y : Span} (hy : y ∈ (allocPages ranges pages f).1) : ∃ x ∈ ranges, x.base = y.base := by
  unfold allocPages at hy
  split at hy
  · exact ⟨y, hy, rfl⟩
  · split at hy
    · exact ⟨y, hy, rfl⟩
    dsimp only at hy
    split at hy
    · exact ⟨y, (mem_filter.mp hy).1, rfl⟩
    · obtain ⟨x, hx, rfl⟩ := mem_map.mp hy
      refine ⟨x, hx, ?_⟩
      split <;> rfl

/-! ## Freeing when a page is needed for the node -/

theorem Rep.clear (h : Rep ranges F) (hn : 0 < npages) (hd : ∀ k ∈ Run pageno npages, k ∉ F) :
    Clear ⟨pageno, npages⟩ ranges := by
  intro y hy
  have hpos := h.apart.pos y hy
  by_contra hover
  rw [not_or, Span.stop_mk] at hover
  unfold Span.stop at hover
  dsimp only at hover
  -- the greater one of the first pages is in both
  refine hd (max pageno y.base) ⟨?_, ?_⟩ ((h.mem _).mp ⟨y, hy, ?_, ?_⟩)
  · exact le_max_left _ _
  · omega
  · exact le_max_right _ _
  · unfold Span.stop
    omega

theorem Rep.freePages_spare (h : Rep ranges F) (hn : 0 < npages) (hd : ∀ k ∈ Run pageno npages, k ∉ F) :
    ∃ ranges', freePages ranges pageno npages .spare = some (ranges', none) ∧ Rep ranges' (F ∪ Run pageno npages) := by
  have hc := h.clear hn hd
  refine ⟨_, Vm.freePages_spare hn h.apart hc, put_apart hn h.apart hc, fun n => ?_⟩
  rw [inSpans_put, h.mem, or_comm]
  rfl

/-- `free_pages` goes on with the tree that the slabs leave. -/
theorem freePages_of_slabAlloc {slab : Slab} {ranges1 : List Span}
    (hnone : addrSearch ranges (pageno + npages) = none) (hnone1 : addrSearch ranges1 (pageno + npages) = none)
    (hslab : slabAlloc ranges slab = some (ranges1, page)) :
    freePages ranges pageno npages slab = (freePages ranges1 pageno npages .spare).map fun r => (r.1, page) := by
  have hspare : slabAlloc ranges1 .spare = some (ranges1, none) := rfl
  rw [freePages, freePages, hnone, hnone1]
  simp only [hslab, hspare]
  rfl

/-- Pages that were not free become free. -/
theorem freePages_spec (h : Rep ranges F) (hn : 0 < npages)
    (hd : ∀ k ∈ Run pageno npages, k ∉ F) {slab : Slab} {ranges' : List Span}
    (hr : freePages ranges pageno npages slab = some (ranges', page)) :
    ∃ F', FreeSpec F pageno npages page F' ∧ Rep ranges' F' := by
  obtain ⟨l, hl, hrep⟩ := h.freePages_spare hn hd
  cases hs : addrSearch ranges (pageno + npages) with
  | some pr =>
    have heq : freePages ranges pageno npages slab = freePages ranges pageno npages .spare := by
      rw [freePages, freePages, hs]
    cases hr.symm.trans (heq.trans hl)
    exact ⟨_, .spare, hrep⟩
  | none =>
    cases slab with
    | spare =>
      cases hr.symm.trans hl
      exact ⟨_, .spare, hrep⟩
    | fails =>
      rw [freePages, hs] at hr
      cases hr
    | page =>
      by_cases hmem : (allocPages ranges 1 {}).2 = NO_MEM
      · rw [freePages, hs] at hr
        simp only [slabAlloc, hmem, if_true] at hr
        cases hr
      · have hslab : slabAlloc ranges .page = some ((allocPages ranges 1 {}).1, some (allocPages ranges 1 {}).2) := by
          simp only [slabAlloc, if_neg hmem]
        have hnone1 : addrSearch (allocPages ranges 1 {}).1 (pageno + npages) = none := by
          refine addrSearch_eq_none fun y hy heq => ?_
          obtain ⟨x, hx, hxy⟩ := base_allocPages hy
          have := find?_eq_none.mp hs x hx
          simp [hxy, heq] at this
        rcases allocPages_cases h 1 {} with ⟨heq, -⟩ | ⟨pr, hpr, hle, -, hm, hrep1⟩
        · exact absurd (congrArg Prod.snd heq) hmem
        · obtain ⟨l1, hl1, hrep'⟩ := hrep1.freePages_spare hn fun k hk hk' => hd k hk hk'.1
          rw [freePages_of_slabAlloc hs hnone1 hslab, hl1, hm] at hr
          cases hr
          exact ⟨_, .page _ (h.run_subset hpr hle ⟨le_rfl, Nat.lt_succ_self _⟩), hrep'⟩

/-! ## Runs -/

/-- The tree, and the pages that are allocated. -/
structure Pages where
  ranges : List Span
  out : Finset Nat

inductive PageOp
  | alloc (pages : Nat) (f : Paf)
  | free (pageno npages : Nat) (slab : Slab)

namespace Pages

/-- The pages of the memory that are not allocated, for the memory of a state `s`. -/
def free (s k : Pages) : Set Nat := { n | (InSpans s.ranges n ∨ n ∈ s.out) ∧ n ∉ k.out }

def step (s : Pages) : PageOp → Option Pages
  | .alloc pages f =>
    let (ranges, mem) := allocPages s.ranges pages f
    some ⟨ranges, if mem = NO_MEM then s.out else s.out ∪ Finset.Ico mem (mem + pages)⟩
  | .free pageno npages slab => do
    let (ranges, page) ← freePages s.ranges pageno npages slab
    some ⟨ranges, s.out \ Finset.Ico pageno (pageno + npages) ∪ page.toFinset⟩

/-- Pages are returned that are allocated. -/
def StepOk (s : Pages) : PageOp → Prop
  | .alloc _ _ => True
  | .free pageno npages _ => 0 < npages ∧ Finset.Ico pageno (pageno + npages) ⊆ s.out

instance (s : Pages) : ∀ o, Decidable (s.StepOk o)
  | .alloc _ _ => isTrue trivial
  | .free _ _ _ => inferInstanceAs (Decidable (_ ∧ _))

/-- The ranges have the pages that are not allocated. Page 0 is not in the memory, as its number stands for a failure.
-/
structure Start (s : Pages) : Prop where
  apart : Apart s.ranges
  disjoint : ∀ n, InSpans s.ranges n → n ∉ s.out
  zero : ¬ InSpans s.ranges 0 ∧ 0 ∉ s.out

variable {s k k' : Pages}

theorem mem_free : n ∈ s.free k ↔ (InSpans s.ranges n ∨ n ∈ s.out) ∧ n ∉ k.out := Iff.rfl

/-- The tree has the pages of the memory that are not allocated. -/
structure Inv (s k : Pages) : Prop where
  rep : Rep k.ranges (s.free k)
  total : ∀ n ∈ k.out, InSpans s.ranges n ∨ n ∈ s.out

theorem Start.inv (h : s.Start) : Inv s s := by
  refine ⟨⟨h.apart, fun n => ⟨fun hn => ⟨.inl hn, h.disjoint n hn⟩, fun hn => hn.1.resolve_right hn.2⟩⟩,
    fun n hn => .inr hn⟩

theorem Start.zero_notMem (h : s.Start) (k : Pages) : 0 ∉ s.free k := fun hn => hn.1.elim h.zero.1 h.zero.2

theorem notMem_free (hout : Finset.Ico pageno (pageno + npages) ⊆ k.out) :
    ∀ n ∈ Run pageno npages, n ∉ s.free k := fun _ hn hfree => hfree.2 (hout (Finset.mem_Ico.mpr hn))

theorem Inv.alloc (h : Inv s k) (h0 : s.Start) (pages : Nat) (f : Paf) (hk : k.step (.alloc pages f) = some k') :
    Inv s k' := by
  obtain ⟨F', hspec, hrep⟩ := allocPages_spec h.rep (h0.zero_notMem k) pages f
  simp only [step, Option.some.injEq] at hk
  subst hk
  generalize (allocPages k.ranges pages f).2 = mem at hspec
  cases hspec with
  | noMem _ => exact ⟨hrep, h.total⟩
  | ok _ hmem hrun =>
    rw [if_neg hmem]
    refine ⟨⟨hrep.apart, fun n => ?_⟩, fun n hn => ?_⟩
    · rw [hrep.mem, Set.mem_sdiff, mem_free, mem_free, Finset.mem_union, not_or, Finset.mem_Ico, and_assoc]
      rfl
    · rcases Finset.mem_union.mp hn with hn | hn
      · exact h.total n hn
      · exact (hrun (Finset.mem_Ico.mp hn)).1

theorem Inv.free (h : Inv s k) {pageno npages : Nat} {slab : Slab} (hok : k.StepOk (.free pageno npages slab))
    (hk : k.step (.free pageno npages slab) = some k') : Inv s k' := by
  obtain ⟨hn, hout⟩ := hok
  obtain ⟨⟨ranges', page⟩, hr, hk⟩ := Option.bind_eq_some_iff.mp hk
  cases hk
  obtain ⟨F', hspec, hrep⟩ := freePages_spec h.rep hn (notMem_free hout) hr
  have hin : ∀ n, n ∈ Finset.Ico pageno (pageno + npages) ↔ n ∈ Run pageno npages := fun n => Finset.mem_Ico
  have htotal : ∀ n ∈ Run pageno npages, InSpans s.ranges n ∨ n ∈ s.out :=
    fun n hn' => h.total n (hout ((hin n).mpr hn'))
  refine ⟨⟨hrep.apart, fun n => ?_⟩, fun n hn' => ?_⟩
  · have hn' := htotal n
    have hpage : n ∈ page.toFinset → n ∈ s.free k := hspec.page_mem n
    have hrun : n ∈ Run pageno npages → n ∉ s.free k := notMem_free hout n
    rw [mem_free] at hpage hrun
    rw [hrep.mem, hspec.mem_iff, mem_free, mem_free, Finset.mem_union, Finset.mem_sdiff, hin]
    tauto
  · rcases Finset.mem_union.mp hn' with hn' | hn'
    · exact h.total n (Finset.mem_sdiff.mp hn').1
    · exact (hspec.page_mem n hn').1

/-- A call keeps the invariant. -/
theorem Inv.step (h : Inv s k) (h0 : s.Start) {o : PageOp} (hok : k.StepOk o) (hk : k.step o = some k') : Inv s k' := by
  cases o with
  | alloc pages f => exact h.alloc h0 pages f hk
  | free pageno npages slab => exact h.free hok hk

/-- **The tree has exactly the free pages in every run**, and each call does what it is for. -/
theorem pages_of_run {os : List PageOp} (h0 : s.Start) (hok : AllOk step StepOk os s) (hr : run step os s = some k) :
    Rep k.ranges (s.free k) ∧
    (∀ pages f, ∃ F', AllocSpec (s.free k) pages f (allocPages k.ranges pages f).2 F' ∧
    Rep (allocPages k.ranges pages f).1 F') ∧
    ∀ pageno npages slab, k.StepOk (.free pageno npages slab) →
      (∀ ranges page, freePages k.ranges pageno npages slab = some (ranges, page) →
        ∃ F', FreeSpec (s.free k) pageno npages page F' ∧ Rep ranges F') ∧
      (slab = .spare → ∃ ranges, freePages k.ranges pageno npages slab = some (ranges, none)) := by
  have h : Inv s k := run_invariant (I := Inv s) (fun _ _ _ h ho hs => h.step h0 ho hs) h0.inv hok hr
  refine ⟨h.rep, allocPages_spec h.rep (h0.zero_notMem k), fun pageno npages slab ho => ⟨fun ranges page hf => ?_, ?_⟩⟩
  · exact freePages_spec h.rep ho.1 (notMem_free ho.2) hf
  · rintro rfl
    obtain ⟨ranges, hf, -⟩ := h.rep.freePages_spare ho.1 (notMem_free ho.2)
    exact ⟨ranges, hf⟩

/-- A memory of pages 1 to 9. -/
def tenPages : Pages := ⟨[⟨1, 9⟩], ∅⟩

/-- Pages are allocated from the end, and freed so that they are merged with both neighbours. One is taken for a new
node. -/
def scattered : List PageOp :=
  [.alloc 2 {}, .alloc 3 {}, .alloc 1 { lower1mb := true }, .free 8 2 .spare, .free 5 1 .page, .free 6 2 .spare]

theorem pages_of_run_scattered : ∃ k, run step scattered tenPages = some k ∧ k.ranges = [⟨1, 3⟩, ⟨5, 4⟩] ∧
    k.out = {4, 9} ∧
    Rep k.ranges (tenPages.free k) := by
  obtain ⟨k, hk, hranges, hout⟩ : ∃ k, run step scattered tenPages = some k ∧ k.ranges = [⟨1, 3⟩, ⟨5, 4⟩] ∧
      k.out = {4, 9} := by
    decide +kernel
  have h0 : tenPages.Start := by
    refine ⟨Apart.cons_iff.mpr ⟨by decide, Apart.nil, nofun⟩, fun n _ => Finset.notMem_empty n, by decide, by decide⟩
  exact ⟨k, hk, hranges, hout, (pages_of_run h0 (by decide +kernel) hk).1⟩

/-- The pages 8 and 9 are free and page 5 is freed, for which the slabs take page 9. It is not free any more. -/
theorem freePages_takes : ∃ k k', run step (scattered.take 4) tenPages = some k ∧ k.step (.free 5 1 .page) = some k' ∧
    5 ∈ k.out ∧ InSpans k.ranges 9 ∧ ¬ ∀ n, InSpans k'.ranges n ↔ InSpans k.ranges n ∨ n ∈ Run 5 1 := by
  obtain ⟨k, hk, k', hk', hout, hin, hgone⟩ : ∃ k, run step (scattered.take 4) tenPages = some k ∧
      ∃ k', k.step (.free 5 1 .page) = some k' ∧ 5 ∈ k.out ∧ InSpans k.ranges 9 ∧ ¬ InSpans k'.ranges 9 := by
    decide +kernel
  exact ⟨k, k', hk, hk', hout, hin, fun h => hgone ((h 9).mpr (.inl hin))⟩

end Pages

end Minix.Vm
