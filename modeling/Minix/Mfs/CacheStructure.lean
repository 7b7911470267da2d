import Minix.Mfs.Coherence

/-!
# The chains of the buffer cache

`structured_of_run`: in every run of calls of the cache in which only buffers in use are released, and a block that is
being prefetched is not asked for again, the LRU chain has the buffers that are not in use, every buffer is on the hash
chain of its block number, `bufs_in_use` counts the others, and no two buffers are bound to one block.

The last part fails when `get_block` is called for a block that is being prefetched (`structured_misuse`).
-/

namespace Minix.Mfs

open Minix.Lib Function Finset

variable {n : Nat} {α : Type}

namespace Cache

variable {c c' : Cache n α} {i : Fin n} {dev block : Nat}

/-- The structure of the cache, in terms of its fields. -/
structure Structured (c : Cache n α) : Prop where
  lru : ∃ l, DList c.bNext c.bPrev c.front c.rear l ∧ ∀ i, i ∈ l ↔ c.bCount i = 0
  hash : ∀ h < n, ∃ l, Chain c.bHash (c.bufHash h) l ∧ l.Nodup ∧ ∀ i, i ∈ l ↔ hash n (c.bBlocknr i) = h
  inUse : c.bufsInUse = (univ.filter fun i => c.bCount i ≠ 0).card
  uniq : Uniq c

theorem Wf.structured (h : c.Wf) (hu : Uniq c) : c.Structured := by
  obtain ⟨l, hl, hm, hlen⟩ := h.lru
  refine ⟨⟨l, hl, hm⟩, fun b hb => ?_, ?_, hu⟩
  · obtain ⟨l, h1, h2, h3⟩ := h.hash b hb
    exact ⟨l, h1, h2, fun i => by simpa using h3 i⟩
  · have hfree : (univ.filter fun i => c.bCount i = 0) = l.toFinset := by
      ext i
      simp [hm]
    have hcard := card_filter_add_card_filter_not (s := univ) fun i => c.bCount i = 0
    rw [hfree, List.toFinset_card_of_nodup hl.nodup, card_univ, Fintype.card_fin] at hcard
    simp only [ne_eq]
    omega

theorem getBlock_structure {onlySearch : OnlySearch} {contig : Option α} (hw : c.Wf) (hu : Uniq c)
    (hcount : ∀ j, c.bDev j = dev → c.bBlocknr j = block → c.bCount j < 255)
    (hg : c.getBlock dev block onlySearch contig = some (i, c')) : c'.Wf ∧ Uniq c' := by
  have hmiss (hnew : dev ≠ noDev → ∀ j, c.bDev j = dev → c.bBlocknr j ≠ block)
      (hm : c.miss dev block onlySearch contig = some (i, c')) : c'.Wf ∧ Uniq c' := by
    obtain ⟨t, ht, rfl⟩ := miss_taken hw hm
    obtain ⟨hdev, hblk, -⟩ := evict_frame ht
    refine ⟨fill_wf (claim_wf hw ht (evict_cleaned t i) dev block) i dev onlySearch, ?_⟩
    refine ((claim_rebound (t.evict i) i dev block).trans (fill_rebound _ i dev onlySearch)).uniq
      (uniq_congr hu hdev hblk) ?_
    obtain ⟨hb, hd, -⟩ := fill_self (t.evict i) i dev block onlySearch
    intro hi j _ hj
    have hd := (hd.resolve_left hi).1
    rw [hb, hblk]
    rw [hd, hdev] at hj
    exact hnew (hd ▸ hi) j hj
  unfold getBlock at hg
  split at hg
  next hd => exact hmiss (fun h => absurd hd h) hg
  next hd =>
    obtain ⟨r, hr, hfound, hnone⟩ := searchHash_spec hw.hash i dev block
    rw [hr, Option.bind_eq_bind, Option.bind_some] at hg
    cases r with
    | some j =>
      cases hg
      obtain ⟨hjd, hjb⟩ := hfound i rfl
      have hs := hit_content c i
      exact ⟨hit_wf hw (hcount i hjd hjb), uniq_congr hu hs.dev hs.blocknr⟩
    | none => exact hmiss (fun _ => hnone rfl) hg

end Cache

namespace Traced

variable {s s' : Traced n α}

/-- Only buffers in use are released, fewer than 256 users have a buffer, and the buffers that are read have been
prefetched and their blocks are not in the cache. -/
def UseOk (s : Traced n α) : CacheOp n α → Prop
  | .getBlock dev block _ _ => ∀ i, s.cache.bDev i = dev → s.cache.bBlocknr i = block → s.cache.bCount i < 255
  | .putBlock i _ => s.cache.bCount i ≠ 0
  | .rwScattered dev bufq .reading => s.cache.Prefetched dev bufq
  | _ => True

instance (s : Traced n α) : ∀ o, Decidable (s.UseOk o)
  | .getBlock .. | .putBlock .. | .rwScattered _ _ .reading => by unfold UseOk; infer_instance
  | .store .. | .rwScattered _ _ .writing | .flushall _ | .invalidate _ => isTrue trivial

/-- A call keeps the chains of the cache right. -/
theorem step_structure (o : CacheOp n α) (hw : s.cache.Wf) (hu : s.cache.Uniq) (hok : s.UseOk o)
    (hs : s.step o = some s') :
    s'.cache.Wf ∧ s'.cache.Uniq := by
  have hcleaned {c : Cache n α} (h : Cache.Cleaned s.cache c) : c.Wf ∧ c.Uniq := by
    refine ⟨h.wf hw, ?_⟩
    obtain ⟨d, t, rfl⟩ := h
    exact hu
  cases o with
  | getBlock dev block onlySearch contig =>
    obtain ⟨⟨i, c⟩, hg, hs⟩ := Option.bind_eq_some_iff.mp hs
    cases hs
    exact Cache.getBlock_structure hw hu hok hg
  | store i x =>
    cases hs
    exact ⟨⟨hw.hash, hw.lru, hw.count⟩, hu⟩
  | putBlock i blockType =>
    cases hs
    obtain ⟨hdev, hblk, -⟩ := Cache.putBlock_frame s.cache i blockType
    exact ⟨Cache.putBlock_wf hw hok blockType, Cache.uniq_congr hu hdev hblk⟩
  | rwScattered dev bufq rwFlag =>
    cases rwFlag with
    | reading =>
      cases hs
      obtain ⟨h1, h2, -⟩ := Cache.rwScattered_reading hw hu hok
      exact ⟨h1, h2⟩
    | writing =>
      cases hs
      exact hcleaned (Cache.writeRuns_cleaned ..).1
  | flushall dev =>
    cases hs
    exact hcleaned (Cache.flushall_cleaned ..).1
  | invalidate dev =>
    cases hs
    refine ⟨⟨hw.hash, hw.lru, hw.count⟩, fun i j hi hij hb => ?_⟩
    have hdev (k : Fin n) (hk : (s.cache.invalidate dev).bDev k ≠ noDev) :
        (s.cache.invalidate dev).bDev k = s.cache.bDev k :=
      if_neg fun h => hk (if_pos h)
    have hi' := hdev i hi
    have hj' := hdev j (hij ▸ hi)
    exact hu i j (hi' ▸ hi) (hi'.symm.trans (hij.trans hj')) hb

/-- The structure of the cache after every run of calls. -/
theorem structured_of_run {disk : Nat → Nat → α} {data : Fin n → α} {fsBlockSize : Nat} {os : List (CacheOp n α)}
    (hok : AllOk step UseOk os (initial disk data fsBlockSize))
    (hr : run step os (initial disk data fsBlockSize) = some s) :
    s.cache.Structured := by
  have h0 := (initial_inv disk data fsBlockSize)
  obtain ⟨hw, hu⟩ := run_invariant
    (fun _ o _ h ho hs => step_structure o h.1 h.2 ho hs) ⟨h0.wf, h0.coh.uniq⟩ hok hr
  exact hw.structured hu

theorem structured_of_run_sample :
    ∃ s, run step sampleCalls (initial (fun _ b => b) (fun _ => 0) 1024) = some s ∧ s.cache.bufsInUse = 1 ∧
    s.cache.Structured := by
  obtain ⟨s, hr, he⟩ : ∃ s, run step sampleCalls (initial (fun _ b => b) (fun _ => 0) 1024) = some s ∧
      s.cache.bufsInUse = 1 := by
    decide +kernel
  exact ⟨s, hr, he, structured_of_run (by decide +kernel) hr⟩

/-- A block is asked for while it is being prefetched: then two buffers are bound to it. -/
theorem structured_misuse : ∃ s, run step [.getBlock 1 5 .prefetch (some 0), .getBlock 1 5 .normal (some 0),
      .rwScattered 1 [⟨0, by decide⟩] .reading] (initial (n := nrBufs) (fun _ b => b) (fun _ => 0) 1024) = some s ∧
      ¬s.cache.Structured := by
  obtain ⟨s, hr, h1, h2, h3, h4⟩ : ∃ s, run step [.getBlock 1 5 .prefetch (some 0), .getBlock 1 5 .normal (some 0),
      .rwScattered 1 [⟨0, by decide⟩] .reading] (initial (n := nrBufs) (fun _ b => b) (fun _ => 0) 1024) = some s ∧
      s.cache.bDev ⟨0, by decide⟩ = 1 ∧ s.cache.bBlocknr ⟨0, by decide⟩ = 5 ∧ s.cache.bDev ⟨1, by decide⟩ = 1 ∧
      s.cache.bBlocknr ⟨1, by decide⟩ = 5 := by decide +kernel
  refine ⟨s, hr, fun h => ?_⟩
  have := h.uniq _ _ (by rw [h1]; decide) (h1.trans h3.symm) (h2.trans h4.symm)
  exact absurd this (by decide)

end Traced

end Minix.Mfs
