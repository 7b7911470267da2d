import Minix.Mfs.CacheInv
import Minix.Lib.Run

/-!
# Coherence of the buffer cache

The cache stands for a plain memory of blocks, `mem`: a store through the cache stores there, and `invalidate` drops
what has not been written back. `Coh c mem fresh` is the simulation relation: a buffer that is bound to a block has the
content of the block, a clean one agrees with the device, and the device has the content of the blocks that are not in
the cache. `fresh` is a buffer that `get_block` has returned without reading the block.

* `CallOk` is the contract between the cache and its callers.
* `Traced.coherent_of_run`: in every run of calls that keep to it, `get_block` yields the content that was stored last,
  and `flushall` brings the device up to date.
* `coherent_misuse`: each of the three clauses of the contract about contents is needed.
-/

namespace Minix.Mfs

open Minix.Lib Function List Option

variable {n : Nat} {α : Type}

namespace Cache

variable {c c' : Cache n α} {mem : Nat → Nat → α} {fresh : Option (Fin n)} {i j : Fin n} {dev block : Nat}

/-- The simulation relation between the cache and the memory it stands for. -/
structure Coh (c : Cache n α) (mem : Nat → Nat → α) (fresh : Option (Fin n)) : Prop where
  uniq : ∀ i j, c.bDev i ≠ noDev → c.bDev i = c.bDev j → c.bBlocknr i = c.bBlocknr j → i = j
  data : ∀ i, c.bDev i ≠ noDev → fresh ≠ some i → c.bData i = mem (c.bDev i) (c.bBlocknr i)
  clean : ∀ i, c.bDev i ≠ noDev → fresh ≠ some i → c.bDirt i = false → c.bData i = c.disk (c.bDev i) (c.bBlocknr i)
  absent : ∀ d b, d ≠ noDev → (∀ i, c.bDev i = d → c.bBlocknr i ≠ b) → c.disk d b = mem d b
  bytes : ∀ i, c.bDev i ≠ noDev → c.fsBlockSize ≤ c.bBytes i

theorem SameContent.coh (h : SameContent c c') (hc : Coh c mem fresh) : Coh c' mem fresh := by
  constructor
  · rw [h.dev, h.blocknr]
    exact hc.uniq
  · rw [h.dev, h.blocknr, h.data]
    exact hc.data
  · rw [h.dev, h.blocknr, h.data, h.dirt, h.disk]
    exact hc.clean
  · rw [h.dev, h.blocknr, h.disk]
    exact hc.absent
  · rw [h.dev, h.bytes, h.size]
    exact hc.bytes

variable {q : List (Fin n)}

theorem Wrote.coh (h : Wrote dev q c c') (hq : ∀ i ∈ q, c.bDev i = dev) (hc : Coh c mem none) :
    Coh c' mem none := by
  obtain ⟨d, t, rfl⟩ := h.cleaned
  refine ⟨hc.uniq, hc.data, ?_, ?_, hc.bytes⟩
  · intro i hi _ hclean
    by_cases hiq : i ∈ q
    · show c.bData i = d (c.bDev i) (c.bBlocknr i)
      rw [hq i hiq]
      exact (h.stored i hiq).symm
    · rw [h.dirt i hiq] at hclean
      rw [h.kept _ _ fun e j hj hb =>
        hiq (hc.uniq j i ((hq j hj).symm ▸ e ▸ hi) (by rw [hq j hj]; exact e.symm) hb ▸ hj)]
      exact hc.clean i hi (by simp) hclean
  · intro e b he hab
    rw [h.kept e b fun hed i hi => hab i (by rw [hed]; exact hq i hi)]
    exact hc.absent e b he hab

theorem flushall_coh (hc : Coh c mem none) (hd : dev ≠ noDev) : Coh (c.flushall dev) mem none :=
  (flushall_wrote dev fun i j hi => hc.uniq i j (hi ▸ hd)).coh (fun _ hi => (mem_dirtyOf.mp hi).2) hc

theorem flushall_disk (hc : Coh c mem none) (hd : dev ≠ noDev) (b : Nat) : (c.flushall dev).disk dev b = mem dev b := by
  have hw := flushall_wrote dev fun i j hi => hc.uniq i j (hi ▸ hd)
  have hcoh := flushall_coh hc hd
  by_cases h : ∃ i, c.bDev i = dev ∧ c.bBlocknr i = b
  · obtain ⟨i, rfl, rfl⟩ := h
    have hdata := hc.data i hd (by simp)
    by_cases hi : c.bDirt i = true
    · rw [hw.stored i (mem_dirtyOf.mpr ⟨hi, rfl⟩), hdata]
    · have hclean := hw.dirt i fun hm => hi (mem_dirtyOf.mp hm).1
      obtain ⟨d, t, he⟩ := hw.cleaned
      have := hcoh.clean i
      simp only [he] at this hclean ⊢
      rw [← this hd (by simp) (by rw [hclean]; simpa using hi), hdata]
  · refine hcoh.absent dev b hd fun i hi hb => h ⟨i, ?_⟩
    obtain ⟨d, t, he⟩ := hw.cleaned
    rw [he] at hi hb
    exact ⟨hi, hb⟩

/-! ## Binding a buffer to another block -/

theorem Taken.coh {t : Cache n α} (ht : Taken c i t) (hc : Coh c mem none) : Coh t mem none := by
  have hdata : ∀ j, c.bDev j ≠ noDev → t.bData j = c.bData j := by
    intro j hj
    rcases ht.data j with h | ⟨rfl, h⟩
    · exact h
    · exact absurd (hc.bytes j hj) (Nat.not_le_of_lt h)
  constructor
  · rw [ht.dev, ht.blocknr]
    exact hc.uniq
  · rw [ht.dev, ht.blocknr]
    exact fun j hj hf => (hdata j hj).trans (hc.data j hj hf)
  · rw [ht.dev, ht.blocknr, ht.dirt, ht.disk]
    exact fun j hj hf hd => (hdata j hj).trans (hc.clean j hj hf hd)
  · rw [ht.dev, ht.blocknr, ht.disk]
    exact hc.absent
  · rw [ht.dev, ht.size]
    intro j hj
    rcases eq_or_ne j i with rfl | hne
    · exact ht.memory
    · rw [ht.bytes j hne]
      exact hc.bytes j hj

/-- A block that is about to be thrown out of the cache has been written back. -/
theorem evict_coh (hc : Coh c mem none) (i : Fin n) :
    Coh (c.evict i) mem none ∧ (c.bDev i ≠ noDev → (c.evict i).bDirt i = false) := by
  unfold evict
  split
  · next h =>
    refine ⟨flushall_coh hc h.1, fun _ => ?_⟩
    exact (flushall_wrote _ fun j k hj => hc.uniq j k (hj ▸ h.1)).clean i (mem_dirtyOf.mpr ⟨h.2, rfl⟩)
  · next h =>
    refine ⟨hc, fun hi => ?_⟩
    simpa using fun hd => h ⟨hi, hd⟩

/-- Without the clean buffer `i`, the device has the content of every block that is not in the cache. -/
theorem Coh.absent_except (hc : Coh c mem none) (hi : c.bDev i ≠ noDev → c.bDirt i = false) {d b : Nat} (hd : d ≠ noDev)
    (h : ∀ j, j ≠ i → c.bDev j = d → c.bBlocknr j ≠ b) : c.disk d b = mem d b := by
  by_cases hb : c.bDev i = d ∧ c.bBlocknr i = b
  · obtain ⟨rfl, rfl⟩ := hb
    rw [← hc.clean i hd (by simp) (hi hd), hc.data i hd (by simp)]
  · refine hc.absent d b hd fun j hj hjb => ?_
    rcases eq_or_ne j i with rfl | hne
    · exact hb ⟨hj, hjb⟩
    · exact h j hne hj hjb

/-- `c'` is `c` with buffer `i` bound to another block, or to none. -/
structure Rebound (c : Cache n α) (i : Fin n) (c' : Cache n α) : Prop where
  blocknr : ∀ j, j ≠ i → c'.bBlocknr j = c.bBlocknr j
  dev : ∀ j, j ≠ i → c'.bDev j = c.bDev j
  dirt : ∀ j, j ≠ i → c'.bDirt j = c.bDirt j
  data : ∀ j, j ≠ i → c'.bData j = c.bData j
  bytes : c'.bBytes = c.bBytes
  size : c'.fsBlockSize = c.fsBlockSize
  disk : c'.disk = c.disk

/-- No two buffers are bound to the same block. -/
def Uniq (c : Cache n α) : Prop := ∀ i j, c.bDev i ≠ noDev → c.bDev i = c.bDev j → c.bBlocknr i = c.bBlocknr j → i = j

theorem uniq_congr (hu : Uniq c) (hdev : c'.bDev = c.bDev) (hblk : c'.bBlocknr = c.bBlocknr) : Uniq c' := by
  unfold Uniq
  rw [hdev, hblk]
  exact hu

theorem Rebound.uniq (h : Rebound c i c') (hu : Uniq c)
    (hnew : c'.bDev i ≠ noDev → ∀ j, j ≠ i → c.bDev j = c'.bDev i → c.bBlocknr j ≠ c'.bBlocknr i) : Uniq c' := by
  intro j k hj hjk hbk
  rcases eq_or_ne j i with rfl | hji <;> rcases eq_or_ne k j with rfl | hkj
  · rfl
  · rw [h.dev k hkj] at hjk
    rw [h.blocknr k hkj] at hbk
    exact absurd hbk.symm (hnew hj k hkj hjk.symm)
  · rfl
  · rw [h.dev j hji] at hj hjk
    rw [h.blocknr j hji] at hbk
    rcases eq_or_ne k i with rfl | hki
    · exact absurd hbk (hnew (hjk ▸ hj) j hji hjk)
    · rw [h.dev k hki] at hjk
      rw [h.blocknr k hki] at hbk
      exact hu j k hj hjk hbk

/-- A buffer may be bound to a block that is not in the cache, with the content of the block or as a fresh buffer. -/
theorem Rebound.coh (h : Rebound c i c') (hc : Coh c mem none) (hi : c.bDev i ≠ noDev → c.bDirt i = false)
    (hb : c.fsBlockSize ≤ c.bBytes i)
    (hnew : c'.bDev i ≠ noDev → ∀ j, j ≠ i → c.bDev j = c'.bDev i → c.bBlocknr j ≠ c'.bBlocknr i)
    (hf : ∀ j, fresh = some j → j = i)
    (hval : c'.bDev i ≠ noDev → fresh = none → c'.bData i = c.disk (c'.bDev i) (c'.bBlocknr i)) :
    Coh c' mem fresh := by
  have hval' : c'.bDev i ≠ noDev → fresh ≠ some i → c'.bData i = c.disk (c'.bDev i) (c'.bBlocknr i) := by
    intro hd hfi
    refine hval hd (eq_none_iff_forall_ne_some.mpr fun j hj => hfi ?_)
    rw [hj, hf j hj]
  refine ⟨h.uniq hc.uniq hnew, ?_, ?_, ?_, ?_⟩
  · intro j hj hfj
    rcases eq_or_ne j i with rfl | hji
    · rw [hval' hj hfj]
      exact hc.absent_except hi hj (hnew hj)
    · rw [h.data j hji, h.dev j hji, h.blocknr j hji]
      exact hc.data j (h.dev j hji ▸ hj) (by simp)
  · intro j hj hfj hdj
    rcases eq_or_ne j i with rfl | hji
    · rw [hval' hj hfj, h.disk]
    · rw [h.data j hji, h.dev j hji, h.blocknr j hji, h.disk]
      exact hc.clean j (h.dev j hji ▸ hj) (by simp) (h.dirt j hji ▸ hdj)
  · intro d b hd hab
    rw [h.disk]
    refine hc.absent_except hi hd fun j hji hj => ?_
    rw [← h.blocknr j hji]
    exact hab j (by rw [h.dev j hji]; exact hj)
  · intro j hj
    rw [h.size, h.bytes]
    rcases eq_or_ne j i with rfl | hji
    · exact hb
    · exact hc.bytes j (h.dev j hji ▸ hj)

theorem claim_rebound (c : Cache n α) (i : Fin n) (dev block : Nat) : Rebound c i (c.claim i dev block) where
  blocknr _ hj := update_of_ne hj _ _
  dev _ hj := update_of_ne hj _ _
  dirt _ _ := rfl
  data _ _ := rfl
  bytes := rfl
  size := rfl
  disk := rfl

theorem Rebound.trans {c'' : Cache n α} (h : Rebound c i c') (h' : Rebound c' i c'') : Rebound c i c'' where
  blocknr j hj := (h'.blocknr j hj).trans (h.blocknr j hj)
  dev j hj := (h'.dev j hj).trans (h.dev j hj)
  dirt j hj := (h'.dirt j hj).trans (h.dirt j hj)
  data j hj := (h'.data j hj).trans (h.data j hj)
  bytes := h'.bytes.trans h.bytes
  size := h'.size.trans h.size
  disk := h'.disk.trans h.disk

theorem fill_rebound (c : Cache n α) (i : Fin n) (dev : Nat) (onlySearch : OnlySearch) :
    Rebound c i (c.fill i dev onlySearch) := by
  have hrefl : Rebound c i c :=
    ⟨fun _ _ => rfl, fun _ _ => rfl, fun _ _ => rfl, fun _ _ => rfl, rfl, rfl, rfl⟩
  unfold fill
  split
  · exact hrefl
  · cases onlySearch with
    | prefetch => exact { hrefl with dev := fun _ hj => update_of_ne hj _ _ }
    | noRead => exact hrefl
    | normal =>
      show Rebound c i (c.rwBlock i .reading)
      by_cases hi : c.bDev i = noDev
      · rw [rwBlock, if_pos hi]
        exact { hrefl with dirt := fun _ hj => update_of_ne hj _ _ }
      · rw [rwBlock, if_neg hi]
        exact { hrefl with
          dirt := fun _ hj => update_of_ne hj _ _
          data := fun _ hj => update_of_ne hj _ _ }

theorem fill_self (c : Cache n α) (i : Fin n) (dev block : Nat) (onlySearch : OnlySearch) :
    let c' := (c.claim i dev block).fill i dev onlySearch
    c'.bBlocknr i = block ∧ (c'.bDev i = noDev ∨ c'.bDev i = dev ∧ onlySearch ≠ .prefetch) ∧
      (dev ≠ noDev → onlySearch ≠ .prefetch → c'.bDev i = dev) ∧
      (dev ≠ noDev → onlySearch = .normal → c'.bData i = c.disk dev block) := by
  unfold fill
  by_cases hd : dev = noDev
  · simp [hd, claim]
  · cases onlySearch <;> simp [hd, claim, rwBlock]

/-- What a caller of `get_block` gets: buffer `i` is in use and bound to the block, or to no device if it was
prefetched, and nothing has happened to the other buffers that concerns their users. -/
structure Got (c : Cache n α) (mem : Nat → Nat → α) (dev block : Nat) (fresh : Option (Fin n)) (i : Fin n)
    (c' : Cache n α) : Prop where
  wf : c'.Wf
  coh : Coh c' mem fresh
  used : c'.bCount i ≠ 0
  memory : c'.fsBlockSize ≤ c'.bBytes i
  blocknr : c'.bBlocknr i = block
  dev : c'.bDev i = noDev ∨ c'.bDev i = dev
  size : c'.fsBlockSize = c.fsBlockSize
  others : ∀ j, j ≠ i → c'.bCount j = c.bCount j ∧ c'.bDev j = c.bDev j ∧ c'.bBlocknr j = c.bBlocknr j ∧
    c'.bBytes j = c.bBytes j

theorem evict_frame {t : Cache n α} (ht : Taken c i t) :
    (t.evict i).bDev = c.bDev ∧ (t.evict i).bBlocknr = c.bBlocknr ∧ (t.evict i).bBytes = t.bBytes ∧
      (t.evict i).fsBlockSize = c.fsBlockSize ∧ (t.evict i).bCount = c.bCount := by
  obtain ⟨d, u, he⟩ := evict_cleaned t i
  rw [he]
  exact ⟨ht.dev, ht.blocknr, rfl, ht.size, ht.count⟩

theorem fill_count (c : Cache n α) (i : Fin n) (dev : Nat) (onlySearch : OnlySearch) :
    (c.fill i dev onlySearch).bCount = c.bCount := by
  unfold fill rwBlock
  split
  · rfl
  · cases onlySearch <;> first | rfl | (dsimp only; split <;> rfl)

theorem miss_got {onlySearch : OnlySearch} {contig : Option α} (hw : c.Wf) (hc : Coh c mem none)
    (hnew : dev ≠ noDev → ∀ j, c.bDev j = dev → c.bBlocknr j ≠ block)
    (hm : c.miss dev block onlySearch contig = some (i, c')) :
    Got c mem dev block (if dev ≠ noDev ∧ onlySearch = .noRead then some i else none) i c' ∧
      (dev ≠ noDev → onlySearch = .normal → c'.bDev i = dev) := by
  obtain ⟨t, ht, rfl⟩ := miss_taken hw hm
  have htc := ht.coh hc
  obtain ⟨hec, hclean⟩ := evict_coh htc i
  obtain ⟨hdev, hblk, hbytes, hsize, hcount⟩ := evict_frame ht
  have hb : (t.evict i).fsBlockSize ≤ (t.evict i).bBytes i := by
    rw [hsize, hbytes]
    exact ht.memory
  have hi : (t.evict i).bDev i ≠ noDev → (t.evict i).bDirt i = false := by
    rw [hdev, ← ht.dev]
    exact hclean
  have hwf := fill_wf (claim_wf hw ht (evict_cleaned t i) dev block) i dev onlySearch
  have hreb := (claim_rebound (t.evict i) i dev block).trans (fill_rebound _ i dev onlySearch)
  have hcount' : (((t.evict i).claim i dev block).fill i dev onlySearch).bCount = update c.bCount i 1 := by
    rw [fill_count]
    simp [claim, hcount, ht.free]
  obtain ⟨hs1, hs2, hs3, hs4⟩ := fill_self (t.evict i) i dev block onlySearch
  generalize ((t.evict i).claim i dev block).fill i dev onlySearch = c' at hwf hreb hcount' hs1 hs2 hs3 hs4 ⊢
  have hcoh : Coh c' mem (if dev ≠ noDev ∧ onlySearch = .noRead then some i else none) := by
    refine hreb.coh hec hi hb ?_ ?_ ?_
    · intro hd j hji hj
      obtain hd' := (hs2.resolve_left hd).1
      rw [hs1, hblk]
      rw [hdev, hd'] at hj
      exact hnew (hd' ▸ hd) j hj
    · intro j hj
      split at hj
      · exact (some_inj.mp hj).symm
      · cases hj
    · intro hd hf
      obtain ⟨hd', hp⟩ := hs2.resolve_left hd
      have hdn : dev ≠ noDev := hd' ▸ hd
      rw [hd', hs1]
      cases onlySearch with
      | normal => exact hs4 hdn rfl
      | noRead => simp [hdn] at hf
      | prefetch => exact absurd rfl hp
  refine ⟨⟨hwf, hcoh, ?_, ?_, hs1, hs2.imp_right And.left, hreb.size.trans hsize, ?_⟩, ?_⟩
  · simp [hcount']
  · rw [hreb.size, hreb.bytes]
    exact hb
  · intro j hj
    refine ⟨by simp [hcount', hj], (hreb.dev j hj).trans (by rw [hdev]), (hreb.blocknr j hj).trans (by rw [hblk]), ?_⟩
    rw [hreb.bytes, hbytes]
    exact ht.bytes j hj
  · exact fun hd hn => hs3 hd (by rw [hn]; decide)

theorem hit_got (hw : c.Wf) (hc : Coh c mem none) (hd : c.bDev i = dev) (hb : c.bBlocknr i = block) (hn : dev ≠ noDev)
    (hcount : c.bCount i < 255) : Got c mem dev block none i (c.hit i) := by
  have hs := hit_content c i
  refine ⟨hit_wf hw hcount, hs.coh hc, ?_, ?_, by rw [hs.blocknr, hb], .inr (by rw [hs.dev, hd]), hs.size, ?_⟩
  · rw [hit_count, update_self]
    omega
  · rw [hs.size, hs.bytes]
    exact hc.bytes i (hd ▸ hn)
  · intro j hj
    rw [hit_count, update_of_ne hj, hs.dev, hs.blocknr, hs.bytes]
    exact ⟨rfl, rfl, rfl, rfl⟩

/-- The buffer that `get_block` returns without its content, if any. -/
def freshBuf (c : Cache n α) (dev block : Nat) (onlySearch : OnlySearch) (i : Fin n) : Option (Fin n) :=
  if dev ≠ noDev ∧ onlySearch = .noRead ∧ c.searchHash dev block = some none then some i else none

theorem getBlock_got {onlySearch : OnlySearch} {contig : Option α} (hw : c.Wf) (hc : Coh c mem none)
    (hcount : ∀ j, c.bDev j = dev → c.bBlocknr j = block → c.bCount j < 255)
    (hg : c.getBlock dev block onlySearch contig = some (i, c')) :
    Got c mem dev block (c.freshBuf dev block onlySearch i) i c' := by
  unfold getBlock at hg
  unfold freshBuf
  split at hg
  · next hd =>
    have := (miss_got hw hc (fun h => absurd hd h) hg).1
    simpa [hd] using this
  · next hd =>
    obtain ⟨r, hr, hfound, hnone⟩ := searchHash_spec hw.hash i dev block
    rw [hr, bind_eq_bind, bind_some] at hg
    cases r with
    | some j =>
      cases hg
      obtain ⟨hjd, hjb⟩ := hfound i rfl
      simpa [hr] using hit_got hw hc hjd hjb hd (hcount i hjd hjb)
    | none =>
      have := (miss_got hw hc (fun _ => hnone rfl) hg).1
      simpa [hr] using this

/-- A block that is read through the cache has the content of the memory that the cache stands for. -/
theorem getBlock_normal {contig : Option α} (hw : c.Wf) (hc : Coh c mem none) (hd : dev ≠ noDev)
    (hg : c.getBlock dev block .normal contig = some (i, c')) :
    c'.bDev i = dev ∧ c'.bBlocknr i = block ∧ c'.bData i = mem dev block := by
  obtain ⟨r, hr, hfound, hnone⟩ := searchHash_spec hw.hash i dev block
  rw [getBlock, if_neg hd, hr, bind_eq_bind, bind_some] at hg
  cases r with
  | some j =>
    cases hg
    obtain ⟨rfl, rfl⟩ := hfound i rfl
    have hs := hit_content c i
    rw [hs.dev, hs.blocknr, hs.data]
    exact ⟨rfl, rfl, hc.data i hd (by simp)⟩
  | none =>
    obtain ⟨hgot, hdev⟩ := miss_got hw hc (fun _ => hnone rfl) hg
    have hdi := hdev hd rfl
    have hdata := hgot.coh.data i (hdi ▸ hd) (by simp)
    rw [hdi, hgot.blocknr] at hdata
    exact ⟨hdi, hgot.blocknr, hdata⟩

/-- With a buffer that is not in use and memory, `get_block` returns a buffer. -/
theorem getBlock_isSome (hw : c.Wf) (hi : c.bCount i = 0) (dev block : Nat) (onlySearch : OnlySearch) (x : α) :
    (c.getBlock dev block onlySearch (some x)).isSome = true := by
  unfold getBlock
  split
  · exact miss_isSome hw hi
  · obtain ⟨r, hr, -⟩ := searchHash_spec hw.hash i dev block
    rw [hr, bind_eq_bind, bind_some]
    cases r with
    | some j => rfl
    | none => exact miss_isSome hw hi

/-! ## Releasing blocks -/

theorem relink_content (c : Cache n α) (i : Fin n) (blockType : Nat) :
    SameContent c ((c.dropUse i).relink i blockType) := by
  unfold relink
  dsimp only
  split <;> exact ⟨rfl, rfl, rfl, rfl, rfl, rfl, rfl⟩

theorem rwBlock_wrote (hi : c.bDev i ≠ noDev) : Wrote (c.bDev i) [i] c (c.rwBlock i .writing) := by
  rw [rwBlock, if_neg hi]
  refine ⟨⟨_, _, rfl⟩, ?_, ?_, ?_, ?_⟩
  · intro j hj
    obtain rfl := mem_singleton.mp hj
    simp [setDisk]
  · intro d b h
    simp only [setDisk, update_apply]
    split
    · next hd => rw [update_of_ne (Ne.symm (h hd i (mem_singleton.mpr rfl))), hd]
    · rfl
  · intro j hj
    obtain rfl := mem_singleton.mp hj
    exact update_self ..
  · intro j hj
    exact update_of_ne (fun e => hj (mem_singleton.mpr e)) _ _

theorem putBlock_content (c : Cache n α) (i : Fin n) (blockType : Nat) :
    SameContent c (c.putBlock i blockType) ∨
      ∃ t, SameContent c t ∧ c.bDev i ≠ noDev ∧ blockType &&& writeImmed ≠ 0 ∧
      Wrote (c.bDev i) [i] t (c.putBlock i blockType) := by
  unfold putBlock
  dsimp only
  split
  · exact .inl ⟨rfl, rfl, rfl, rfl, rfl, rfl, rfl⟩
  · have hs := relink_content c i blockType
    split
    · next h =>
      rw [hs.dev] at h
      refine .inr ⟨_, hs, h.2.2, h.1, ?_⟩
      rw [← hs.dev]
      exact rwBlock_wrote (by rw [hs.dev]; exact h.2.2)
    · exact .inl hs

theorem putBlock_count (c : Cache n α) (i : Fin n) (blockType : Nat) :
    (c.putBlock i blockType).bCount = (c.dropUse i).bCount := by
  have hr : ((c.dropUse i).relink i blockType).bCount = (c.dropUse i).bCount := by
    unfold relink
    dsimp only
    split <;> rfl
  unfold putBlock
  dsimp only
  split
  · rfl
  · split
    · obtain ⟨d, t, he⟩ := rwBlock_cleaned ((c.dropUse i).relink i blockType) i
      rw [he]
      exact hr
    · exact hr

theorem putBlock_frame (c : Cache n α) (i : Fin n) (blockType : Nat) :
    (c.putBlock i blockType).bDev = c.bDev ∧ (c.putBlock i blockType).bBlocknr = c.bBlocknr ∧
      (c.putBlock i blockType).bData = c.bData ∧ (c.putBlock i blockType).bBytes = c.bBytes ∧
      (c.putBlock i blockType).fsBlockSize = c.fsBlockSize := by
  rcases putBlock_content c i blockType with h | ⟨t, h, -, -, hw⟩
  · exact ⟨h.dev, h.blocknr, h.data, h.bytes, h.size⟩
  · obtain ⟨d, u, he⟩ := hw.cleaned
    rw [he]
    exact ⟨h.dev, h.blocknr, h.data, h.bytes, h.size⟩

theorem putBlock_coh (hc : Coh c mem none) (i : Fin n) (blockType : Nat) : Coh (c.putBlock i blockType) mem none := by
  rcases putBlock_content c i blockType with h | ⟨t, h, -, -, hw⟩
  · exact h.coh hc
  · refine hw.coh (fun j hj => ?_) (h.coh hc)
    rw [h.dev, mem_singleton.mp hj]

/-! ## Reading prefetched blocks -/

/-- A vectored read fills every buffer of a run. -/
theorem gather_spec (dev : Nat) : ∀ {q : List (Fin n)} {b : Nat} {c : Cache n α}, RunOf c.bBlocknr b q →
    ∃ d, gather dev b q c = { c with bData := d } ∧ (∀ i ∈ q, d i = c.disk dev (c.bBlocknr i)) ∧
      ∀ i, i ∉ q → d i = c.bData i
  | [], _, c, _ => ⟨c.bData, rfl, by simp, fun _ _ => rfl⟩
  | k :: q, b, c, h => by
    obtain ⟨rfl, hq⟩ := h
    obtain ⟨d, hd, h1, h2⟩ := gather_spec dev
      (c := { c with bData := update c.bData k (c.disk dev (c.bBlocknr k)) }) hq
    exact ⟨d, hd, set_cons (v := fun i => c.disk dev (c.bBlocknr i)) h1 h2⟩

/-- A read of a sorted queue fills and validates the buffers of its first run, and releases the others. -/
theorem readRun_split (c : Cache n α) (dev : Nat) (k : Fin n) (q : List (Fin n)) :
    ∃ t r d, k :: q = t ++ r ∧ c.readRun dev (k :: q) = ({ c with bData := d }.validate dev t).release r ∧
      (∀ i ∈ t, d i = c.disk dev (c.bBlocknr i)) ∧ ∀ i, i ∉ t → d i = c.bData i := by
  have hrun := runOf_take c (c.bBlocknr k) 0 (k :: q)
  rw [Nat.add_zero] at hrun
  obtain ⟨d, hg, hd1, hd2⟩ := gather_spec dev hrun
  refine ⟨_, _, d, (take_append_drop _ _).symm, ?_, hd1, hd2⟩
  unfold readRun
  dsimp only
  rw [hg]

/-- The queue `q` holds prefetched buffers in use, of different blocks of `dev` that are not in the cache. -/
structure Prefetched (c : Cache n α) (dev : Nat) (q : List (Fin n)) : Prop where
  nodup : q.Nodup
  used : ∀ i ∈ q, c.bCount i ≠ 0
  unbound : ∀ i ∈ q, c.bDev i = noDev
  absent : ∀ i ∈ q, ∀ j, c.bDev j = dev → c.bBlocknr j ≠ c.bBlocknr i
  distinct : ∀ i ∈ q, ∀ j ∈ q, c.bBlocknr i = c.bBlocknr j → i = j

instance (c : Cache n α) (dev : Nat) (q : List (Fin n)) : Decidable (Prefetched c dev q) :=
  decidable_of_iff (q.Nodup ∧ ∀ i ∈ q, (c.bCount i ≠ 0 ∧ c.bDev i = noDev) ∧
      (∀ j, c.bDev j = dev → c.bBlocknr j ≠ c.bBlocknr i) ∧ ∀ j ∈ q, c.bBlocknr i = c.bBlocknr j → i = j)
    ⟨fun ⟨h1, h2⟩ => ⟨h1, fun i hi => (h2 i hi).1.1, fun i hi => (h2 i hi).1.2, fun i hi => (h2 i hi).2.1,
      fun i hi => (h2 i hi).2.2⟩,
    fun h => ⟨h.nodup, fun i hi => ⟨⟨h.used i hi, h.unbound i hi⟩, h.absent i hi, h.distinct i hi⟩⟩⟩

theorem Prefetched.subset {q' : List (Fin n)} (h : Prefetched c dev q) (hn : q'.Nodup) (hs : q' ⊆ q) :
    Prefetched c dev q' :=
  ⟨hn, fun i hi => h.used i (hs hi), fun i hi => h.unbound i (hs hi), fun i hi => h.absent i (hs hi),
    fun i hi j hj => h.distinct i (hs hi) j (hs hj)⟩

/-- What the users of the other buffers see when buffers of `q` are released, some of them bound to `dev`. -/
structure Released (c : Cache n α) (dev : Nat) (q : List (Fin n)) (c' : Cache n α) : Prop where
  blocknr : c'.bBlocknr = c.bBlocknr
  bytes : c'.bBytes = c.bBytes
  size : c'.fsBlockSize = c.fsBlockSize
  count : ∀ j, c'.bCount j ≠ 0 → c.bCount j ≠ 0
  dev : ∀ j, c'.bDev j = c.bDev j ∨ j ∈ q ∧ c'.bDev j = dev

theorem Released.refl (c : Cache n α) (dev : Nat) (q : List (Fin n)) : Released c dev q c :=
  ⟨rfl, rfl, rfl, fun _ h => h, fun _ => .inl rfl⟩

theorem Released.trans {c'' : Cache n α} (h : Released c dev q c') (h' : Released c' dev q c'') :
    Released c dev q c'' := by
  refine ⟨h'.blocknr.trans h.blocknr, h'.bytes.trans h.bytes, h'.size.trans h.size, ?_, ?_⟩
  · exact fun j hj => h.count j (h'.count j hj)
  · intro j
    rcases h'.dev j with hj | hj
    · rw [hj]
      exact h.dev j
    · exact .inr hj

theorem putBlock_released (hi : c.bCount i ≠ 0) (blockType : Nat) : Released c dev q (c.putBlock i blockType) := by
  obtain ⟨h1, h2, -, h4, h5⟩ := putBlock_frame c i blockType
  refine ⟨h2, h4, h5, fun j hj => ?_, fun j => .inl (by rw [h1])⟩
  rw [putBlock_count] at hj
  rcases eq_or_ne j i with rfl | hne
  · exact hi
  · simpa [dropUse, hne] using hj

theorem release_spec (dev : Nat) {r : List (Fin n)} : ∀ {q : List (Fin n)} {c : Cache n α}, c.Wf → Uniq c → q.Nodup →
    (∀ i ∈ q, c.bCount i ≠ 0) → (c.release q).Wf ∧ Uniq (c.release q) ∧ Released c dev r (c.release q) ∧
      ∀ mem, Coh c mem none → Coh (c.release q) mem none
  | [], c, hw, hu, _, _ => ⟨hw, hu, .refl c dev r, fun _ => id⟩
  | i :: q, c, hw, hu, hnd, hused => by
    have hi := hused i mem_cons_self
    obtain ⟨hiq, hnd⟩ := nodup_cons.mp hnd
    obtain ⟨hdev, hblk, -⟩ := putBlock_frame c i partialDataBlock
    obtain ⟨h1, h2, h3, h4⟩ := release_spec dev (putBlock_wf hw hi partialDataBlock) (uniq_congr hu hdev hblk) hnd
      fun j hj => by
      simpa [putBlock_count, dropUse, ne_of_mem_of_not_mem hj hiq] using hused j (mem_cons_of_mem _ hj)
    exact ⟨h1, h2, (putBlock_released hi _).trans h3, fun mem hc => h4 mem (putBlock_coh hc i _)⟩

theorem Prefetched.tail (hp : Prefetched c dev (i :: q)) :
    Prefetched ({ c with bDev := update c.bDev i dev }.putBlock i partialDataBlock) dev q := by
  obtain ⟨hiq, hnd⟩ := nodup_cons.mp hp.nodup
  have hne : ∀ j ∈ q, j ≠ i := fun j hj => ne_of_mem_of_not_mem hj hiq
  obtain ⟨hdev, hblk, -⟩ := putBlock_frame { c with bDev := update c.bDev i dev } i partialDataBlock
  refine ⟨hnd, fun j hj => ?_, fun j hj => ?_, fun j hj k hk => ?_, fun j hj k hk => ?_⟩
  · simpa [putBlock_count, dropUse, hne j hj] using hp.used j (mem_cons_of_mem _ hj)
  · simpa [hdev, hne j hj] using hp.unbound j (mem_cons_of_mem _ hj)
  · rw [hblk]
    rcases eq_or_ne k i with rfl | hki
    · exact fun e => hne j hj (hp.distinct k mem_cons_self j (mem_cons_of_mem _ hj) e).symm
    · exact hp.absent j (mem_cons_of_mem _ hj) k (by simpa [hdev, hki] using hk)
  · rw [hblk]
    exact hp.distinct j (mem_cons_of_mem _ hj) k (mem_cons_of_mem _ hk)

theorem validate_spec {r : List (Fin n)} : ∀ {q : List (Fin n)} {c : Cache n α}, c.Wf → Uniq c → Prefetched c dev q →
    (∀ i ∈ q, i ∈ r) → (c.validate dev q).Wf ∧ Uniq (c.validate dev q) ∧ Released c dev r (c.validate dev q) ∧
      (∀ j, j ∉ q → (c.validate dev q).bCount j = c.bCount j) ∧
      ∀ mem, Coh c mem none → (∀ i ∈ q, c.fsBlockSize ≤ c.bBytes i) → (∀ i ∈ q, c.bData i = c.disk dev (c.bBlocknr i)) →
        Coh (c.validate dev q) mem none
  | [], c, hw, hu, _, _ => ⟨hw, hu, .refl c dev r, fun _ _ => rfl, fun _ hc _ _ => hc⟩
  | i :: q, c, hw, hu, hp, hr => by
    have himem := mem_cons_self (a := i) (l := q)
    have hne : ∀ j ∈ q, j ≠ i := fun j hj => ne_of_mem_of_not_mem hj (nodup_cons.mp hp.nodup).1
    -- the buffer is bound to its block
    obtain ⟨v, hv⟩ : ∃ v, v = { c with bDev := update c.bDev i dev } := ⟨_, rfl⟩
    have hvi : v.bDev i = dev := by simp [hv]
    have hreb : Rebound c i v := by
      rw [hv]
      exact ⟨fun _ _ => rfl, fun _ hj => update_of_ne hj _ _, fun _ _ => rfl, fun _ _ => rfl, rfl, rfl, rfl⟩
    have hvw : v.Wf := by
      rw [hv]
      exact ⟨hw.hash, hw.lru, hw.count⟩
    have hblk : v.bBlocknr = c.bBlocknr := by rw [hv]
    have hvcount : v.bCount = c.bCount := by rw [hv]
    have hnew : v.bDev i ≠ noDev → ∀ j, j ≠ i → c.bDev j = v.bDev i → c.bBlocknr j ≠ v.bBlocknr i := by
      rw [hvi, hblk]
      exact fun _ j _ => hp.absent i himem j
    have hvu : v.bCount i ≠ 0 := hvcount ▸ hp.used i himem
    have hvr : Released c dev r v := by
      refine ⟨hblk, hreb.bytes, hreb.size, fun j hj => hvcount ▸ hj, fun j => ?_⟩
      rcases eq_or_ne j i with rfl | hj
      · exact .inr ⟨hr j himem, hvi⟩
      · exact .inl (hreb.dev j hj)
    -- and released, without being written
    have hs : SameContent v (v.putBlock i partialDataBlock) := by
      rcases putBlock_content v i partialDataBlock with h | ⟨t, -, -, h, -⟩
      · exact h
      · exact absurd rfl h
    obtain ⟨h1, h2, h3, h4, h5⟩ := validate_spec (putBlock_wf hvw hvu partialDataBlock)
      (uniq_congr (hreb.uniq hu hnew) hs.dev hs.blocknr) (hv ▸ hp.tail) fun j hj => hr j (mem_cons_of_mem _ hj)
    have hstep : c.validate dev (i :: q) = (v.putBlock i partialDataBlock).validate dev q := by
      rw [hv]
      rfl
    rw [hstep]
    refine ⟨h1, h2, (hvr.trans (putBlock_released hvu _)).trans h3, fun j hj => ?_, fun mem hc hb hdata => ?_⟩
    · rw [mem_cons, not_or] at hj
      rw [h4 j hj.2, putBlock_count]
      simp [dropUse, hj.1, hvcount]
    · refine h5 mem (hs.coh ?_) ?_ fun j hj => ?_
      · refine hreb.coh hc (fun h => absurd (hp.unbound i himem) h) (hb i himem) hnew (by simp) fun _ _ => ?_
        rw [hvi, hblk]
        simpa [hv] using hdata i himem
      · rw [hs.size, hs.bytes, hreb.size, hreb.bytes]
        exact fun j hj => hb j (mem_cons_of_mem _ hj)
      · rw [hs.data, hs.disk, hs.blocknr, hreb.disk, hblk, hreb.data j (hne j hj)]
        exact hdata j (mem_cons_of_mem _ hj)

theorem rwScattered_reading (hw : c.Wf) (hu : Uniq c) (hp : Prefetched c dev q) :
    (c.rwScattered dev q .reading).Wf ∧ Uniq (c.rwScattered dev q .reading) ∧
      Released c dev q (c.rwScattered dev q .reading) ∧
      ∀ mem, Coh c mem none → (∀ i ∈ q, c.fsBlockSize ≤ c.bBytes i) → Coh (c.rwScattered dev q .reading) mem none := by
  have hperm := shellSort_perm c.bBlocknr q
  generalize hs : shellSort c.bBlocknr q = s at hperm
  simp only [rwScattered, hs]
  cases s with
  | nil => exact ⟨hw, hu, .refl c dev q, fun _ hc _ => hc⟩
  | cons k s =>
    obtain ⟨t, r, d, hq, he, hd1, hd2⟩ := c.readRun_split dev k s
    rw [he]
    rw [hq] at hperm
    have hnd : (t ++ r).Nodup := hperm.nodup_iff.mpr hp.nodup
    have hmem : t ⊆ q := fun i hi => hperm.mem_iff.mp (mem_append_left r hi)
    have hpt := hp.subset hnd.of_append_left hmem
    have hp' : Prefetched { c with bData := d } dev t := { hpt with }
    obtain ⟨h1, h2, h3, h4, h5⟩ := validate_spec (c := { c with bData := d }) ⟨hw.hash, hw.lru, hw.count⟩ hu hp' hmem
    obtain ⟨h6, h7, h8, h9⟩ := release_spec dev h1 h2 hnd.of_append_right fun i hi => by
      rw [h4 i fun hm => (disjoint_of_nodup_append hnd hm hi)]
      exact hp.used i (hperm.mem_iff.mp (mem_append_right t hi))
    refine ⟨h6, h7, Released.trans ⟨h3.blocknr, h3.bytes, h3.size, h3.count, h3.dev⟩ h8, fun mem hc hb => ?_⟩
    refine h9 mem (h5 mem ?_ (fun i hi => hb i (hmem hi)) hd1)
    have hval : ∀ i, c.bDev i ≠ noDev → d i = c.bData i := fun i hi => hd2 i fun hm => hi (hpt.unbound i hm)
    exact ⟨hc.uniq, fun i hi hf => (hval i hi).trans (hc.data i hi hf),
      fun i hi hf hcl => (hval i hi).trans (hc.clean i hi hf hcl), hc.absent, hc.bytes⟩

/-! ## Storing and invalidating -/

/-- A memory of blocks after a store. -/
def setMem (mem : Nat → Nat → α) (dev b : Nat) (x : α) : Nat → Nat → α :=
  update mem dev (update (mem dev) b x)

theorem setMem_of_ne {mem : Nat → Nat → α} {d b dev block : Nat} (x : α) (h : d = dev → b ≠ block) :
    setMem mem dev block x d b = mem d b := by
  simp only [setMem, update_apply]
  split
  · next hd => rw [update_of_ne (h hd), hd]
  · rfl

/-- A user of a buffer overwrites its content and marks it dirty. -/
def store (c : Cache n α) (i : Fin n) (x : α) : Cache n α :=
  { c with bData := update c.bData i x, bDirt := update c.bDirt i true }

theorem store_coh (hc : Coh c mem fresh) (hf : ∀ j, fresh = some j → j = i) (x : α) :
    Coh (c.store i x) (if c.bDev i = noDev then mem else setMem mem (c.bDev i) (c.bBlocknr i) x) none := by
  have hfj : ∀ j, j ≠ i → fresh ≠ some j := fun j hj h => hj (hf j h)
  constructor
  · exact hc.uniq
  · intro j hj _
    rcases eq_or_ne j i with rfl | hji
    · rw [if_neg (show c.bDev j ≠ noDev from hj)]
      simp [store, setMem]
    · show update c.bData i x j = _
      rw [update_of_ne hji, hc.data j hj (hfj j hji)]
      split
      · rfl
      · exact (setMem_of_ne x fun hd hb => hji (hc.uniq j i hj hd hb)).symm
  · intro j hj _ hclean
    have hji : j ≠ i := by
      rintro rfl
      simp [store] at hclean
    show update c.bData i x j = _
    rw [update_of_ne hji]
    simp only [store, update_of_ne hji] at hclean
    exact hc.clean j hj (hfj j hji) hclean
  · intro d b hd hab
    split
    · exact hc.absent d b hd hab
    · have hne : setMem mem (c.bDev i) (c.bBlocknr i) x d b = mem d b :=
        setMem_of_ne x fun hd' hb => hab i hd'.symm hb.symm
      rw [hne]
      exact hc.absent d b hd hab
  · exact hc.bytes

/-- The blocks of a device leave the cache, and what was not written back with them. -/
theorem invalidate_coh (hc : Coh c mem none) (dev : Nat) :
    Coh (c.invalidate dev) (update mem dev (c.disk dev)) none := by
  have hvalid : ∀ i, (c.invalidate dev).bDev i ≠ noDev → c.bDev i ≠ dev ∧ (c.invalidate dev).bDev i = c.bDev i := by
    intro i hi
    by_cases h : c.bDev i = dev
    · exact absurd (if_pos h) hi
    · exact ⟨h, if_neg h⟩
  constructor
  · intro i j hi hij hb
    have hj := hvalid j (hij ▸ hi)
    have hi' := hvalid i hi
    rw [hi'.2, hj.2] at hij
    exact hc.uniq i j (hi'.2 ▸ hi) hij hb
  · intro i hi _
    have hi' := hvalid i hi
    rw [hi'.2, update_of_ne hi'.1]
    exact hc.data i (hi'.2 ▸ hi) (by simp)
  · intro i hi _ hcl
    have hi' := hvalid i hi
    rw [hi'.2]
    exact hc.clean i (hi'.2 ▸ hi) (by simp) hcl
  · intro d b hd hab
    rcases eq_or_ne d dev with rfl | hne
    · rw [update_self]
      rfl
    · rw [update_of_ne hne]
      refine hc.absent d b hd fun i hi => hab i ?_
      simp [invalidate, hi, hne]
  · intro i hi
    exact hc.bytes i ((hvalid i hi).2 ▸ hi)

end Cache

/-! ## Runs -/

/-- The calls of the cache, and the stores of its users. -/
inductive CacheOp (n : Nat) (α : Type)
  | getBlock (dev block : Nat) (onlySearch : OnlySearch) (contig : Option α)
  | store (i : Fin n) (x : α)
  | putBlock (i : Fin n) (blockType : Nat)
  | rwScattered (dev : Nat) (bufq : List (Fin n)) (rwFlag : RwFlag)
  | flushall (dev : Nat)
  | invalidate (dev : Nat)

/-- The cache with the memory it stands for: `mem` holds what was stored last in every block, `bound` the block that a
buffer was last got for, and `fresh` the buffer that was returned without its content. No function of the cache reads
them. -/
structure Traced (n : Nat) (α : Type) where
  cache : Cache n α
  mem : Nat → Nat → α
  bound : Fin n → Nat × Nat
  fresh : Option (Fin n)

namespace Traced

variable {s s' : Traced n α}

/-- One call. A store through a buffer goes to the block that the buffer was got for, unless the buffer belongs to no
device; `invalidate` drops what was not written back. -/
def step (s : Traced n α) : CacheOp n α → Option (Traced n α)
  | .getBlock dev block onlySearch contig => do
    let (i, c) ← s.cache.getBlock dev block onlySearch contig
    some { s with
      cache := c
      bound := update s.bound i (dev, block)
      fresh := s.cache.freshBuf dev block onlySearch i }
  | .store i x =>
    some { s with
      cache := s.cache.store i x
      mem := if s.cache.bDev i = noDev then s.mem else Cache.setMem s.mem (s.bound i).1 (s.bound i).2 x
      fresh := none }
  | .putBlock i blockType => some { s with cache := s.cache.putBlock i blockType }
  | .rwScattered dev bufq rwFlag => some { s with cache := s.cache.rwScattered dev bufq rwFlag }
  | .flushall dev => some { s with cache := s.cache.flushall dev }
  | .invalidate dev =>
    some { s with cache := s.cache.invalidate dev, mem := update s.mem dev (s.cache.disk dev) }

/-- What the callers of the cache keep to. -/
def CallOk (s : Traced n α) : CacheOp n α → Prop
  | .getBlock dev block _ _ =>
    s.fresh = none ∧ ∀ i, s.cache.bDev i = dev → s.cache.bBlocknr i = block → s.cache.bCount i < 255
  | .store i _ => (s.fresh = none ∨ s.fresh = some i) ∧ s.cache.bCount i ≠ 0
  | .putBlock i _ => s.fresh = none ∧ s.cache.bCount i ≠ 0
  | .rwScattered dev bufq .reading =>
    s.fresh = none ∧ dev ≠ noDev ∧ s.cache.Prefetched dev bufq ∧ ∀ i ∈ bufq, (s.bound i).1 = dev
  | .rwScattered dev bufq .writing => s.fresh = none ∧ dev ≠ noDev ∧ ∀ i ∈ bufq, s.cache.bDev i = dev
  | .flushall dev => s.fresh = none ∧ dev ≠ noDev
  | .invalidate _ => s.fresh = none

instance (s : Traced n α) : ∀ o, Decidable (s.CallOk o)
  | .getBlock .. | .store .. | .putBlock .. | .rwScattered _ _ .reading | .rwScattered _ _ .writing | .flushall _
  | .invalidate _ => by unfold CallOk; infer_instance

/-- The cache as `buf_pool` leaves it, over devices with any content. -/
def initial (disk : Nat → Nat → α) (data : Fin n → α) (fsBlockSize : Nat) : Traced n α where
  cache := .bufPool disk data fsBlockSize
  mem := disk
  bound _ := (noDev, noBlock)
  fresh := none

/-- The invariant of the runs: the cache stands for `mem`, and a buffer in use stays with the block it was got for. -/
structure Inv (s : Traced n α) : Prop where
  wf : s.cache.Wf
  coh : s.cache.Coh s.mem s.fresh
  held : ∀ i, s.cache.bCount i ≠ 0 → s.cache.bBlocknr i = (s.bound i).2 ∧
    (s.cache.bDev i = noDev ∨ s.cache.bDev i = (s.bound i).1)
  memory : ∀ i, s.cache.bCount i ≠ 0 → s.cache.fsBlockSize ≤ s.cache.bBytes i

theorem initial_inv (disk : Nat → Nat → α) (data : Fin n → α) (fsBlockSize : Nat) :
    (initial disk data fsBlockSize).Inv := by
  have hd : ∀ i, (initial disk data fsBlockSize).cache.bDev i = noDev := fun _ => rfl
  refine ⟨Cache.bufPool_wf disk data fsBlockSize, ⟨?_, ?_, ?_, fun _ _ _ _ => rfl, ?_⟩, ?_, ?_⟩
  · exact fun i _ hi => absurd (hd i) hi
  · exact fun i hi => absurd (hd i) hi
  · exact fun i hi => absurd (hd i) hi
  · exact fun i hi => absurd (hd i) hi
  · exact fun i hi => absurd rfl hi
  · exact fun i hi => absurd rfl hi

/-- The invariant after a call that leaves `bound` alone and lets no buffer come into use. -/
theorem Inv.released {q : List (Fin n)} {dev : Nat} {c : Cache n α} (h : s.Inv) (hr : s.cache.Released dev q c)
    (hq : ∀ i ∈ q, (s.bound i).1 = dev) (hw : c.Wf) (hc : c.Coh s.mem s.fresh) : { s with cache := c }.Inv := by
  refine ⟨hw, hc, fun i hi => ?_, fun i hi => ?_⟩
  · obtain ⟨h1, h2⟩ := h.held i (hr.count i hi)
    refine ⟨hr.blocknr ▸ h1, ?_⟩
    rcases hr.dev i with hd | ⟨hiq, hd⟩
    · show c.bDev i = noDev ∨ c.bDev i = _
      rw [hd]
      exact h2
    · exact .inr (hd.trans (hq i hiq).symm)
  · show c.fsBlockSize ≤ c.bBytes i
    rw [hr.size, hr.bytes]
    exact h.memory i (hr.count i hi)

theorem Inv.cleaned {c : Cache n α} (h : s.Inv) (hr : Cache.Cleaned s.cache c) (hc : c.Coh s.mem s.fresh) :
    { s with cache := c }.Inv := by
  have hw := hr.wf h.wf
  obtain ⟨d, t, rfl⟩ := hr
  exact ⟨hw, hc, h.held, h.memory⟩

/-- Every call that keeps to the contract keeps the invariant. -/
theorem step_inv (o : CacheOp n α) (h : s.Inv) (hok : s.CallOk o) (hs : s.step o = some s') : s'.Inv := by
  have hcoh := h.coh
  cases o with
  | getBlock dev block onlySearch contig =>
    rw [hok.1] at hcoh
    obtain ⟨⟨i, c⟩, hg, hs⟩ := bind_eq_some_iff.mp hs
    cases hs
    have hgot := Cache.getBlock_got h.wf hcoh hok.2 hg
    refine ⟨hgot.wf, hgot.coh, fun j hj => ?_, fun j hj => ?_⟩
    · rcases eq_or_ne j i with rfl | hji
      · dsimp only
        rw [update_self]
        exact ⟨hgot.blocknr, hgot.dev⟩
      · obtain ⟨h1, h2, h3, -⟩ := hgot.others j hji
        dsimp only at hj ⊢
        rw [h1] at hj
        rw [update_of_ne hji, h2, h3]
        exact h.held j hj
    · rcases eq_or_ne j i with rfl | hji
      · exact hgot.memory
      · obtain ⟨h1, -, -, h4⟩ := hgot.others j hji
        dsimp only at hj ⊢
        rw [h1] at hj
        rw [hgot.size, h4]
        exact h.memory j hj
  | store i x =>
    cases hs
    have hf : ∀ j, s.fresh = some j → j = i := by
      intro j hj
      rcases hok.1 with hn | hn <;> rw [hn] at hj <;> cases hj
      rfl
    have key := Cache.store_coh hcoh hf x
    refine ⟨⟨h.wf.hash, h.wf.lru, h.wf.count⟩, ?_, h.held, h.memory⟩
    obtain ⟨hb, hd⟩ := h.held i hok.2
    by_cases hn : s.cache.bDev i = noDev
    · rw [if_pos hn] at key ⊢
      exact key
    · rw [if_neg hn] at key ⊢
      rw [← hb, ← hd.resolve_left hn]
      exact key
  | putBlock i blockType =>
    rw [hok.1] at hcoh
    cases hs
    have hr : s.cache.Released noDev [] (s.cache.putBlock i blockType) := Cache.putBlock_released hok.2 blockType
    refine h.released hr (by simp) (Cache.putBlock_wf h.wf hok.2 _) ?_
    rw [hok.1]
    exact Cache.putBlock_coh hcoh i blockType
  | rwScattered dev bufq rwFlag =>
    cases rwFlag with
    | reading =>
      obtain ⟨hf, -, hp, hb⟩ := hok
      rw [hf] at hcoh
      cases hs
      obtain ⟨h1, -, h3, h4⟩ := Cache.rwScattered_reading h.wf hcoh.uniq hp
      exact h.released h3 hb h1 (by rw [hf]; exact h4 s.mem hcoh fun i hi => h.memory i (hp.used i hi))
    | writing =>
      obtain ⟨hf, hd, hq⟩ := hok
      rw [hf] at hcoh
      cases hs
      have hw := Cache.rwScattered_wrote dev fun i hi j hj =>
        hcoh.uniq i j (by rw [hq i hi]; exact hd) (by rw [hq i hi, hq j hj])
      exact h.cleaned hw.cleaned (by rw [hf]; exact hw.coh hq hcoh)
  | flushall dev =>
    obtain ⟨hf, hd⟩ := hok
    rw [hf] at hcoh
    cases hs
    have hw := Cache.flushall_wrote dev fun i j hi => hcoh.uniq i j (hi ▸ hd)
    exact h.cleaned hw.cleaned (by rw [hf]; exact Cache.flushall_coh hcoh hd)
  | invalidate dev =>
    have hf : s.fresh = none := hok
    rw [hf] at hcoh
    cases hs
    refine ⟨⟨h.wf.hash, h.wf.lru, h.wf.count⟩, ?_, fun i hi => ?_, h.memory⟩
    · rw [hf]
      exact Cache.invalidate_coh hcoh dev
    · obtain ⟨h1, h2⟩ := h.held i hi
      refine ⟨h1, ?_⟩
      by_cases hd : s.cache.bDev i = dev
      · exact .inl (if_pos hd)
      · have he : (s.cache.invalidate dev).bDev i = s.cache.bDev i := if_neg hd
        show (s.cache.invalidate dev).bDev i = noDev ∨ (s.cache.invalidate dev).bDev i = _
        rw [he]
        exact h2

/-- The cache behaves like the memory `mem`: a block that is read through it has the content of `mem`, there is a buffer
for it unless all are in use, and after a flush the device has this content too. -/
structure Coherent (s : Traced n α) : Prop where
  get : ∀ dev block contig i c, dev ≠ noDev → s.cache.getBlock dev block .normal contig = some (i, c) →
    c.bDev i = dev ∧ c.bBlocknr i = block ∧ c.bData i = s.mem dev block
  gets : ∀ dev block onlySearch x, (∃ i, s.cache.bCount i = 0) →
    (s.cache.getBlock dev block onlySearch (some x)).isSome = true
  flush : ∀ dev b, dev ≠ noDev → (s.cache.flushall dev).disk dev b = s.mem dev b

theorem Inv.coherent (h : s.Inv) (hf : s.fresh = none) : s.Coherent := by
  have hcoh := h.coh
  rw [hf] at hcoh
  refine ⟨fun dev block contig i c hd hg => Cache.getBlock_normal h.wf hcoh hd hg, ?_, ?_⟩
  · rintro dev block onlySearch x ⟨i, hi⟩
    exact Cache.getBlock_isSome h.wf hi dev block onlySearch x
  · exact fun dev b hd => Cache.flushall_disk hcoh hd b

/-- **Coherence.** Whatever calls are made that keep to the contract, `get_block` yields the content that was stored
last, or that of the device if there was no store since the block was last dropped by `invalidate`, and a flush brings
the device up to date. The only exception is the moment before a buffer that was got without reading is overwritten. -/
theorem coherent_of_run {disk : Nat → Nat → α} {data : Fin n → α} {fsBlockSize : Nat} {os : List (CacheOp n α)}
    (hok : AllOk step CallOk os (initial disk data fsBlockSize))
    (hr : run step os (initial disk data fsBlockSize) = some s) (hf : s.fresh = none) : s.Coherent :=
  (run_invariant (fun _ o _ hi ho hst => step_inv o hi ho hst) (initial_inv disk data fsBlockSize) hok hr).coherent hf

/-- Calls that keep to the contract, with an eviction, a prefetched block and a block that is overwritten unread. -/
def sampleCalls : List (CacheOp 2 Nat) :=
  [.getBlock 1 5 .normal (some 0), .store 0 70, .putBlock 0 0, .getBlock 1 6 .noRead (some 0), .store 1 80,
    .putBlock 1 0,
    .getBlock 1 7 .prefetch none, .rwScattered 1 [0] .reading, .invalidate 1, .getBlock 1 5 .normal none, .flushall 1]

theorem coherent_sampleCalls :
    ∃ s, run step sampleCalls (initial (fun _ b => b) (fun _ => 0) 1024) = some s ∧ s.mem 1 5 = 70 ∧ s.Coherent := by
  obtain ⟨s, hr, hm, hf⟩ : ∃ s, run step sampleCalls (initial (fun _ b => b) (fun _ => 0) 1024) = some s ∧
      s.mem 1 5 = 70 ∧
      s.fresh = none := by decide +kernel
  exact ⟨s, hr, hm, coherent_of_run (by decide +kernel) hr hf⟩

/-- `NR_BUFS` of the makefile. -/
def nrBufs : Nat := 1024

/-- What `get_block` yields for block 5 of device 1 after some calls on the cache of `NR_BUFS` buffers, over a device on
which block `b` holds `b`. -/
def read5After (os : List (CacheOp nrBufs Nat)) : Option Nat := do
  let s ← run step os (initial (fun _ b => b) (fun _ => 0) 1024)
  let (i, c) ← s.cache.getBlock 1 5 .normal (some 0)
  some (c.bData i)

/-- Three runs outside the contract. A block is stored to and its device invalidated: the store is lost. A block is got
without reading and released as it is: the content of the memory that the buffer happened to get shows up. A block is
stored to while it is being prefetched: there are two buffers for it then, and when the newer one leaves the cache the
old content is back. -/
theorem coherent_misuse :
    read5After [.getBlock 1 5 .normal (some 0), .store ⟨0, by decide⟩ 70, .putBlock ⟨0, by decide⟩ 0, .invalidate 1] =
        some 5 ∧
      read5After [.getBlock 1 5 .noRead (some 99), .putBlock ⟨0, by decide⟩ 0] = some 99 ∧
      read5After [.getBlock 1 5 .prefetch (some 0), .getBlock 1 5 .normal (some 0), .store ⟨1, by decide⟩ 70,
          .putBlock ⟨1, by decide⟩ oneShot, .rwScattered 1 [⟨0, by decide⟩] .reading, .getBlock 1 9 .normal (some 0)] =
        some 5 := by
  decide +kernel

end Traced

end Minix.Mfs
