import Minix.Mfs.Coherence

/-!
# A file system that is mounted read-only

The requests on such a file system (`fs_readwrite` for reading, `fs_lookup_s`, `fs_stat`, `fs_sync` and so on) call the
cache in few ways (`ReadCall`): a block of the device is got to be read, or as part of a read-ahead, and for a hole in a
file `rw_chunk_s` gets a buffer without a device, which `zero_block` marks as dirty.

`clean_of_run`: no buffer of the device is dirty in any run of such calls, unless a read-ahead is given one of these
buffers. Then `rw_scattered` binds the dirty buffer to a block of the device, and the next `sync` writes it
(`clean_fails`).
-/

namespace Minix.Mfs

open Minix.Lib Option List Function

variable {n : Nat} {α : Type} {dev : Nat}

namespace Cache

variable {c c' : Cache n α} {i : Fin n}

/-- No buffer of the device is dirty, and so none is written. -/
structure Clean (dev : Nat) (c : Cache n α) : Prop where
  dirt : ∀ i, c.bDev i = dev → c.bDirt i = false
  queue : c.dirtyOf dev = []

/-- No buffer becomes dirty, or is bound to the device, but for the buffers in `q`. -/
structure Fades (dev : Nat) (q : List (Fin n)) (c c' : Cache n α) : Prop where
  dev : ∀ j, j ∉ q → c'.bDev j = dev → c.bDev j = dev
  dirt : ∀ j, j ∉ q → c'.bDirt j = true → c.bDirt j = true

theorem Fades.of_eq {q : List (Fin n)} (h1 : c'.bDev = c.bDev) (h2 : c'.bDirt = c.bDirt) : Fades dev q c c' :=
  ⟨fun j _ h => by rwa [h1] at h, fun j _ h => by rwa [h2] at h⟩

theorem Fades.trans {q : List (Fin n)} {c'' : Cache n α} (h : Fades dev q c c') (h' : Fades dev q c' c'') :
    Fades dev q c c'' :=
  ⟨fun j hj hd => h.dev j hj (h'.dev j hj hd), fun j hj hd => h.dirt j hj (h'.dirt j hj hd)⟩

theorem Fades.clean {q : List (Fin n)} (h : Fades dev q c c') (hc : c.Clean dev)
    (hq : ∀ i ∈ q, c'.bDev i = dev → c'.bDirt i = false) : c'.Clean dev := by
  have hclean : ∀ i, c'.bDev i = dev → c'.bDirt i = false := by
    intro i hi
    by_cases hiq : i ∈ q
    · exact hq i hiq hi
    · have hci := hc.dirt i (h.dev i hiq hi)
      by_contra hd
      rw [h.dirt i hiq (by simpa using hd)] at hci
      cases hci
  refine ⟨hclean, filter_eq_nil_iff.mpr fun i _ hi => ?_⟩
  simp only [Bool.and_eq_true, beq_iff_eq] at hi
  rw [hclean i hi.2] at hi
  cases hi.1

theorem flushall_fades (c : Cache n α) (d : Nat) : Fades dev [] c (c.flushall d) := by
  obtain ⟨⟨_, _, h⟩, hd⟩ := flushall_cleaned c d
  exact ⟨fun j _ hj => by rwa [h] at hj, fun j _ hj => hd j hj⟩

theorem putBlock_fades (c : Cache n α) (i : Fin n) (blockType : Nat) : Fades dev [] c (c.putBlock i blockType) := by
  refine ⟨fun j _ hj => by rwa [(putBlock_frame c i blockType).1] at hj, fun j _ hj => ?_⟩
  rcases putBlock_content c i blockType with h | ⟨t, h, -, -, hw⟩
  · rwa [h.dirt] at hj
  · by_cases hji : j ∈ [i]
    · rw [hw.clean j hji] at hj
      cases hj
    · rwa [hw.dirt j hji, h.dirt] at hj

theorem takeOldest_eq {contig : Option α} (h : c.takeOldest contig = some (i, c')) : c'.bDev = c.bDev ∧
    c'.bDirt = c.bDirt := by
  obtain ⟨k, -, h⟩ := bind_eq_some_iff.mp h
  split at h
  · cases contig with
    | some x =>
      cases h
      exact ⟨rfl, rfl⟩
    | none =>
      obtain ⟨x, -, h⟩ := bind_eq_some_iff.mp h
      obtain ⟨m, -, h⟩ := bind_eq_some_iff.mp h
      cases h
      exact ⟨rfl, rfl⟩
  · cases h
    exact ⟨rfl, rfl⟩

theorem unhash_eq (h : c.unhash i = some c') : c'.bDev = c.bDev ∧ c'.bDirt = c.bDirt := by
  obtain ⟨x, -, h⟩ := bind_eq_some_iff.mp h
  split at h <;> cases h <;> exact ⟨rfl, rfl⟩

theorem getBlock_clean {d block : Nat} {onlySearch : OnlySearch} {contig : Option α} (hdev : dev ≠ noDev)
    (hc : c.Clean dev)
    (hs : d = noDev ∨ onlySearch ≠ .noRead) (hg : c.getBlock d block onlySearch contig = some (i, c')) :
    c'.Clean dev := by
  have hmiss (hm : c.miss d block onlySearch contig = some (i, c')) : c'.Clean dev := by
    obtain ⟨⟨k, c1⟩, h1, hm⟩ := bind_eq_some_iff.mp hm
    obtain ⟨c2, h2, hm⟩ := bind_eq_some_iff.mp hm
    cases hm
    obtain ⟨hd1, ht1⟩ := takeOldest_eq h1
    obtain ⟨hd2, ht2⟩ := unhash_eq h2
    have hf : Fades dev [] c (c2.evict i) := by
      refine .trans (.of_eq (hd2.trans hd1) (ht2.trans ht1)) ?_
      unfold evict
      split
      · exact flushall_fades c2 _
      · exact .of_eq rfl rfl
    have hr := (claim_rebound (c2.evict i) i d block).trans (fill_rebound _ i d onlySearch)
    have hf' : Fades dev [i] (c2.evict i) (((c2.evict i).claim i d block).fill i d onlySearch) := by
      refine ⟨fun j hj h => ?_, fun j hj h => ?_⟩
      · rwa [hr.dev j (by simpa using hj)] at h
      · rwa [hr.dirt j (by simpa using hj)] at h
    refine hf'.clean (hf.clean hc (by simp)) fun j hj hd => ?_
    obtain rfl := mem_singleton.mp hj
    -- the buffer has no device, or it has been read
    unfold fill at hd ⊢
    by_cases hn : d = noDev
    · simp [hn, claim, hdev.symm] at hd
    · cases onlySearch with
      | prefetch => simp [hn, hdev.symm] at hd
      | noRead => exact absurd rfl (hs.resolve_left hn)
      | normal => simp [hn, rwBlock]
  unfold getBlock at hg
  split at hg
  · exact hmiss hg
  · obtain ⟨r, -, hg⟩ := bind_eq_some_iff.mp hg
    cases r with
    | some j =>
      cases hg
      have hs := hit_content c i
      exact (Fades.of_eq (q := []) hs.dev hs.dirt).clean hc (by simp)
    | none => exact hmiss hg

theorem release_fades : ∀ (q : List (Fin n)) (c : Cache n α), Fades dev [] c (c.release q)
  | [], _ => .of_eq rfl rfl
  | i :: q, c => (putBlock_fades c i partialDataBlock).trans (release_fades q _)

theorem validate_fades (dev d : Nat) {r : List (Fin n)} : ∀ (q : List (Fin n)) (c : Cache n α), (∀ i ∈ q, i ∈ r) →
    Fades dev r c (c.validate d q) ∧ ∀ j, (c.validate d q).bDirt j = true → c.bDirt j = true
  | [], _, _ => ⟨.of_eq rfl rfl, fun _ h => h⟩
  | i :: q, c, hr => by
    have hp : Fades dev [] { c with bDev := update c.bDev i d }
      ({ c with bDev := update c.bDev i d }.putBlock i partialDataBlock) := putBlock_fades ..
    obtain ⟨h1, h2⟩ :=
      validate_fades dev d q ({ c with bDev := update c.bDev i d }.putBlock i partialDataBlock)
      fun j hj => hr j (mem_cons_of_mem i hj)
    have hdirt (j : Fin n) (hj : (c.validate d (i :: q)).bDirt j = true) : c.bDirt j = true :=
      hp.dirt j (by simp) (h2 j hj)
    refine ⟨⟨fun j hj hd => ?_, fun j _ => hdirt j⟩, hdirt⟩
    have hji : j ≠ i := fun h => hj (h ▸ hr i mem_cons_self)
    simpa [hji] using hp.dev j (by simp) (h1.dev j hj hd)

theorem rwScattered_clean {q : List (Fin n)} (hc : c.Clean dev) (hq : ∀ i ∈ q, c.bDirt i = false) :
    (c.rwScattered dev q .reading).Clean dev := by
  have hperm := shellSort_perm c.bBlocknr q
  show (c.readRun dev (shellSort c.bBlocknr q)).Clean dev
  generalize shellSort c.bBlocknr q = s at hperm
  cases s with
  | nil => exact hc
  | cons k s =>
    obtain ⟨t, r, d, hs, he, -⟩ := c.readRun_split dev k s
    rw [he]
    obtain ⟨h1, h2⟩ := validate_fades dev dev t { c with bData := d } fun i hi =>
      hperm.mem_iff.mp (hs ▸ mem_append_left r hi)
    refine (release_fades r _).clean (h1.clean ⟨hc.dirt, hc.queue⟩ fun i hi _ => ?_) nofun
    by_contra hd
    have := h2 i (by simpa using hd)
    rw [show c.bDirt i = false from hq i hi] at this
    cases this

/-! ## Holes -/

/-- All buffers are free and belong to no device. -/
structure Unbound (c : Cache n α) : Prop where
  wf : c.Wf
  dev : ∀ i, c.bDev i = noDev
  free : ∀ i, c.bCount i = 0

theorem Unbound.getBlock (h : c.Unbound) (j : Fin n) (x : α) : ∃ i t, Taken c i t ∧ ∀ dev block onlySearch,
    c.getBlock dev block onlySearch (some x) = some (i, (t.claim i dev block).fill i dev onlySearch) := by
  obtain ⟨i, t, ht, hm⟩ := miss_eq h.wf (h.free j) x
  refine ⟨i, t, ht, fun dev block onlySearch => ?_⟩
  have hev : t.evict i = t := if_neg fun he => he.1 (by rw [ht.dev, h.dev])
  unfold Cache.getBlock
  split_ifs with hd
  · rw [hm, hev]
  · obtain ⟨r, hr, hfound, -⟩ := searchHash_spec h.wf.hash j dev block
    cases r with
    | some k => exact absurd ((hfound k rfl).1.symm.trans (h.dev k)) hd
    | none => rw [hr, bind_eq_bind, bind_some, hm, hev]

theorem rwScattered_one (dev : Nat) (c : Cache n α) (i : Fin n) : c.rwScattered dev [i] .reading =
    { c with bData := update c.bData i (c.disk dev (c.bBlocknr i)), bDev := update c.bDev i dev }.putBlock i
      partialDataBlock := by
  have hs : shellSort c.bBlocknr [i] = [i] := by simp [shellSort, firstGap, sortLoop, sortPass]
  have hl : c.runLength (c.bBlocknr i) 0 [i] = 1 := if_pos ⟨by decide, rfl⟩
  simp [rwScattered, hs, readRun, hl, gather, validate, release]

theorem putBlock_last (hi : c.bCount i = 1) : (c.putBlock i partialDataBlock).bDirt = c.bDirt ∧
    (c.putBlock i partialDataBlock).bCount = update c.bCount i 0 := by
  simp only [putBlock, dropUse, relink, hi, show partialDataBlock &&& writeImmed = 0 from rfl, update_self]
  split_ifs <;> simp_all [pushFront, pushRear]

end Cache

namespace Traced

variable {s s' : Traced n α}

/-- The calls that requests on the read-only file system of a device make. -/
def ReadCall (dev : Nat) (s : Traced n α) : CacheOp n α → Prop
  | .getBlock d block onlySearch _ => d = dev ∧ onlySearch ≠ .noRead ∨ d = noDev ∧ block = noBlock ∧
    onlySearch = .normal
  | .store i _ => s.cache.bDev i = noDev
  | .putBlock .. => True
  | .rwScattered d _ rwFlag => d = dev ∧ rwFlag = .reading
  | .flushall _ => True
  | .invalidate _ => False

/-- The buffers for a read-ahead are clean. -/
def AheadOk (s : Traced n α) : CacheOp n α → Prop
  | .rwScattered _ bufq _ => ∀ i ∈ bufq, s.cache.bDirt i = false
  | _ => True

instance (dev : Nat) (s : Traced n α) : DecidablePred (s.ReadCall dev)
  | .getBlock d block onlySearch _ =>
    inferInstanceAs (Decidable (d = dev ∧ onlySearch ≠ .noRead ∨ d = noDev ∧ block = noBlock ∧ onlySearch = .normal))
  | .store i _ => inferInstanceAs (Decidable (s.cache.bDev i = noDev))
  | .putBlock .. | .flushall _ => .isTrue trivial
  | .rwScattered d _ rwFlag => inferInstanceAs (Decidable (d = dev ∧ rwFlag = .reading))
  | .invalidate _ => .isFalse not_false

instance (s : Traced n α) : DecidablePred s.AheadOk
  | .rwScattered _ bufq _ => inferInstanceAs (Decidable (∀ i ∈ bufq, s.cache.bDirt i = false))
  | .getBlock .. | .store .. | .putBlock .. | .flushall _ | .invalidate _ => .isTrue trivial

/-- A call makes no buffer of the device dirty. -/
theorem step_clean (hdev : dev ≠ noDev) {o : CacheOp n α} (h : s.cache.Clean dev) (hok : s.ReadCall dev o ∧ s.AheadOk o)
    (hs : s.step o = some s') : s'.cache.Clean dev := by
  obtain ⟨hcall, hahead⟩ := hok
  cases o with
  | getBlock d block onlySearch contig =>
    obtain ⟨⟨i, c⟩, hg, hs⟩ := bind_eq_some_iff.mp hs
    cases hs
    refine Cache.getBlock_clean hdev h ?_ hg
    rcases hcall with ⟨-, hs⟩ | ⟨hd, -⟩
    · exact .inr hs
    · exact .inl hd
  | store i x =>
    cases hs
    have hf : Cache.Fades dev [i] s.cache (s.cache.store i x) :=
      ⟨fun j _ hd => hd, fun j hj hd => by simpa [Cache.store, mem_singleton.not.mp hj] using hd⟩
    refine hf.clean h fun j hj hd => ?_
    rw [mem_singleton.mp hj] at hd
    exact absurd (hd.symm.trans hcall) hdev
  | putBlock i blockType =>
    cases hs
    exact (Cache.putBlock_fades s.cache i blockType).clean h (by simp)
  | rwScattered d bufq rwFlag =>
    obtain ⟨rfl, rfl⟩ := hcall
    cases hs
    exact Cache.rwScattered_clean h hahead
  | flushall d =>
    cases hs
    exact (Cache.flushall_fades s.cache d).clean h (by simp)
  | invalidate d => exact hcall.elim

/-- No buffer of a read-only file system is ever dirty, if the buffers for read-aheads are clean. -/
theorem clean_of_run (hdev : dev ≠ noDev) {disk : Nat → Nat → α} {data : Fin n → α} {fsBlockSize : Nat}
    {os : List (CacheOp n α)}
    (hok : AllOk step (fun s o => s.ReadCall dev o ∧ s.AheadOk o) os (initial disk data fsBlockSize))
    (hr : run step os (initial disk data fsBlockSize) = some s) : s.cache.Clean dev := by
  refine run_invariant (fun _ _ _ h ho hs => step_clean hdev h ho hs) ⟨fun i hi => absurd hi hdev.symm, ?_⟩ hok hr
  exact filter_eq_nil_iff.mpr fun i _ hi => by simp [initial, Cache.bufPool] at hi

/-- A hole is read, then a block with a read-ahead of one more, and the file system is synchronised. -/
def holeThenAhead : List (CacheOp 6 Nat) :=
  [.getBlock 0 0 .normal (some 0), .store 0 0, .putBlock 0 partialDataBlock, .getBlock 1 5 .prefetch (some 0),
    .getBlock 1 6 .prefetch (some 0), .rwScattered 1 [1, 2] .reading, .getBlock 1 5 .normal none,
      .putBlock 1 partialDataBlock, .flushall 1]

theorem clean_of_run_ahead : ∃ s, run step holeThenAhead (initial (fun _ b => b) (fun _ => 0) 1024) = some s ∧
    s.cache.bDev 1 = 1 ∧
    s.cache.bDirt 0 = true ∧ s.cache.Clean 1 := by
  obtain ⟨s, hr, hdev, hdirt⟩ : ∃ s, run step holeThenAhead (initial (fun _ b => b) (fun _ => 0) 1024) = some s ∧
      s.cache.bDev 1 = 1 ∧ s.cache.bDirt 0 = true := by decide +kernel
  exact ⟨s, hr, hdev, hdirt, clean_of_run (by decide) (by decide +kernel) hr⟩

/-- A hole is read. -/
def readHole (i : Fin n) : List (CacheOp n Nat) :=
  [.getBlock noDev noBlock .normal (some 0), .store i 0, .putBlock i partialDataBlock]

/-- A block is read ahead. -/
def readAhead (i : Fin n) : List (CacheOp n Nat) := [.getBlock 1 5 .prefetch (some 0), .rwScattered 1 [i] .reading]

/-- The oldest buffer is bound to the device for a read-ahead, and marked for a hole. -/
theorem ahead_and_hole {s : Traced n Nat} (h : s.cache.Unbound) (j : Fin n) : ∃ i,
    (∃ s', AllOk step (ReadCall 1) (readAhead i) s ∧ run step (readAhead i) s = some s' ∧ s'.cache.bDev i = 1 ∧
      s'.cache.bDirt = s.cache.bDirt) ∧
    ∃ s', (∀ os, AllOk step (ReadCall 1) os s' → AllOk step (ReadCall 1) (readHole i ++ os) s) ∧
      (∀ os, run step (readHole i ++ os) s = run step os s') ∧
      s'.cache.Unbound ∧ s'.cache.bDirt = update s.cache.bDirt i true := by
  obtain ⟨i, t, ht, hg⟩ := h.getBlock j 0
  have hcount (dev block : Nat) : (t.claim i dev block).bCount = update s.cache.bCount i 1 := by
    simp [Cache.claim, ht.count, h.free]
  have hone (dev block : Nat) : (t.claim i dev block).bCount i = 1 := by rw [hcount, update_self]
  refine ⟨i, ?_, ?_⟩
  · obtain ⟨s1, h1, hc1⟩ : ∃ s1, s.step (.getBlock 1 5 .prefetch (some 0)) = some s1 ∧
        s1.cache = (t.claim i 1 5).fill i 1 .prefetch := ⟨_, by rw [step, hg]; rfl, rfl⟩
    refine ⟨{ s1 with cache := s1.cache.rwScattered 1 [i] .reading },
      ⟨.inl ⟨rfl, by decide⟩, by rw [h1]; exact ⟨⟨rfl, rfl⟩, trivial⟩⟩, by rw [readAhead, run, h1]; rfl, ?_, ?_⟩
    all_goals
      dsimp only
      rw [Cache.rwScattered_one]
    · rw [(Cache.putBlock_frame ..).1]
      exact update_self _ _ _
    · rw [(Cache.putBlock_last (by rw [hc1]; exact hone 1 5)).1, hc1]
      exact ht.dirt
  · obtain ⟨s1, h1, hc1⟩ : ∃ s1, s.step (.getBlock noDev noBlock .normal (some 0)) = some s1 ∧
        s1.cache = t.claim i noDev noBlock := ⟨_, by rw [step, hg]; rfl, rfl⟩
    have hdev : s1.cache.bDev = s.cache.bDev := by
      rw [hc1, ← ht.dev]
      exact update_eq_self_iff.mpr (by rw [ht.dev, h.dev])
    have hwf : s1.cache.Wf := hc1 ▸ Cache.claim_wf h.wf ht (.refl t) noDev noBlock
    obtain ⟨s2, h2, hc2⟩ : ∃ s2, s1.step (.store i 0) = some s2 ∧ s2.cache = s1.cache.store i 0 := ⟨_, rfl, rfl⟩
    have hi : s2.cache.bCount i = 1 := by rw [hc2, Cache.store, hc1, hone]
    obtain ⟨hdirt, hfree⟩ := Cache.putBlock_last hi
    refine ⟨{ s2 with cache := s2.cache.putBlock i partialDataBlock }, fun os hos => ?_, fun os => ?_,
      ⟨Cache.putBlock_wf ?_ (by rw [hi]; decide) _, fun k => ?_, fun k => ?_⟩, ?_⟩
    · refine ⟨.inr ⟨rfl, rfl, rfl⟩, ?_⟩
      rw [h1]
      refine ⟨(congrFun hdev i).trans (h.dev i), ?_⟩
      rw [h2]
      exact ⟨trivial, hos⟩
    · simp only [readHole, cons_append, nil_append, run, h1, h2, bind_some]
      rfl
    · rw [hc2]
      exact ⟨hwf.hash, hwf.lru, hwf.count⟩
    · rw [(Cache.putBlock_frame ..).1, hc2, Cache.store, hdev, h.dev]
    · rw [hfree, hc2, Cache.store, hc1, hcount, update_idem, update_apply, h.free, ite_self]
    · rw [hdirt, hc2, Cache.store, hc1]
      exact congrArg (update · i true) ht.dirt

/-- Holes are read until the oldest buffer is a dirty one. There are fewer clean buffers after each of them, so this
happens in a cache of any size. -/
theorem dirty_of_holes (j : Fin n) : ∀ (m : Nat) {s : Traced n Nat}, s.cache.Unbound →
    (Finset.univ.filter fun i => s.cache.bDirt i = false).card ≤ m →
    ∃ (is : List (Fin n)) (i : Fin n) (s' : Traced n Nat), is.length ≤ m ∧
      AllOk step (ReadCall 1) (is.flatMap readHole ++ readAhead i) s ∧
      run step (is.flatMap readHole ++ readAhead i) s = some s' ∧ s'.cache.bDev i = 1 ∧ s'.cache.bDirt i = true
  | m, s, h, hm => by
    obtain ⟨i, ⟨s1, hok, hr, hdev, hdirt⟩, s2, hok2, hr2, h2, hdirt2⟩ := ahead_and_hole h j
    by_cases hi : s.cache.bDirt i = true
    · exact ⟨[], i, s1, Nat.zero_le m, hok, hr, hdev, (congrFun hdirt i).trans hi⟩
    have hmem : i ∈ Finset.univ.filter fun i => s.cache.bDirt i = false := by simpa using hi
    have hlt := Finset.card_erase_lt_of_mem hmem
    cases m with
    | zero => omega
    | succ m =>
      obtain ⟨is, k, s', hlen, ho, hrun, hd⟩ := dirty_of_holes j m h2 (by
        refine Nat.le_of_lt_succ (Nat.lt_of_le_of_lt (Finset.card_le_card fun k hk => ?_) (hlt.trans_le hm))
        rw [hdirt2] at hk
        by_cases hki : k = i
        · simp [hki] at hk
        · simpa [hki] using hk)
      refine ⟨i :: is, k, s', Nat.succ_le_succ hlen, ?_, ?_, hd⟩
      · simpa only [flatMap_cons, append_assoc] using hok2 _ ho
      · simpa only [flatMap_cons, append_assoc] using (hr2 _).trans hrun

/-- When the oldest of the 1024 buffers was used for a hole, a block that is read ahead gets it dirty, and the next
`sync` writes it. -/
theorem clean_fails : ∃ (is : List (Fin nrBufs)) (i : Fin nrBufs) (s : Traced nrBufs Nat), is.length ≤ nrBufs ∧
    AllOk step (ReadCall 1) (is.flatMap readHole ++ readAhead i) (initial (fun _ b => b) (fun _ => 0) 1024) ∧
    run step (is.flatMap readHole ++ readAhead i) (initial (fun _ b => b) (fun _ => 0) 1024) = some s ∧
    s.cache.bDev i = 1 ∧ s.cache.bDirt i = true :=
  dirty_of_holes ⟨0, Nat.zero_lt_succ _⟩ nrBufs ⟨Cache.bufPool_wf .., fun _ => rfl, fun _ => rfl⟩
    ((Finset.card_le_univ _).trans_eq (Fintype.card_fin _))

end Traced

end Minix.Mfs
