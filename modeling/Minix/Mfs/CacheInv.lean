import Minix.Mfs.Cache

/-!
# The structure of the buffer cache

`Cache.Wf` is the invariant of the two pointer structures of the cache: every buffer is on the hash chain of its block
number, and the LRU chain holds exactly the buffers that are not in use. Every function of the cache has a lemma that
says what it does to the chains (`rmLru_lru`, `putBlock_wf`, `unhash_spec`, `claim_hash`, `hit_wf`, `claim_wf`) or what
it writes (`flushall_wrote`). `searchHash_spec`: the search of a hash chain ends, and finds the buffer of a block if
there is one.
-/

namespace Minix.Mfs.Cache

open Minix.Lib Function List Option

variable {n : Nat} {α : Type} {c c' : Cache n α} {P : Fin n → Prop} {i j : Fin n}

/-! ## The invariant -/

/-- The hash chains hold the buffers that satisfy `P`, each on the chain that its block number selects. -/
def HashOk (c : Cache n α) (P : Fin n → Prop) : Prop :=
  ∀ h < n, ∃ l, Chain c.bHash (c.bufHash h) l ∧ l.Nodup ∧ ∀ i, i ∈ l ↔ P i ∧ hash n (c.bBlocknr i) = h

/-- The LRU chain holds the buffers that satisfy `P`, and the other ones are counted as in use. -/
def LruOk (c : Cache n α) (P : Fin n → Prop) : Prop :=
  ∃ l, DList c.bNext c.bPrev c.front c.rear l ∧ (∀ i, i ∈ l ↔ P i) ∧ c.bufsInUse + l.length = n

/-- The structure of the cache. -/
structure Wf (c : Cache n α) : Prop where
  hash : HashOk c fun _ => True
  lru : LruOk c fun i => c.bCount i = 0
  count : ∀ i, c.bCount i < 256

theorem hash_lt (i : Fin n) (b : Nat) : hash n b < n := Nat.mod_lt _ (Nat.lt_of_le_of_lt (Nat.zero_le _) i.isLt)

section

variable (h : LruOk c P)

include h

theorem LruOk.congr {Q : Fin n → Prop} (hpq : ∀ i, P i ↔ Q i) : LruOk c Q := by
  obtain ⟨l, hl, hm, hn⟩ := h
  exact ⟨l, hl, fun i => (hm i).trans (hpq i), hn⟩

/-! ## The LRU chain -/

theorem rmLru_lru (hi : P i) : LruOk (c.rmLru i) fun j => P j ∧ j ≠ i := by
  obtain ⟨l, hl, hm, hn⟩ := h
  obtain ⟨m, r, rfl⟩ := append_of_mem ((hm i).mpr hi)
  have hnd := hl.nodup
  rw [nodup_middle, nodup_cons] at hnd
  refine ⟨m ++ r, hl.remove, ?_, ?_⟩
  · intro j
    show j ∈ m ++ r ↔ P j ∧ j ≠ i
    rw [← hm j]
    constructor
    · intro hj
      refine ⟨?_, fun e => hnd.1 (e ▸ hj)⟩
      rcases mem_append.mp hj with h | h <;> simp [h]
    · rintro ⟨hj, hne⟩
      simpa [hne] using hj
  · have : (m ++ i :: r).length = (m ++ r).length + 1 := by simp; omega
    simp only [rmLru]
    omega

theorem pushFront_lru (hi : ¬ P i) : LruOk ({ c with bufsInUse := c.bufsInUse - 1 }.pushFront i) fun j =>
    P j ∨ j = i := by
  obtain ⟨l, hl, hm, hn⟩ := h
  refine ⟨i :: l, hl.pushFront (by rwa [hm]), ?_, ?_⟩
  · intro j
    rw [mem_cons, hm, or_comm]
  · simp only [pushFront, length_cons]
    omega

theorem pushRear_lru (hi : ¬ P i) : LruOk ({ c with bufsInUse := c.bufsInUse - 1 }.pushRear i) fun j =>
    P j ∨ j = i := by
  obtain ⟨l, hl, hm, hn⟩ := h
  refine ⟨l ++ [i], hl.pushBack (by rwa [hm]), ?_, ?_⟩
  · intro j
    rw [mem_append, mem_singleton, hm]
  · simp only [pushRear, length_append, length_singleton]
    omega

/-- A walk of the LRU chain finds a buffer of the chain that satisfies the test. -/
theorem scan_lru (stop : Fin n → Bool) {x : Loc (Fin n)} (hx : scan c.front c.bNext stop (n + 1) .head = some x)
    (hi : x.get c.front c.bNext = some i) : P i ∧ stop i = true := by
  obtain ⟨l, hl, hm, -⟩ := h
  have hlen : l.length ≤ n := by simpa using hl.nodup.length_le_card
  have key := scan_find stop hl.forward (Nat.lt_succ_of_le hlen)
  rw [hx, map_some, hi, some_inj] at key
  exact ⟨(hm i).mp (mem_of_find?_eq_some key.symm), find?_some key.symm⟩

theorem front_lru (hi : c.front = some i) : P i := by
  obtain ⟨l, hl, hm, -⟩ := h
  rw [hl.front_eq] at hi
  exact (hm i).mp (mem_of_mem_head? hi)

/-- The block taken is not in use and has memory; only a block without memory gets a new content. -/
theorem takeOldest_spec {contig : Option α} (ht : c.takeOldest contig = some (i, c')) :
    P i ∧ ∃ b d, c' = { c with bBytes := b, bData := d } ∧ (∀ j, j ≠ i → b j = c.bBytes j) ∧ c.fsBlockSize ≤ b i ∧
      ∀ j, d j = c.bData j ∨ j = i ∧ c.bBytes i < c.fsBlockSize := by
  obtain ⟨k, hk, ht⟩ := bind_eq_some_iff.mp ht
  split at ht
  · next hb =>
    cases contig with
    | some x =>
      cases ht
      refine ⟨front_lru h hk, _, _, rfl, fun j hj => update_of_ne hj _ _, by rw [update_self], ?_⟩
      intro j
      rcases eq_or_ne j i with rfl | hj
      · exact .inr ⟨rfl, hb⟩
      · exact .inl (update_of_ne hj _ _)
    | none =>
      obtain ⟨x, hx, ht⟩ := bind_eq_some_iff.mp ht
      obtain ⟨m, hm, ht⟩ := bind_eq_some_iff.mp ht
      cases ht
      have hs := scan_lru h _ hx hm
      exact ⟨hs.1, _, _, rfl, fun _ _ => rfl, by simpa using hs.2, fun _ => .inl rfl⟩
  · next hb =>
    cases ht
    exact ⟨front_lru h hk, _, _, rfl, fun _ _ => rfl, Nat.le_of_not_lt hb, fun _ => .inl rfl⟩

theorem takeOldest_isSome {x : α} (hi : P i) : (c.takeOldest (some x)).isSome = true := by
  obtain ⟨l, hl, hm, -⟩ := h
  have hne := (hm i).mpr hi
  cases l with
  | nil => cases hne
  | cons k l =>
    unfold takeOldest
    rw [hl.front_eq, head?_cons, bind_eq_bind, bind_some]
    split <;> rfl

end

/-- The search of the hash chain ends, and finds the buffer of the block if there is one. -/
theorem searchHash_spec (h : HashOk c fun _ => True) (i : Fin n) (dev block : Nat) :
    ∃ r, c.searchHash dev block = some r ∧ (∀ j, r = some j → c.bDev j = dev ∧ c.bBlocknr j = block) ∧
      (r = none → ∀ j, c.bDev j = dev → c.bBlocknr j ≠ block) := by
  obtain ⟨l, hl, hnd, hm⟩ := h (hash n block) (hash_lt i block)
  have hlen : l.length ≤ n := by simpa using hnd.length_le_card
  refine ⟨_, scan_find _ hl (Nat.lt_succ_of_le hlen), ?_, ?_⟩
  · intro j hj
    simpa [and_comm] using find?_some hj
  · intro hr j hd hb
    have hj := find?_eq_none.mp hr j ((hm j).mpr ⟨trivial, by rw [hb]⟩)
    simp [hd, hb] at hj

/-- The buffer is found on its hash chain and taken off. -/
theorem unhash_spec (h : HashOk c fun _ => True) (i : Fin n) :
    ∃ hd nx, c.unhash i = some { c with bufHash := hd, bHash := nx } ∧
      HashOk { c with bufHash := hd, bHash := nx } fun j => j ≠ i := by
  obtain ⟨l, hl, hnd, hm⟩ := h (hash n (c.bBlocknr i)) (hash_lt i _)
  obtain ⟨m, r, rfl⟩ := append_of_mem ((hm i).mpr ⟨trivial, rfl⟩)
  have hlen : (m ++ i :: r).length ≤ n := by simpa using hnd.length_le_card
  have hmr := hnd
  rw [nodup_middle, nodup_cons] at hmr
  have hs : scan (c.bufHash (hash n (c.bBlocknr i))) c.bHash (· == i) (n + 1) .head = some (Loc.after m) := by
    refine scan_head hl (fun a ha => ?_) (fun a ha => ?_) (by rw [length_append] at hlen; omega)
    · have : a ≠ i := fun e => hmr.1 (mem_append_left _ (e ▸ ha))
      simpa using this
    · simpa using ha.symm
  have hg := chain_head? (chain_after m hl)
  refine ⟨update c.bufHash (hash n (c.bBlocknr i))
    ((Loc.after m).setHead (c.bufHash (hash n (c.bBlocknr i))) (c.bHash i)),
    (Loc.after m).setNext c.bHash (c.bHash i), ?_, ?_⟩
  · unfold unhash
    simp only [hs, bind_eq_bind, bind_some, hg, head?_cons]
  · intro b hb
    by_cases hbi : b = hash n (c.bBlocknr i)
    · refine ⟨m ++ r, ?_, hmr.2, fun j => ?_⟩
      · simp only [hbi, update_self]
        exact chain_remove hl hnd
      · have hj := hm j
        have hji : j ∈ m ++ r → j ≠ i := fun hj e => hmr.1 (e ▸ hj)
        simp only [mem_append, mem_cons, true_and] at hj hji ⊢
        rw [hbi, ← hj]
        constructor
        · intro hj
          exact ⟨hji hj, by tauto⟩
        · rintro ⟨hne, hj⟩
          tauto
    · obtain ⟨l', hl', hnd', hm'⟩ := h b hb
      refine ⟨l', ?_, hnd', fun j => ?_⟩
      · simp only [update_of_ne hbi]
        refine chain_congr (fun a ha => setNext_of_not_mem (fun ham => hbi ?_)) hl'
        rw [← ((hm' a).mp ha).2, ((hm a).mp (mem_append_left _ ham)).2]
      · rw [hm' j]
        constructor
        · rintro ⟨-, hj⟩
          exact ⟨fun e => hbi (by rw [← hj, e]), hj⟩
        · rintro ⟨-, hj⟩
          exact ⟨trivial, hj⟩

/-- A block that is on no hash chain is put on the one where it goes. -/
theorem claim_hash (h : HashOk c fun j => j ≠ i) (dev block : Nat) : HashOk (c.claim i dev block) fun _ => True := by
  intro b hb
  obtain ⟨l, hl, hnd, hm⟩ := h b hb
  have hil : i ∉ l := fun hi => ((hm i).mp hi).1 rfl
  have hc : ∀ a ∈ l, update c.bHash i (c.bufHash (hash n block)) a = c.bHash a := fun a ha =>
    update_of_ne (ne_of_mem_of_not_mem ha hil) _ _
  have hother : ∀ j, j ≠ i → (update c.bBlocknr i block j) = c.bBlocknr j := fun j hj =>
    update_of_ne hj _ _
  by_cases hbi : b = hash n block
  · refine ⟨i :: l, ⟨?_, ?_⟩, nodup_cons.mpr ⟨hil, hnd⟩, fun j => ?_⟩
    · simp only [claim, hbi, update_self]
    · simp only [claim, update_self]
      rw [← hbi]
      exact chain_congr (fun a ha => by rw [hbi]; exact hc a ha) hl
    · by_cases hji : j = i
      · simp [hji, claim, hbi]
      · simp [claim, hji, hm j]
  · refine ⟨l, ?_, hnd, fun j => ?_⟩
    · simp only [claim, update_of_ne hbi]
      exact chain_congr hc hl
    · by_cases hji : j = i
      · subst hji
        simp [claim, hil, Ne.symm hbi]
      · simp [claim, hji, hm j]

/-! ## Releasing a block -/

/-- What a function may do to a block that stays in the cache: its content goes to the device and it becomes clean. -/
def Cleaned (c c' : Cache n α) : Prop := ∃ d t, c' = { c with disk := d, bDirt := t }

theorem Cleaned.refl (c : Cache n α) : Cleaned c c := ⟨_, _, rfl⟩

theorem Cleaned.trans {c'' : Cache n α} (h : Cleaned c c') (h' : Cleaned c' c'') : Cleaned c c'' := by
  obtain ⟨d, t, rfl⟩ := h
  obtain ⟨d', t', rfl⟩ := h'
  exact ⟨d', t', rfl⟩

theorem Cleaned.wf (h : Cleaned c c') (hc : c.Wf) : c'.Wf := by
  obtain ⟨d, t, rfl⟩ := h
  exact ⟨hc.hash, hc.lru, hc.count⟩

theorem rwBlock_cleaned (c : Cache n α) (i : Fin n) : Cleaned c (c.rwBlock i .writing) := by
  unfold rwBlock
  split
  · exact ⟨_, _, rfl⟩
  · exact ⟨_, _, rfl⟩

theorem dropUse_count (h : c.Wf) (i j : Fin n) : (c.dropUse i).bCount j < 256 := by
  simp only [dropUse, update_apply]
  split
  · exact Nat.mod_lt _ (by decide)
  · exact h.count j

theorem relink_wf (h : c.Wf) (hi : c.bCount i ≠ 0) (hz : (c.dropUse i).bCount i = 0) (blockType : Nat) :
    ((c.dropUse i).relink i blockType).Wf := by
  have hzero : ∀ j, (c.bCount j = 0 ∨ j = i) ↔ (c.dropUse i).bCount j = 0 := by
    intro j
    rcases eq_or_ne j i with rfl | hj
    · simpa using hz
    · simp [dropUse, hj]
  unfold relink
  dsimp only
  split
  · exact ⟨h.hash, (pushFront_lru h.lru hi).congr hzero, dropUse_count h i⟩
  · exact ⟨h.hash, (pushRear_lru h.lru hi).congr hzero, dropUse_count h i⟩

theorem putBlock_wf (h : c.Wf) (hi : c.bCount i ≠ 0) (blockType : Nat) : (c.putBlock i blockType).Wf := by
  unfold putBlock
  dsimp only
  split
  · next hne =>
    refine ⟨h.hash, h.lru.congr fun j => ?_, dropUse_count h i⟩
    rcases eq_or_ne j i with rfl | hj
    · simp [hi, hne]
    · simp [dropUse, hj]
  · next hz =>
    have hw := relink_wf h hi (not_ne_iff.mp hz) blockType
    split
    · exact (rwBlock_cleaned _ _).wf hw
    · exact hw

section Sorting

variable {β : Type} {key : β → Nat}

theorem swap_perm (q : List β) (i j : Nat) : (swap q i j).Perm q := by
  unfold swap
  split
  · next x y hx hy =>
    obtain ⟨hi, rfl⟩ := List.getElem?_eq_some_iff.mp hx
    obtain ⟨hj, rfl⟩ := List.getElem?_eq_some_iff.mp hy
    exact set_set_perm hi hj
  · exact List.Perm.refl q

theorem siftDown_perm (gap : Nat) : ∀ (fuel i : Nat) (q : List β), (siftDown key gap fuel i q).Perm q
  | 0, _, q => List.Perm.refl q
  | fuel + 1, i, q => by
    unfold siftDown
    split
    · exact List.Perm.refl q
    · split
      · split
        · exact (siftDown_perm gap fuel _ _).trans (swap_perm q _ _)
        · exact List.Perm.refl q
      · exact List.Perm.refl q

theorem sortPass_perm (gap : Nat) (q : List β) : (sortPass key gap q).Perm q := by
  unfold sortPass
  suffices h : ∀ (js : List Nat) (r : List β), r.Perm q →
      (js.foldl (fun q j => siftDown key gap (j + 1) j q) r).Perm q from h _ q (List.Perm.refl q)
  intro js
  induction js with
  | nil => exact fun _ hr => hr
  | cons j js ih => exact fun r hr => ih _ ((siftDown_perm gap _ _ r).trans hr)

theorem sortLoop_perm : ∀ (fuel gap : Nat) (q : List β), (sortLoop key fuel gap q).Perm q
  | 0, _, q => List.Perm.refl q
  | fuel + 1, gap, q => by
    unfold sortLoop
    split
    · exact List.Perm.refl q
    · exact (sortLoop_perm fuel _ _).trans (sortPass_perm _ q)

/-- The sort only rearranges the queue. -/
theorem shellSort_perm (key : β → Nat) (q : List β) : (shellSort key q).Perm q := sortLoop_perm _ _ q

end Sorting

/-! ## Writing -/

/-- Consecutive blocks from `b` on. -/
def RunOf (blk : Fin n → Nat) : Nat → List (Fin n) → Prop
  | _, [] => True
  | b, i :: q => blk i = b ∧ RunOf blk (b + 1) q

variable {q : List (Fin n)}

theorem RunOf.le {blk : Fin n → Nat} {b : Nat} (h : RunOf blk b q) : ∀ i ∈ q, b ≤ blk i := by
  induction q generalizing b with
  | nil => simp
  | cons k q ih =>
    intro i hi
    rcases mem_cons.mp hi with rfl | hi
    · exact h.1.ge
    · exact Nat.le_of_succ_le (ih h.2 i hi)

/-- The blocks of one transfer are consecutive. -/
theorem runOf_take (c : Cache n α) (b : Nat) :
    ∀ (j : Nat) (q : List (Fin n)), RunOf c.bBlocknr (b + j) (q.take (c.runLength b j q))
  | _, [] => trivial
  | j, i :: q => by
    unfold runLength
    split
    · next h =>
      rw [take_succ_cons]
      exact ⟨h.2, runOf_take c b (j + 1) q⟩
    · exact trivial

theorem runLength_pos (c : Cache n α) (i : Fin n) (q : List (Fin n)) :
    0 < c.runLength (c.bBlocknr i) 0 (i :: q) := by
  unfold runLength
  rw [if_pos ⟨by decide, rfl⟩]
  exact Nat.succ_pos _

/-- The buffers `q` have been written to `dev`: their blocks hold their contents, they are clean, and nothing else has
changed. -/
structure Wrote (dev : Nat) (q : List (Fin n)) (c c' : Cache n α) : Prop where
  cleaned : Cleaned c c'
  stored : ∀ i ∈ q, c'.disk dev (c.bBlocknr i) = c.bData i
  kept : ∀ d b, (d = dev → ∀ i ∈ q, c.bBlocknr i ≠ b) → c'.disk d b = c.disk d b
  clean : ∀ i ∈ q, c'.bDirt i = false
  dirt : ∀ i, i ∉ q → c'.bDirt i = c.bDirt i

theorem Wrote.refl (dev : Nat) (c : Cache n α) : Wrote dev [] c c :=
  ⟨.refl c, by simp, fun _ _ _ => rfl, by simp, fun _ _ => rfl⟩

theorem Wrote.append {dev : Nat} {q' : List (Fin n)} {c'' : Cache n α} (h : Wrote dev q c c')
    (h' : Wrote dev q' c' c'') (hd : ∀ i ∈ q, ∀ j ∈ q', c.bBlocknr i = c.bBlocknr j → i = j) :
    Wrote dev (q ++ q') c c'' := by
  obtain ⟨d, t, rfl⟩ := h.cleaned
  refine ⟨h.cleaned.trans h'.cleaned, ?_, ?_, ?_, ?_⟩
  · intro i hi
    by_cases hi' : i ∈ q'
    · exact h'.stored i hi'
    · have hiq := (mem_append.mp hi).resolve_right hi'
      rw [h'.kept dev _ fun _ j hj e => hi' (hd i hiq j hj e.symm ▸ hj)]
      exact h.stored i hiq
  · intro e b hb
    rw [h'.kept e b fun he i hi => hb he i (mem_append_right _ hi)]
    exact h.kept e b fun he i hi => hb he i (mem_append_left _ hi)
  · intro i hi
    by_cases hi' : i ∈ q'
    · exact h'.clean i hi'
    · rw [h'.dirt i hi']
      exact h.clean i ((mem_append.mp hi).resolve_right hi')
  · intro i hi
    rw [mem_append, not_or] at hi
    rw [h'.dirt i hi.2, h.dirt i hi.1]

theorem Wrote.perm {dev : Nat} {q' : List (Fin n)} (h : Wrote dev q c c') (hp : q.Perm q') : Wrote dev q' c c' := by
  refine ⟨h.cleaned, ?_, ?_, ?_, ?_⟩
  · exact fun i hi => h.stored i (hp.mem_iff.mpr hi)
  · exact fun d b hb => h.kept d b fun e i hi => hb e i (hp.mem_iff.mp hi)
  · exact fun i hi => h.clean i (hp.mem_iff.mpr hi)
  · exact fun i hi => h.dirt i fun hi' => hi (hp.mem_iff.mp hi')

/-- A vectored write stores the content of every buffer of a run. -/
theorem scatter_spec (dev : Nat) : ∀ {q : List (Fin n)} {b : Nat} {c : Cache n α}, RunOf c.bBlocknr b q →
    ∃ d, scatter dev b q c = { c with disk := d } ∧ (∀ i ∈ q, d dev (c.bBlocknr i) = c.bData i) ∧
      ∀ e k, (e = dev → ∀ i ∈ q, c.bBlocknr i ≠ k) → d e k = c.disk e k
  | [], _, c, _ => ⟨c.disk, rfl, by simp, fun _ _ _ => rfl⟩
  | i :: q, b, c, h => by
    obtain ⟨rfl, hq⟩ := h
    obtain ⟨d, hd, hs, hk⟩ := scatter_spec dev (c := c.setDisk dev (c.bBlocknr i) (c.bData i)) hq
    refine ⟨d, hd, ?_, ?_⟩
    · intro j hj
      by_cases hjq : j ∈ q
      · exact hs j hjq
      · obtain rfl := (mem_cons.mp hj).resolve_right hjq
        -- the other blocks of the run come after this one
        rw [hk dev _ fun _ k hkq => Nat.ne_of_gt (RunOf.le hq k hkq)]
        simp [setDisk]
    · intro e k hek
      rw [hk e k fun he j hj => hek he j (mem_cons_of_mem _ hj)]
      simp only [setDisk, update_apply]
      split
      · next he =>
        rw [update_of_ne (Ne.symm (hek he i mem_cons_self)), he]
      · rfl

/-- A column that is set at `k` and then at the buffers of `q`. -/
theorem set_cons {β : Type} {f t v : Fin n → β} {k : Fin n} {q : List (Fin n)} (h1 : ∀ i ∈ q, t i = v i)
    (h2 : ∀ i, i ∉ q → t i = update f k (v k) i) : (∀ i ∈ k :: q, t i = v i) ∧ ∀ i, i ∉ k :: q → t i = f i := by
  simp only [update_apply] at h2
  grind

theorem markClean_spec : ∀ (q : List (Fin n)) (c : Cache n α),
    ∃ t, c.markClean q = { c with bDirt := t } ∧ (∀ i ∈ q, t i = false) ∧ ∀ i, i ∉ q → t i = c.bDirt i
  | [], c => ⟨c.bDirt, rfl, by simp, fun _ _ => rfl⟩
  | k :: q, c => by
    obtain ⟨t, ht, h1, h2⟩ := markClean_spec q { c with bDirt := update c.bDirt k false }
    exact ⟨t, ht, set_cons (v := fun _ => false) h1 h2⟩

theorem scatter_wrote (dev : Nat) {b : Nat} (h : RunOf c.bBlocknr b q) :
    Wrote dev q c ((scatter dev b q c).markClean q) := by
  obtain ⟨d, hd, hs, hk⟩ := scatter_spec dev h
  obtain ⟨t, ht, h1, h2⟩ := markClean_spec q { c with disk := d }
  rw [hd, ht]
  exact ⟨⟨d, t, rfl⟩, hs, hk, h1, h2⟩

theorem writeRuns_wrote (dev : Nat) : ∀ (fuel : Nat) (q : List (Fin n)) (c : Cache n α), q.length ≤ fuel →
    (∀ i ∈ q, ∀ j ∈ q, c.bBlocknr i = c.bBlocknr j → i = j) → Wrote dev q c (writeRuns dev fuel q c)
  | 0, q, c, hf, _ => by
    obtain rfl := length_eq_zero_iff.mp (Nat.le_zero.mp hf)
    exact .refl dev c
  | fuel + 1, [], c, _, _ => .refl dev c
  | fuel + 1, i :: q, c, hf, hd => by
    unfold writeRuns
    have hw := scatter_wrote dev (runOf_take c (c.bBlocknr i) 0 (i :: q))
    rw [Nat.add_zero] at hw
    have hpos := runLength_pos c i q
    generalize hj : c.runLength (c.bBlocknr i) 0 (i :: q) = j at hw hpos ⊢
    obtain ⟨d, t, he⟩ := hw.cleaned
    have hmem : ∀ k, k ∈ (i :: q).drop j → k ∈ i :: q := fun k => mem_of_mem_drop
    have hlen : ((i :: q).drop j).length ≤ fuel := by
      rw [length_drop]
      omega
    have hrest := writeRuns_wrote dev fuel ((i :: q).drop j)
      ((scatter dev (c.bBlocknr i) ((i :: q).take j) c).markClean ((i :: q).take j)) hlen (by
        rw [he]
        exact fun k hk m hm => hd k (hmem k hk) m (hmem m hm))
    have key := hw.append hrest fun k hk m hm => hd k (mem_of_mem_take hk) m (hmem m hm)
    rwa [take_append_drop] at key

theorem scatter_disk (dev : Nat) : ∀ (b : Nat) (q : List (Fin n))
    (c : Cache n α), ∃ d, scatter dev b q c = { c with disk := d }
  | _, [], c => ⟨c.disk, rfl⟩
  | b, i :: q, c => scatter_disk dev (b + 1) q (c.setDisk dev b (c.bData i))

/-- Writing changes the device and the dirty bits only, whatever the queue is, and no block becomes dirty. -/
theorem writeRuns_cleaned (dev : Nat) : ∀ (fuel : Nat) (q : List (Fin n))
    (c : Cache n α), Cleaned c (writeRuns dev fuel q c) ∧
    ∀ i, (writeRuns dev fuel q c).bDirt i = true → c.bDirt i = true
  | 0, _, c => ⟨.refl c, fun _ h => h⟩
  | _ + 1, [], c => ⟨.refl c, fun _ h => h⟩
  | fuel + 1, i :: q, c => by
    unfold writeRuns
    dsimp only
    generalize c.runLength (c.bBlocknr i) 0 (i :: q) = m
    obtain ⟨d, hd⟩ := scatter_disk dev (c.bBlocknr i) ((i :: q).take m) c
    obtain ⟨t, ht, h1, h2⟩ := markClean_spec ((i :: q).take m) { c with disk := d }
    obtain ⟨hc, hdirt⟩ := writeRuns_cleaned dev fuel ((i :: q).drop m) { c with disk := d, bDirt := t }
    rw [hd, ht]
    refine ⟨.trans ⟨d, t, rfl⟩ hc, fun j hj => ?_⟩
    have hj : t j = true := hdirt j hj
    by_cases hm : j ∈ (i :: q).take m
    · rw [h1 j hm] at hj
      cases hj
    · rwa [h2 j hm] at hj

theorem flushall_cleaned (c : Cache n α) (dev : Nat) :
    Cleaned c (c.flushall dev) ∧ ∀ i, (c.flushall dev).bDirt i = true → c.bDirt i = true := writeRuns_cleaned ..

/-- A scattered write writes the buffers of the queue, if no two of them have the same block. -/
theorem rwScattered_wrote (dev : Nat)
    (hd : ∀ i ∈ q, ∀ j ∈ q, c.bBlocknr i = c.bBlocknr j → i = j) : Wrote dev q c (c.rwScattered dev q .writing) := by
  have hp := shellSort_perm c.bBlocknr q
  refine (writeRuns_wrote dev _ _ c le_rfl fun i hi j hj => ?_).perm hp
  exact hd i (hp.mem_iff.mp hi) j (hp.mem_iff.mp hj)

/-- The dirty blocks of a device. -/
def dirtyOf (c : Cache n α) (dev : Nat) : List (Fin n) := (List.finRange n).filter fun i => c.bDirt i && c.bDev i == dev

theorem mem_dirtyOf {dev : Nat} : i ∈ c.dirtyOf dev ↔ c.bDirt i = true ∧ c.bDev i = dev := by simp [dirtyOf]

theorem flushall_wrote (dev : Nat)
    (hd : ∀ i j, c.bDev i = dev → c.bDev i = c.bDev j → c.bBlocknr i = c.bBlocknr j → i = j) :
    Wrote dev (c.dirtyOf dev) c (c.flushall dev) := by
  refine rwScattered_wrote dev fun i hi j hj => hd i j (mem_dirtyOf.mp hi).2 ?_
  rw [(mem_dirtyOf.mp hi).2, (mem_dirtyOf.mp hj).2]

/-! ## Getting a block -/

/-- Only the chains and the use counts have changed. -/
structure SameContent (c c' : Cache n α) : Prop where
  blocknr : c'.bBlocknr = c.bBlocknr
  dev : c'.bDev = c.bDev
  dirt : c'.bDirt = c.bDirt
  data : c'.bData = c.bData
  bytes : c'.bBytes = c.bBytes
  size : c'.fsBlockSize = c.fsBlockSize
  disk : c'.disk = c.disk

theorem hit_content (c : Cache n α) (i : Fin n) : SameContent c (c.hit i) := by
  unfold hit
  split <;> exact ⟨rfl, rfl, rfl, rfl, rfl, rfl, rfl⟩

theorem hit_count (c : Cache n α) (i : Fin n) : (c.hit i).bCount = update c.bCount i ((c.bCount i + 1) % 256) := by
  unfold hit
  split <;> rfl

theorem hit_wf (h : c.Wf) (hi : c.bCount i < 255) : (c.hit i).Wf := by
  have hcount : ∀ j, (c.hit i).bCount j < 256 := by
    intro j
    rw [hit_count, update_apply]
    split
    · exact Nat.mod_lt _ (by decide)
    · exact h.count j
  have hzero : ∀ j, (c.bCount j = 0 ∧ j ≠ i) ↔ (c.hit i).bCount j = 0 := by
    intro j
    rw [hit_count, update_apply]
    split
    · next hj =>
      subst hj
      simp only [ne_eq, not_true_eq_false, and_false, false_iff]
      omega
    · next hj => simp [hj]
  by_cases hz : c.bCount i = 0
  · refine ⟨?_, ?_, hcount⟩
    · rw [hit, if_pos hz]
      exact h.hash
    · refine LruOk.congr ?_ hzero
      rw [hit, if_pos hz]
      exact rmLru_lru h.lru hz
  · refine ⟨?_, ?_, hcount⟩
    · rw [hit, if_neg hz]
      exact h.hash
    · refine LruOk.congr (P := fun j => c.bCount j = 0) ?_ fun j => ?_
      · rw [hit, if_neg hz]
        exact h.lru
      · rw [← hzero]
        exact ⟨fun hj => ⟨hj, fun e => hz (e ▸ hj)⟩, And.left⟩

/-- A block that is not in use has been taken off its chains. -/
structure Taken (c : Cache n α) (i : Fin n) (c' : Cache n α) : Prop where
  free : c.bCount i = 0
  count : c'.bCount = c.bCount
  hash : HashOk c' fun j => j ≠ i
  lru : LruOk c' fun j => c.bCount j = 0 ∧ j ≠ i
  blocknr : c'.bBlocknr = c.bBlocknr
  dev : c'.bDev = c.bDev
  dirt : c'.bDirt = c.bDirt
  size : c'.fsBlockSize = c.fsBlockSize
  disk : c'.disk = c.disk
  bytes : ∀ j, j ≠ i → c'.bBytes j = c.bBytes j
  memory : c.fsBlockSize ≤ c'.bBytes i
  data : ∀ j, c'.bData j = c.bData j ∨ j = i ∧ c.bBytes i < c.fsBlockSize

theorem taken_of_oldest {contig : Option α} (h : c.Wf) (ht : c.takeOldest contig = some (i, c')) :
    ∃ t, (c'.rmLru i).unhash i = some t ∧ Taken c i t := by
  obtain ⟨hfree, b, d, rfl, hb, hmem, hd⟩ := takeOldest_spec h.lru ht
  obtain ⟨hh, nx, hu, hhash⟩ := unhash_spec (c := { c with bBytes := b, bData := d }.rmLru i) h.hash i
  exact ⟨_, hu, hfree, rfl, hhash, rmLru_lru h.lru hfree, rfl, rfl, rfl, rfl, rfl, hb, hmem, hd⟩

/-- A block that is not in the cache gets the place of a block that is not in use. -/
theorem miss_taken {dev block : Nat} {onlySearch : OnlySearch} {contig : Option α} (h : c.Wf)
    (hm : c.miss dev block onlySearch contig = some (i, c')) :
    ∃ t, Taken c i t ∧ c' = ((t.evict i).claim i dev block).fill i dev onlySearch := by
  obtain ⟨⟨k, c1⟩, ht, hm⟩ := bind_eq_some_iff.mp hm
  obtain ⟨c2, hu, hm⟩ := bind_eq_some_iff.mp hm
  cases hm
  obtain ⟨t, hu', htaken⟩ := taken_of_oldest h ht
  cases hu.symm.trans hu'
  exact ⟨_, htaken, rfl⟩

/-- Which buffer is taken does not depend on the block. -/
theorem miss_eq (h : c.Wf) (hi : c.bCount i = 0) (x : α) : ∃ k t, Taken c k t ∧ ∀ dev block onlySearch,
    c.miss dev block onlySearch (some x) = some (k, ((t.evict k).claim k dev block).fill k dev onlySearch) := by
  obtain ⟨⟨k, c1⟩, ht⟩ := isSome_iff_exists.mp (takeOldest_isSome h.lru hi)
  obtain ⟨t, hu, htaken⟩ := taken_of_oldest h ht
  refine ⟨k, t, htaken, fun _ _ _ => ?_⟩
  unfold miss
  rw [ht, bind_eq_bind, bind_some]
  dsimp only
  rw [hu]
  rfl

theorem miss_isSome {dev block : Nat} {onlySearch : OnlySearch} {x : α} (h : c.Wf) (hi : c.bCount i = 0) :
    (c.miss dev block onlySearch (some x)).isSome = true := by
  obtain ⟨k, t, -, hm⟩ := miss_eq h hi x
  rw [hm]
  rfl

theorem evict_cleaned (c : Cache n α) (i : Fin n) : Cleaned c (c.evict i) := by
  unfold evict
  split
  · exact (flushall_cleaned c _).1
  · exact .refl c

theorem fill_wf (h : c.Wf) (i : Fin n) (dev : Nat) (onlySearch : OnlySearch) : (c.fill i dev onlySearch).Wf := by
  unfold fill
  split
  · exact h
  · cases onlySearch with
    | prefetch => exact ⟨h.hash, h.lru, h.count⟩
    | noRead => exact h
    | normal =>
      show (c.rwBlock i .reading).Wf
      by_cases hi : c.bDev i = noDev
      · rw [rwBlock, if_pos hi]
        exact ⟨h.hash, h.lru, h.count⟩
      · rw [rwBlock, if_neg hi]
        exact ⟨h.hash, h.lru, h.count⟩

theorem claim_wf {t t' : Cache n α} (h : c.Wf) (ht : Taken c i t) (hc : Cleaned t t') (dev block : Nat) :
    (t'.claim i dev block).Wf := by
  obtain ⟨d, u, rfl⟩ := hc
  have hcount : update t.bCount i ((t.bCount i + 1) % 256) = update c.bCount i 1 := by
    rw [ht.count, ht.free]
  refine ⟨claim_hash ht.hash dev block, ?_, ?_⟩
  · refine LruOk.congr ht.lru fun j => ?_
    show _ ↔ update t.bCount i ((t.bCount i + 1) % 256) j = 0
    rw [hcount, update_apply]
    split <;> simp [*]
  · intro j
    show update t.bCount i ((t.bCount i + 1) % 256) j < 256
    rw [hcount, update_apply]
    split
    · decide
    · exact h.count j

section Pool

variable (disk : Nat → Nat → α) (data : Fin n → α) (fsBlockSize : Nat)

theorem bufPool_forward (k : Nat) (hk : k ≤ n) :
    Chain (bufPool disk data fsBlockSize).bNext
    (if h : k < n then some ⟨k, h⟩ else none) ((List.finRange n).drop k) := by
  induction hk using Nat.decreasingInduction with
  | self =>
    rw [drop_eq_nil_of_le (by simp), dif_neg (Nat.lt_irrefl n)]
    rfl
  | of_succ k hk ih =>
    rw [drop_eq_getElem_cons (by simpa using hk), dif_pos hk]
    refine ⟨by simp, ?_⟩
    simp only [getElem_finRange]
    exact ih

theorem bufPool_backward (k : Nat) (hk : k ≤ n) :
    Chain (bufPool disk data fsBlockSize).bPrev (if h : 0 < k then some ⟨k - 1, by omega⟩ else none)
      ((List.finRange n).take k).reverse := by
  induction k with
  | zero => simp
  | succ k ih =>
    rw [take_succ_eq_append_getElem (by simpa using hk), reverse_append, dif_pos (Nat.succ_pos k)]
    refine ⟨by simp, ?_⟩
    have hp : (bufPool disk data fsBlockSize).bPrev ⟨k, hk⟩ = if h : 0 < k then some ⟨k - 1, by omega⟩ else none := rfl
    simp only [getElem_finRange, Fin.cast_mk, hp]
    exact ih (Nat.le_of_succ_le hk)

theorem bufPool_wf : (bufPool disk data fsBlockSize).Wf := by
  have hf := bufPool_forward disk data fsBlockSize 0 (Nat.zero_le n)
  have hb := bufPool_backward disk data fsBlockSize n le_rfl
  rw [drop_zero] at hf
  rw [take_of_length_le (by simp)] at hb
  refine ⟨?_, ⟨List.finRange n, ⟨hf, ?_, nodup_finRange n⟩, ?_, ?_⟩, fun _ => Nat.succ_pos 255⟩
  · intro h hh
    rcases Nat.eq_zero_or_pos h with rfl | hpos
    · exact ⟨List.finRange n, hf, nodup_finRange n, fun i => by simp [bufPool, hash, noBlock]⟩
    · refine ⟨[], ?_, nodup_nil, fun i => ?_⟩
      · simp [bufPool, Nat.ne_of_gt hpos]
      · simp [bufPool, hash, noBlock, Nat.ne_of_lt hpos]
  · exact hb
  · simp [bufPool]
  · simp [bufPool]

end Pool

end Minix.Mfs.Cache
