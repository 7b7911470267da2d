import Minix.Mfs.Coherence

/-!
# Scattered transfers with a device that may fail

`rw_scattered` (`mfs/cache.c`) for a device that transfers as many blocks of each request as it likes, and answers what
it likes.

* `shellSort_sorted`: the last pass of the Shell sort, with gap 1, leaves the queue in order.
* `writeLoop_spec`: the loop of a write ends, and the buffers that are clean then are those that the device has written.
* `rwScatteredWith_all`: a device that never fails is the one of `rwScattered`.
* `scattered_transfers`: all of `rw_scattered`.
-/

namespace Minix.Mfs.Cache

open Minix.Lib List Function

/-! ## The sort -/

section Sorting

variable {β : Type} {key : β → Nat} {q : List β} {i j : Nat}

/-- The first `j` elements are in order, but for the element at place `i` and those before it. -/
def OrderedBut (key : β → Nat) (q : List β) (i j : Nat) : Prop :=
  ∀ a b x y, a < b → b < j → b ≠ i → q[a]? = some x → q[b]? = some y → key x ≤ key y

theorem swap_getElem? {x y : β} (hx : q[i]? = some x) (hy : q[j]? = some y) (k : Nat) :
    (swap q i j)[k]? = if k = j then some x else if k = i then some y else q[k]? := by
  have hi := (List.getElem?_eq_some_iff.mp hx).1
  have hj := (List.getElem?_eq_some_iff.mp hy).1
  simp only [swap, hx, hy, getElem?_set, length_set]
  grind

/-- The element at place `i` goes down to its place. -/
theorem siftDown_ordered : ∀ (fuel i : Nat) (q : List β), i < fuel → i < j → j ≤ q.length → OrderedBut key q i j →
    OrderedBut key (siftDown key 1 fuel i q) 0 j
  | fuel + 1, i, q, hf, hij, hj, h => by
    unfold siftDown
    by_cases hi : i < 1
    · obtain rfl : i = 0 := by omega
      exact h
    · have hx := getElem?_eq_getElem (l := q) (i := i - 1) (by omega)
      have hy := getElem?_eq_getElem (l := q) (i := i) (by omega)
      rw [if_neg hi, hx, hy]
      dsimp only
      split
      · refine siftDown_ordered fuel (i - 1) _ (by omega) (by omega) (by rwa [(swap_perm q _ _).length_eq]) ?_
        intro a b x y hab hbj hbi ha hb
        rw [swap_getElem? hx hy] at ha hb
        grind [OrderedBut]
      · intro a b x y hab hbj _ ha hb
        by_cases hbi : b = i
        · have hle : a ≠ i - 1 → key x ≤ key q[i - 1] :=
            fun hne => h a (i - 1) _ _ (by omega) (by omega) (by omega) ha hx
          grind
        · exact h a b x y hab hbj hbi ha hb

theorem sortPass_ordered (m : Nat) : ∀ (j : Nat) (q : List β), 0 < j → j + m = q.length → OrderedBut key q 0 j →
    OrderedBut key ((range' j m).foldl (fun q j => siftDown key 1 (j + 1) j q) q) 0 q.length := by
  induction m with
  | zero =>
    intro j q _ hj h
    exact hj ▸ h
  | succ m ih =>
    intro j q h0 hj h
    have hlen := (@siftDown_perm _ key 1 (j + 1) j q).length_eq
    rw [range'_succ, foldl_cons, ← hlen]
    refine ih (j + 1) _ (by omega) (by omega) ?_
    refine siftDown_ordered (j + 1) j q (by omega) (by omega) (by omega) fun a b x y hab hb hbj => ?_
    exact h a b x y hab (by omega) (by omega)

/-- The elements are in order. -/
def Sorted (key : β → Nat) (q : List β) : Prop := q.Pairwise fun x y => key x ≤ key y

theorem sortPass_sorted (q : List β) : Sorted key (sortPass key 1 q) := by
  have hlen := (@sortPass_perm _ key 1 q).length_eq
  have h : OrderedBut key (sortPass key 1 q) 0 (sortPass key 1 q).length := by
    rw [hlen]
    by_cases hq : q = []
    · subst hq
      exact fun a b x y hab hb => absurd hb (Nat.not_lt_zero b)
    · have := length_pos_iff.mpr hq
      exact sortPass_ordered (q.length - 1) 1 q (by omega) (by omega) fun a b x y hab hb => by omega
  refine pairwise_iff_getElem.mpr fun a b ha hb hab => ?_
  exact h a b _ _ hab hb (by omega) (getElem?_eq_getElem ha) (getElem?_eq_getElem hb)

/-- The gaps of the sort: 1, 4, 13 and so on. -/
inductive Gap : Nat → Prop
  | one : Gap 1
  | next {g : Nat} (h : Gap g) : Gap (3 * g + 1)

theorem firstGap_gap (size : Nat) : ∀ (fuel : Nat) {g : Nat}, Gap g → ∃ g', Gap g' ∧
    firstGap size (fuel + 1) g = 3 * g' + 1
  | 0, g, h => ⟨g, h, ite_self _⟩
  | fuel + 1, g, h => by
    unfold firstGap
    split
    · exact firstGap_gap size fuel h.next
    · exact ⟨g, h, rfl⟩

theorem sortLoop_sorted {g : Nat} (h : Gap g) : ∀ (fuel : Nat) (q : List β), g < fuel →
    Sorted key (sortLoop key fuel (3 * g + 1) q) := by
  induction h with
  | one =>
    intro fuel q hf
    obtain ⟨fuel, rfl⟩ : ∃ k, fuel = k + 2 := ⟨fuel - 2, by omega⟩
    exact sortPass_sorted q
  | @next g h ih =>
    intro fuel q hf
    obtain ⟨fuel, rfl⟩ : ∃ k, fuel = k + 1 := ⟨fuel - 1, by omega⟩
    have hg : (3 * (3 * g + 1) + 1) / 3 = 3 * g + 1 := by omega
    rw [sortLoop, if_neg (by omega), hg]
    exact ih fuel _ (by omega)

theorem shellSort_sorted (key : β → Nat) (q : List β) : Sorted key (shellSort key q) := by
  obtain ⟨g, hg, he⟩ := firstGap_gap q.length q.length .one
  unfold shellSort
  rw [he]
  exact sortLoop_sorted hg _ q (by omega)

end Sorting

/-! ## The transfers -/

variable {n : Nat} {α : Type}

/-- What the device answers to a request: how many blocks it has transferred, and whether the result is an error. -/
structure Answer where
  blocks : Nat
  error : Bool

/-- The first block of a request was not transferred: it is invalidated if there is an error. -/
def failed (c : Cache n α) (a : Answer) (i : Fin n) : Cache n α :=
  if a.error then { c with bDev := update c.bDev i noDev } else c

/-- The loop of `rw_scattered` that writes a sorted queue, and the buffers that the device has written. -/
def writeLoop (dev : Nat) (ans : Nat → Answer) : Nat → Nat → List (Fin n) → Cache n α →
    Option (Cache n α × List (Fin n))
  | _, _, [], c => some (c, [])
  | 0, _, _ :: _, _ => none
  | fuel + 1, call, i :: q, c =>
    let k := min (ans call).blocks (c.runLength (c.bBlocknr i) 0 (i :: q))
    let c := (scatter dev (c.bBlocknr i) ((i :: q).take k) c).markClean ((i :: q).take k)
    -- we are not making progress
    if k = 0 then some (c.failed (ans call) i, [])
    else (writeLoop dev ans fuel (call + 1) ((i :: q).drop k) c).map fun x => (x.1, (i :: q).take k ++ x.2)

/-- The request of `rw_scattered` that reads from a sorted queue, and the buffers that the device has read. -/
def readOnce (dev : Nat) (a : Answer) : List (Fin n) → Cache n α → Cache n α × List (Fin n)
  | [], c => (c, [])
  | i :: q, c =>
    let k := min a.blocks (c.runLength (c.bBlocknr i) 0 (i :: q))
    let c := (gather dev (c.bBlocknr i) ((i :: q).take k) c).validate dev ((i :: q).take k)
    ((if k = 0 then c.failed a i else c).release ((i :: q).drop k), (i :: q).take k)

/-- `rw_scattered(dev, bufq, bufqsize, rw_flag)`, with the answers of the device. -/
def rwScatteredWith (c : Cache n α) (dev : Nat) (ans : Nat → Answer) (bufq : List (Fin n)) :
    RwFlag → Option (Cache n α × List (Fin n))
  | .reading => some (readOnce dev (ans 0) (shellSort c.bBlocknr bufq) c)
  | .writing => writeLoop dev ans bufq.length 0 (shellSort c.bBlocknr bufq) c

theorem runLength_le (c : Cache n α) (b : Nat) : ∀ (j : Nat) (q : List (Fin n)), j ≤ nrIoreqs →
    j + c.runLength b j q ≤ nrIoreqs
  | _, [], h => h
  | j, i :: q, h => by
    unfold runLength
    split
    · next hj =>
      have := runLength_le c b (j + 1) q hj.1
      omega
    · exact h

/-- A device that transfers all that it is asked to is the device of `rwScattered`. -/
theorem rwScatteredWith_all (dev : Nat) {ans : Nat → Answer} (hans : ∀ k, nrIoreqs ≤ (ans k).blocks)
    (bufq : List (Fin n))
    (c : Cache n α) : ∀ f, (c.rwScatteredWith dev ans bufq f).map Prod.fst = some (c.rwScattered dev bufq f) := by
  have hmin : ∀ (k : Nat) (c : Cache n α) (i : Fin n) (q : List (Fin n)),
      min (ans k).blocks (c.runLength (c.bBlocknr i) 0 (i :: q)) = c.runLength (c.bBlocknr i) 0 (i :: q) := by
    intro k c i q
    have := runLength_le c (c.bBlocknr i) 0 (i :: q) (Nat.zero_le _)
    have := hans k
    omega
  have hwrite : ∀ (fuel call : Nat) (q : List (Fin n)) (c : Cache n α), q.length ≤ fuel →
      (writeLoop dev ans fuel call q c).map Prod.fst = some (writeRuns dev fuel q c) := by
    intro fuel
    induction fuel with
    | zero =>
      intro call q c hq
      obtain rfl := length_eq_zero_iff.mp (Nat.le_zero.mp hq)
      rfl
    | succ fuel ih =>
      intro call q c hq
      cases q with
      | nil => rfl
      | cons i q =>
        have hpos := runLength_pos c i q
        unfold writeLoop writeRuns
        dsimp only
        rw [hmin, if_neg (by omega), Option.map_map, ← ih (call + 1) _ _ (by simp at hq ⊢; omega)]
        rfl
  intro f
  cases f with
  | reading =>
    unfold rwScatteredWith rwScattered
    cases shellSort c.bBlocknr bufq with
    | nil => rfl
    | cons i q =>
      have hpos := runLength_pos c i q
      dsimp only [readOnce, readRun]
      rw [hmin, if_neg (by omega)]
      rfl
  | writing =>
    have hlen := (shellSort_perm c.bBlocknr bufq).length_eq
    dsimp only [rwScattered]
    rw [hlen]
    exact hwrite _ 0 _ c hlen.le

/-- Dirty buffers for the blocks 7, 5, 6 and 9 of a device, in two runs. -/
def twoRuns : Cache 4 Nat :=
  { bufPool (fun _ b => b) (fun i => i) 1 with bBlocknr := ![7, 5, 6, 9], bDev := fun _ => 1, bDirt := fun _ => true }

theorem rwScatteredWith_all_twoRuns :
    (twoRuns.rwScatteredWith 1 (fun _ => ⟨64, true⟩) [0, 1, 2, 3] .writing).map Prod.fst =
    some (twoRuns.rwScattered 1 [0, 1, 2, 3] .writing) :=
  rwScatteredWith_all 1 (fun _ => by decide) _ _ _

/-! ## What the device reports -/

/-- The queue is `t ++ r`, and the next request is for `t`: consecutive blocks, at most `NR_IOREQS`, and otherwise as
many as there are. -/
structure NextRun (blk : Fin n → Nat) (t r : List (Fin n)) : Prop where
  length_le : t.length ≤ nrIoreqs
  longest : ∃ b, t ≠ [] ∧ RunOf blk b t ∧ (t.length = nrIoreqs ∨ ∀ i ∈ r.head?, blk i ≠ b + t.length)

/-- The buffers of a sorted queue whose blocks the device reports as written, from request `call` on: as many of each
request as it answers, until it answers none. -/
inductive Reported (blk : Fin n → Nat) (ans : Nat → Answer) : Nat → List (Fin n) → List (Fin n) → Prop
  | nil {call : Nat} : Reported blk ans call [] []
  | stop {call : Nat} {t r : List (Fin n)} (ht : NextRun blk t r) (h0 : (ans call).blocks = 0) :
      Reported blk ans call (t ++ r) []
  | next {call : Nat} {t r w : List (Fin n)} (ht : NextRun blk t r) (h0 : (ans call).blocks ≠ 0)
      (hw : Reported blk ans (call + 1) (t.drop (ans call).blocks ++ r) w) :
      Reported blk ans call (t ++ r) (t.take (ans call).blocks ++ w)

/-- The buffers `w` of a queue `q` have been written to `dev`: they are the ones that are clean now, and their blocks,
and no others, have their contents. -/
structure Written (dev : Nat) (q w : List (Fin n)) (c c' : Cache n α) : Prop where
  dirt : ∀ i, c'.bDirt i = if i ∈ w then false else c.bDirt i
  stored : (∀ i ∈ q, ∀ j ∈ q, c.bBlocknr i = c.bBlocknr j → i = j) → ∀ i ∈ w, c'.disk dev (c.bBlocknr i) = c.bData i
  kept : ∀ d b, (d = dev → ∀ i ∈ w, c.bBlocknr i ≠ b) → c'.disk d b = c.disk d b

theorem runLength_le_length (c : Cache n α) (b : Nat) : ∀ (j : Nat) (q : List (Fin n)), c.runLength b j q ≤ q.length
  | _, [] => le_rfl
  | j, i :: q => by
    unfold runLength
    split
    · exact Nat.succ_le_succ (runLength_le_length c b (j + 1) q)
    · exact Nat.zero_le _

/-- What is left of a queue when the first `a` of a run of `m` are done. -/
theorem drop_min (l : List (Fin n)) (a m : Nat) : l.drop (min a m) = (l.take m).drop a ++ l.drop m := by
  rcases le_total a m with h | h
  · rw [min_eq_left h, drop_take]
    conv_lhs => rw [← take_append_drop (m - a) (l.drop a)]
    rw [drop_drop, Nat.add_sub_cancel' h]
  · rw [min_eq_right h, drop_eq_nil_of_le ((length_take_le m l).trans h), nil_append]

theorem runLength_longest (c : Cache n α) (b : Nat) : ∀ (j : Nat) (q : List (Fin n)), j + c.runLength b j q < nrIoreqs →
    ∀ i ∈ (q.drop (c.runLength b j q)).head?, c.bBlocknr i ≠ b + (j + c.runLength b j q)
  | _, [], _ => by simp
  | j, k :: q, h => by
    unfold runLength at h ⊢
    split at h
    · next hj =>
      have ih := runLength_longest c b (j + 1) q (by omega)
      rw [if_pos hj, drop_succ_cons]
      intro i hi
      have := ih i hi
      omega
    · next hj =>
      rw [if_neg hj]
      intro i hi
      obtain rfl : k = i := by simpa using hi
      exact fun hb => hj ⟨h, hb⟩

/-- The run that a round of `rw_scattered` finds is the next request. -/
theorem nextRun_take (c : Cache n α) (i : Fin n) (q : List (Fin n)) :
    NextRun c.bBlocknr ((i :: q).take (c.runLength (c.bBlocknr i) 0 (i :: q)))
      ((i :: q).drop (c.runLength (c.bBlocknr i) 0 (i :: q))) := by
  have hrun := runOf_take c (c.bBlocknr i) 0 (i :: q)
  have hpos := runLength_pos c i q
  have hle := runLength_le c (c.bBlocknr i) 0 (i :: q) (Nat.zero_le _)
  have hlong := runLength_longest c (c.bBlocknr i) 0 (i :: q)
  have hlen := c.runLength_le_length (c.bBlocknr i) 0 (i :: q)
  generalize c.runLength (c.bBlocknr i) 0 (i :: q) = k at hrun hpos hle hlong hlen ⊢
  have hk : ((i :: q).take k).length = k := by
    rw [length_take]
    omega
  rw [Nat.zero_add] at hle hlong
  refine ⟨by omega, c.bBlocknr i, ?_, by simpa using hrun, ?_⟩
  · exact fun h => by simp [h] at hk; omega
  · rw [hk]
    rcases Nat.lt_or_eq_of_le hle with hlt | heq
    · exact .inr (hlong hlt)
    · exact .inl heq

theorem RunOf.take {blk : Fin n → Nat} : ∀ {b : Nat} {q : List (Fin n)} (k : Nat), RunOf blk b q →
    RunOf blk b (q.take k)
  | _, _, 0, _ => trivial
  | _, [], _ + 1, _ => trivial
  | _, _ :: _, k + 1, h => ⟨h.1, RunOf.take k h.2⟩

/-- The first part of a queue has been written, and then what the device reports of the rest. -/
theorem Wrote.written {dev : Nat} {q t w : List (Fin n)} {c c1 c' : Cache n α} (h : Wrote dev t c c1)
    (h' : Written dev q w c1 c') (ht : t ⊆ q) (hw : w ⊆ q) : Written dev q (t ++ w) c c' := by
  obtain ⟨d, u, rfl⟩ := h.cleaned
  refine ⟨fun i => ?_, fun hd i hi => ?_, fun e b hb => ?_⟩
  · rw [h'.dirt i]
    by_cases hiw : i ∈ w
    · simp [hiw]
    · by_cases hit : i ∈ t
      · simpa [hiw, hit] using h.clean i hit
      · simpa [hiw, hit] using h.dirt i hit
  · by_cases hiw : i ∈ w
    · exact h'.stored hd i hiw
    · have hit := (mem_append.mp hi).resolve_right hiw
      rw [h'.kept dev _ fun _ j hj e => hiw (hd i (ht hit) j (hw hj) e.symm ▸ hj)]
      exact h.stored i hit
  · rw [h'.kept e b fun he i hi => hb he i (mem_append_right _ hi)]
    exact h.kept e b fun he i hi => hb he i (mem_append_left _ hi)

/-- The loop writes what the driver reports, in order, and nothing else. -/
theorem writeLoop_spec (dev : Nat) (ans : Nat → Answer) {q0 : List (Fin n)} : ∀ (fuel call : Nat) (q : List (Fin n))
    (c : Cache n α), q.length ≤ fuel → q ⊆ q0 → ∃ c' w, writeLoop dev ans fuel call q c = some (c', w) ∧
      Reported c.bBlocknr ans call q w ∧ w <+: q ∧ Written dev q0 w c c' := by
  intro fuel
  induction fuel with
  | zero =>
    intro call q c hq _
    obtain rfl := length_eq_zero_iff.mp (Nat.le_zero.mp hq)
    exact ⟨c, [], rfl, .nil, nil_prefix, fun i => by simp, by simp, fun _ _ _ => rfl⟩
  | succ fuel ih =>
    intro call q c hq hsub
    cases q with
    | nil => exact ⟨c, [], rfl, .nil, nil_prefix, fun i => by simp, by simp, fun _ _ _ => rfl⟩
    | cons i q =>
      have hnext := nextRun_take c i q
      have hrun := runOf_take c (c.bBlocknr i) 0 (i :: q)
      unfold writeLoop
      dsimp only
      have hpos := runLength_pos c i q
      generalize c.runLength (c.bBlocknr i) 0 (i :: q) = m at hnext hrun hpos ⊢
      have hsplit := take_append_drop m (i :: q)
      have htake : ((i :: q).take m).take (ans call).blocks = (i :: q).take (min (ans call).blocks m) := take_take
      have hwrote := scatter_wrote dev (hrun.take (ans call).blocks)
      rw [Nat.add_zero, htake] at hwrote
      split
      · next hk =>
        have h0 : (ans call).blocks = 0 := by omega
        rw [hk, take_zero] at hwrote ⊢
        refine ⟨_, [], rfl, hsplit ▸ .stop hnext h0, nil_prefix, fun j => ?_, by simp, fun d b _ => ?_⟩
        · unfold failed
          split <;> simpa using hwrote.dirt j (by simp)
        · unfold failed
          split <;> exact hwrote.kept d b (by simp)
      · next hk =>
        have hlen : ((i :: q).drop (min (ans call).blocks m)).length ≤ fuel := by
          rw [length_drop]
          omega
        have hrest := drop_subset (min (ans call).blocks m) (i :: q)
        obtain ⟨c', w, hw, hrep, hpre, hc'⟩ := ih (call + 1) _ _ hlen (List.Subset.trans hrest hsub)
        refine ⟨c', (i :: q).take (min (ans call).blocks m) ++ w, by rw [hw]; rfl, ?_, ?_, ?_⟩
        · have hblk : ((scatter dev (c.bBlocknr i) ((i :: q).take (min (ans call).blocks m)) c).markClean
              ((i :: q).take (min (ans call).blocks m))).bBlocknr = c.bBlocknr := by
            obtain ⟨d, u, he⟩ := hwrote.cleaned
            rw [he]
          rw [hblk, drop_min] at hrep
          have := Reported.next hnext (by omega) hrep
          rwa [hsplit, htake] at this
        · obtain ⟨l, hl⟩ := hpre
          exact ⟨l, by rw [append_assoc, hl, take_append_drop]⟩
        · exact hwrote.written hc' (List.Subset.trans (take_subset _ _) hsub)
            (List.Subset.trans hpre.subset (List.Subset.trans hrest hsub))

theorem release_bDev : ∀ (q : List (Fin n)) (c : Cache n α), (c.release q).bDev = c.bDev
  | [], _ => rfl
  | i :: q, c => (release_bDev q _).trans (putBlock_frame c i partialDataBlock).1

theorem validate_bDev (dev : Nat) : ∀ (q : List (Fin n)) (c : Cache n α) (i : Fin n),
    (c.validate dev q).bDev i = if i ∈ q then dev else c.bDev i
  | [], _, _ => by simp [validate]
  | k :: q, c, i => by
    have hq := validate_bDev dev q ({ c with bDev := update c.bDev k dev }.putBlock k partialDataBlock) i
    refine hq.trans ?_
    rw [(putBlock_frame ..).1]
    by_cases hi : i = k <;> by_cases hiq : i ∈ q <;> simp [hi, hiq]

theorem release_bData : ∀ (q : List (Fin n)) (c : Cache n α), (c.release q).bData = c.bData
  | [], _ => rfl
  | i :: q, c => (release_bData q _).trans (putBlock_frame c i partialDataBlock).2.2.1

theorem validate_bData (dev : Nat) : ∀ (q : List (Fin n)) (c : Cache n α), (c.validate dev q).bData = c.bData
  | [], _ => rfl
  | _ :: q, _ => (validate_bData dev q _).trans (putBlock_frame ..).2.2.1

theorem failed_bData (c : Cache n α) (a : Answer) (i : Fin n) : (c.failed a i).bData = c.bData := by
  unfold failed
  split <;> rfl

/-- The buffers `t` of a queue have been read from `dev`: they are the ones that are valid now, and they have the
contents of their blocks. -/
structure Read (dev : Nat) (q t : List (Fin n)) (c c' : Cache n α) : Prop where
  valid : (∀ i ∈ q, c.bDev i ≠ dev) → ∀ i ∈ q, c'.bDev i = dev ↔ i ∈ t
  filled : ∀ i ∈ t, c'.bData i = c.disk dev (c.bBlocknr i)
  kept : ∀ i, i ∉ t → c'.bData i = c.bData i

/-- One run of blocks is read, as far as the driver reports. -/
theorem readOnce_spec {dev : Nat} (hd : dev ≠ noDev) (a : Answer) (k : Fin n) (q : List (Fin n)) (c : Cache n α) :
    ∃ t r, k :: q = t ++ r ∧ NextRun c.bBlocknr t r ∧ (readOnce dev a (k :: q) c).2 = t.take a.blocks ∧
      Read dev (k :: q) (t.take a.blocks) c (readOnce dev a (k :: q) c).1 := by
  have hrun := runOf_take c (c.bBlocknr k) 0 (k :: q)
  refine ⟨_, _, (take_append_drop _ _).symm, nextRun_take c k q, take_take.symm, ?_⟩
  unfold readOnce
  dsimp only
  generalize c.runLength (c.bBlocknr k) 0 (k :: q) = m at hrun ⊢
  have htake : ((k :: q).take m).take a.blocks = (k :: q).take (min a.blocks m) := take_take
  obtain ⟨u, hg, hin, hout⟩ := gather_spec dev (hrun.take a.blocks)
  rw [htake] at hg hin hout ⊢
  rw [Nat.add_zero] at hg
  rw [hg]
  generalize hl : (k :: q).take (min a.blocks m) = t at hin hout ⊢
  have hdata : ∀ d : Cache n α, d.bData = u → Read dev [] t c d :=
    fun d hu => ⟨by simp, fun i hi => by rw [hu, hin i hi], fun i hi => by rw [hu, hout i hi]⟩
  have hu := hdata ((if min a.blocks m = 0 then ({ c with bData := u }.validate dev t).failed a k
    else { c with bData := u }.validate dev t).release ((k :: q).drop (min a.blocks m))) (by
      rw [release_bData]
      split
      · rw [failed_bData, validate_bData]
      · rw [validate_bData])
  refine ⟨fun hq i hi => ?_, hu.filled, hu.kept⟩
  rw [release_bDev]
  have hv := validate_bDev dev t { c with bData := u } i
  have hread : (if i ∈ t then dev else c.bDev i) = dev ↔ i ∈ t := by
    split
    · next h => exact iff_of_true rfl h
    · next h => exact iff_of_false (hq i hi) h
  split
  · next hm =>
    rw [hm, take_zero] at hl
    subst hl
    unfold failed
    split
    · by_cases hik : i = k
      · subst hik
        simpa using hd.symm
      · rw [← hread, ← hv]
        simp [hik]
    · rw [hv, hread]
  · rw [hv, hread]

/-- **Scattered transfers.** Whatever the device transfers and answers, the sort puts the queue in order and both
directions end. The buffers that a write makes clean are those that the device reports as written, none of them twice,
and their blocks have their contents. The buffers that a read makes valid are those of its request that the device
reports as read, and they have the contents of their blocks. -/
theorem scattered_transfers (c : Cache n α) (dev : Nat) (ans : Nat → Answer) (bufq : List (Fin n)) :
    ((shellSort c.bBlocknr bufq).Perm bufq ∧ Sorted c.bBlocknr (shellSort c.bBlocknr bufq)) ∧
    (∃ c' written, c.rwScatteredWith dev ans bufq .writing = some (c', written) ∧
      Reported c.bBlocknr ans 0 (shellSort c.bBlocknr bufq) written ∧ Written dev bufq written c c' ∧ written ⊆ bufq ∧
      (bufq.Nodup → written.Nodup) ∧ ((bufq.map c.bBlocknr).Nodup → (written.map c.bBlocknr).Nodup)) ∧
    (dev ≠ noDev → bufq ≠ [] →
      ∃ c' t r, shellSort c.bBlocknr bufq = t ++ r ∧ NextRun c.bBlocknr t r ∧
        c.rwScatteredWith dev ans bufq .reading = some (c', t.take (ans 0).blocks) ∧
        Read dev bufq (t.take (ans 0).blocks) c c') := by
  have hperm := shellSort_perm c.bBlocknr bufq
  refine ⟨⟨hperm, shellSort_sorted ..⟩, ?_, fun hd hne => ?_⟩
  · obtain ⟨c', w, hw, hrep, hpre, hwritten⟩ :=
      writeLoop_spec dev ans bufq.length 0 (shellSort c.bBlocknr bufq) c hperm.length_eq.le hperm.subset
    refine ⟨c', w, hw, hrep, hwritten, fun i hi => hperm.subset (hpre.subset hi), fun hn => ?_, fun hn => ?_⟩
    · exact (hperm.nodup_iff.mpr hn).sublist hpre.sublist
    · exact ((hperm.map _).nodup_iff.mpr hn).sublist (hpre.sublist.map _)
  · unfold rwScatteredWith
    cases hs : shellSort c.bBlocknr bufq with
    | nil =>
      rw [hs] at hperm
      exact absurd hperm.symm.eq_nil hne
    | cons k q =>
      obtain ⟨t, r, hsplit, hnext, heq, hread⟩ := readOnce_spec hd (ans 0) k q c
      refine ⟨_, t, r, hsplit, hnext, by rw [← heq], ?_⟩
      refine ⟨fun hq i hi => ?_, hread.filled, hread.kept⟩
      rw [hs] at hperm
      exact hread.valid (fun j hj => hq j (hperm.subset hj)) i (hperm.symm.subset hi)

/-- Three buffers for the blocks 7, 5 and 6 of a device that transfers one block of a request: the second one is read.
-/
theorem scattered_transfers_partial : ∃ c' t r,
    ({ bufPool (fun _ b => b) (fun _ : Fin 3 => 0) 1 with bBlocknr := ![7, 5, 6] }).rwScatteredWith 1
    (fun _ => ⟨1, false⟩)
      [0, 1, 2] .reading = some (c', t.take 1) ∧ t ++ r = [1, 2, 0] ∧ c'.bDev 1 = 1 ∧ c'.bData 1 = 5 := by
  obtain ⟨c', t, r, hs, ⟨-, _, hne, -⟩, hc, hread⟩ := (scattered_transfers
    { bufPool (fun _ b => b) (fun _ : Fin 3 => 0) 1 with bBlocknr := ![7, 5, 6] } 1 (fun _ => ⟨1, false⟩) [0, 1, 2]).2.2
    (by decide) (by decide)
  have hsort : t ++ r = [1, 2, 0] := hs.symm.trans (by decide)
  have hmem : (1 : Fin 3) ∈ t.take 1 := by
    cases t with
    | nil => exact absurd rfl hne
    | cons k t =>
      obtain ⟨rfl, -⟩ := cons.inj hsort
      simp
  exact ⟨c', t, r, hc, hsort, (hread.valid (by decide) 1 (by decide)).mpr hmem, hread.filled 1 hmem⟩

end Minix.Mfs.Cache
