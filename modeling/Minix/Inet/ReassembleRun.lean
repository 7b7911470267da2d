import Minix.Inet.Reassemble

/-!
# Datagrams are handed up when they are complete

`reassemble_of_run`: in every run in which the fragments fit (`StepOk`), `reassemble` hands up each datagram when its
last missing byte arrives, and nothing else.

Otherwise this fails (`reassemble_fails`):
- a fragment that arrives between two others and does not touch the earlier one is lost,
- when a fragment lies within one that has arrived before, only the smaller one is kept,
- the entry of a datagram that was handed up keeps its key, with the time stamp zero: the next datagram with this key is
  too late from the beginning.
-/

namespace Minix.Inet

open Minix.Lib List Option

/-! ## Merging two blocks -/

namespace Block

variable {d : Datagram} {b c : Block d}

section

variable (b)

theorem lo_lt_hi : b.lo < b.hi := by
  have := b.pos
  unfold lo hi
  omega

theorem hi_le : b.hi ≤ d.payload.length := b.inside

theorem dataLen_packet : b.packet.dataLen = b.len := Nat.add_sub_cancel_left ..

theorem offset_packet : b.packet.offset = b.lo := rfl

theorem stop_packet : b.packet.stop = b.hi := by
  rw [Packet.stop, dataLen_packet]
  rfl

theorem length_data : b.packet.data.length = b.len := by
  have := b.inside
  show ((d.payload.drop b.lo).take b.len).length = b.len
  rw [length_take, length_drop]
  unfold lo
  omega

theorem checked : b.packet.Checked := by
  have hlen := b.length_data
  have hmin := b.min_ihl
  constructor
  · show 20 ≤ b.ihl * 4 + b.packet.data.length
    omega
  · show b.ihl * 4 + b.packet.dataLen = b.ihl * 4 + b.packet.data.length
    rw [dataLen_packet, hlen]

end

/-- Two blocks that touch, as one. -/
def join (b c : Block d) (hlo : b.lo ≤ c.lo) : Block d where
  off := b.off
  len := c.hi - b.lo
  ihl := b.ihl
  pos := by
    have := c.lo_lt_hi
    omega
  inside := by
    have := c.lo_lt_hi
    have := c.hi_le
    unfold lo at *
    omega
  min_ihl := b.min_ihl
  le_ihl := b.le_ihl
  first := b.first

theorem lo_join (hlo : b.lo ≤ c.lo) : (b.join c hlo).lo = b.lo := rfl

theorem hi_join (hlo : b.lo ≤ c.lo) : (b.join c hlo).hi = c.hi := by
  have := c.lo_lt_hi
  show b.lo + (c.hi - b.lo) = c.hi
  omega

theorem data_append (hlo : b.lo ≤ c.lo) (ht : c.lo ≤ b.hi) (hhi : b.hi < c.hi) :
    b.packet.data ++ (c.packet.data.drop (b.hi - c.lo)).take (c.hi - b.hi) = (b.join c hlo).packet.data := by
  have hlen : c.hi - b.lo = b.len + (c.hi - b.hi) := by
    unfold hi lo at *
    omega
  have hcut : (((d.payload.drop c.lo).take c.len).drop (b.hi - c.lo)).take (c.hi - b.hi) =
      ((d.payload.drop b.lo).drop b.len).take (c.hi - b.hi) := by
    rw [drop_take, drop_drop, drop_drop, take_take]
    congr 1
    · unfold hi lo at *
      omega
    · congr 1
      unfold hi lo at *
      omega
  show (d.payload.drop b.lo).take b.len ++ (((d.payload.drop c.lo).take c.len).drop (b.hi - c.lo)).take (c.hi - b.hi) =
    (d.payload.drop b.lo).take (c.hi - b.lo)
  rw [hcut, hlen, take_add]

theorem append_packet (hlo : b.lo ≤ c.lo) (ht : c.lo ≤ b.hi) (hhi : b.hi < c.hi) :
    b.packet.append c.packet = (b.join c hlo).packet := by
  have hc := c.hi_le
  have hfits := d.fits
  have hle := b.le_ihl
  have hdata := data_append hlo ht hhi
  have hlen : (b.ihl * 4 + (b.len + (c.hi - b.hi))) % 65536 = b.ihl * 4 + (c.hi - b.lo) := by
    rw [Nat.mod_eq_of_lt]
    · unfold hi lo at *
      omega
    · unfold hi lo at *
      omega
  have hmf : (if c.packet.hdr.mf = false then false else b.packet.hdr.mf) =
      decide ((b.join c hlo).hi ≠ d.payload.length) := by
    show (if decide (c.hi ≠ d.payload.length) = false then false else decide (b.hi ≠ d.payload.length)) = _
    rw [hi_join]
    by_cases hend : c.hi = d.payload.length
    · simp [hend]
    · have hb : b.hi ≠ d.payload.length := by omega
      simp [hend, hb]
  unfold Packet.append
  dsimp only
  rw [stop_packet, stop_packet, offset_packet, dataLen_packet, hdata, hmf]
  show Packet.mk { b.packet.hdr with
    mf := decide ((b.join c hlo).hi ≠ d.payload.length)
    length := (b.ihl * 4 + (b.len + (c.hi - b.hi))) % 65536 } (b.join c hlo).packet.data = _
  rw [hlen]
  rfl

end Block

variable {d : Datagram} {b c : Block d} {rest : List Packet} {e : Ass} {j : AssNr}

open Block

theorem not_before (h : b.lo ≤ c.lo) : ¬c.packet.offset < b.packet.offset := by
  rw [offset_packet, offset_packet]
  omega

theorem mergeFrags_gap (h : b.hi < c.lo) : mergeFrags b.packet c.packet rest = some (b.packet, c.packet :: rest) := by
  have hb := b.lo_lt_hi
  unfold mergeFrags
  rw [if_neg (by simp [checked, not_before (b := b) (c := c) (by omega)]),
    if_pos (by rw [stop_packet, offset_packet]; exact h)]

theorem mergeFrags_within (hlo : b.lo ≤ c.lo) (h : c.hi ≤ b.hi) :
    mergeFrags b.packet c.packet rest = some (c.packet, rest) := by
  have hc := c.lo_lt_hi
  unfold mergeFrags
  rw [if_neg (by simp [checked, not_before hlo]), if_neg (by rw [stop_packet, offset_packet]; omega),
    if_pos (by rw [stop_packet, stop_packet]; exact h)]

theorem mergeFrags_join (hlo : b.lo ≤ c.lo) (ht : c.lo ≤ b.hi) (h : b.hi < c.hi) :
    mergeFrags b.packet c.packet rest = some ((b.join c hlo).packet, rest) := by
  unfold mergeFrags
  rw [if_neg (by simp [checked, not_before hlo]), if_neg (by rw [stop_packet, offset_packet]; omega),
    if_neg (by rw [stop_packet, stop_packet]; omega), append_packet hlo ht h, if_neg]
  rw [not_not, stop_packet, stop_packet, dataLen_packet]
  show b.ihl * 4 + (b.len + (c.hi - b.hi)) = b.ihl * 4 + (b.join c hlo).packet.data.length
  rw [length_data]
  show b.ihl * 4 + (b.len + (c.hi - b.hi)) = b.ihl * 4 + (c.hi - b.lo)
  unfold hi lo at *
  omega

/-! ## Inserting a block -/

/-- The code keeps what arrives: the packet does not lie within one of the list, unless they are the same, it does not
cover a later one, and if it lies between two of them, it touches the earlier one. -/
@[mk_iff]
structure Fits (l : List Packet) (q : Packet) : Prop where
  notWithin : ∀ p ∈ l, p.offset ≤ q.offset → q.stop ≤ p.stop → p.offset = q.offset ∧ p.stop = q.stop
  notCovers : ∀ p ∈ l, q.offset < p.offset → q.stop < p.stop
  touches : (∃ p ∈ l, q.offset < p.offset) → (∃ p ∈ l, p.offset ≤ q.offset) → ∃ p ∈ l, p.offset ≤ q.offset ∧
    q.offset ≤ p.stop

/-- A block is merged with one that begins before it and touches it. -/
theorem mergeFrags_touching (hlo : c.lo ≤ b.lo) (ht : b.lo ≤ c.hi) (hw : b.hi ≤ c.hi → c.lo = b.lo ∧ c.hi = b.hi) :
    ∃ x : Block d, mergeFrags c.packet b.packet [] = some (x.packet, []) ∧ x.lo = c.lo ∧ x.hi = b.hi ∧
      Finset.Ico x.lo x.hi = Finset.Ico c.lo c.hi ∪ Finset.Ico b.lo b.hi := by
  by_cases h : b.hi ≤ c.hi
  · obtain ⟨hl, hh⟩ := hw h
    refine ⟨b, mergeFrags_within hlo h, hl.symm, rfl, ?_⟩
    rw [hl, hh, Finset.union_self]
  · refine ⟨c.join b hlo, mergeFrags_join hlo ht (by omega), lo_join hlo, hi_join hlo, ?_⟩
    rw [hi_join, lo_join]
    ext z
    simp only [Finset.mem_union, Finset.mem_Ico]
    omega

theorem mergeFrags_before {x n : Block d} {r : List (Block d)} (h : Gapped lo hi (n :: r)) (hlo : x.lo ≤ n.lo)
    (hhi : x.hi < n.hi) :
    ∃ (y : Block d) (ys : List (Block d)), mergeFrags x.packet n.packet (r.map packet) =
    some (y.packet, ys.map packet) ∧
      y.lo = x.lo ∧ Gapped lo hi (y :: ys) ∧
      covered lo hi (y :: ys) = Finset.Ico x.lo x.hi ∪ covered lo hi (n :: r) := by
  obtain ⟨hn, hgap, hr⟩ := gapped_cons.mp h
  have hx := x.lo_lt_hi
  by_cases hg : x.hi < n.lo
  · refine ⟨x, n :: r, mergeFrags_gap hg, rfl, gapped_cons.mpr ⟨hx, fun e he => ?_, h⟩, rfl⟩
    rcases mem_cons.mp he with rfl | he
    · exact hg
    · have := hgap e he
      omega
  · refine ⟨x.join n hlo, r, mergeFrags_join hlo (by omega) hhi, rfl, ?_, ?_⟩
    · rw [gapped_cons, hi_join, lo_join]
      exact ⟨by omega, hgap, hr⟩
    · rw [covered_cons, covered_cons, hi_join, lo_join, ← Finset.union_assoc]
      congr 1
      ext z
      simp only [Finset.mem_union, Finset.mem_Ico]
      omega

theorem gapped_insert {pre ys : List (Block d)} {y : Block d} (hpre : Gapped lo hi (pre ++ [c])) (hy : y.lo = c.lo)
    (h : Gapped lo hi (y :: ys)) : Gapped lo hi (pre ++ y :: ys) := by
  obtain ⟨hp, -, hgap⟩ := gapped_append.mp hpre
  refine gapped_append.mpr ⟨hp, h, fun a ha e he => ?_⟩
  have hac := hgap a ha c (by simp)
  have hyy := y.lo_lt_hi
  rcases mem_cons.mp he with rfl | he
  · omega
  · have := (gapped_cons.mp h).2.1 e he
    omega

/-- The place of a block in a list with gaps. -/
theorem Gapped.split {bl : List (Block d)} (h : Gapped lo hi bl) (o : Nat) :
    ∃ before after, bl = before ++ after ∧ (∀ e ∈ before, e.lo ≤ o) ∧ (∀ e ∈ after, o < e.lo) ∧
      (bl.map packet).takeWhile (fun q => decide (q.offset ≤ o)) = before.map packet ∧
      (bl.map packet).dropWhile (fun q => decide (q.offset ≤ o)) = after.map packet := by
  refine ⟨bl.takeWhile fun e => decide (e.lo ≤ o), bl.dropWhile fun e => decide (e.lo ≤ o), ?_,
    fun e he => ?_, ?_, ?_, ?_⟩
  · rw [takeWhile_append_dropWhile]
  · simpa using mem_takeWhile_imp he
  · induction bl with
    | nil => intro e he; cases he
    | cons a l ih =>
      obtain ⟨ha, hgap, hl⟩ := gapped_cons.mp h
      by_cases hao : a.lo ≤ o
      · rw [dropWhile_cons_of_pos (by simpa using hao)]
        exact ih hl
      · rw [dropWhile_cons_of_neg (by simpa using hao)]
        intro e he
        rcases mem_cons.mp he with rfl | he
        · omega
        · have := hgap e he
          omega
  · rw [takeWhile_map]
    rfl
  · rw [dropWhile_map]
    rfl

/-- The packets of a list of blocks with gaps, after one more has arrived. -/
theorem insertFrag_spec {bl : List (Block d)} (h : Gapped lo hi bl) (hne : bl ≠ [])
    (hf : Fits (bl.map packet) b.packet) :
    ∃ bl' : List (Block d), insertFrag (bl.map packet) b.packet = some (bl'.map packet) ∧ bl' ≠ [] ∧ Gapped lo hi bl' ∧
      covered lo hi bl' = covered lo hi bl ∪ Finset.Ico b.lo b.hi := by
  obtain ⟨before, after, rfl, hbefore, hafter, htake, hdrop⟩ := Gapped.split h b.lo
  have hb := b.lo_lt_hi
  have hwithin (p : Block d) (hp : p ∈ before) (hhi : b.hi ≤ p.hi) : p.lo = b.lo ∧ p.hi = b.hi := by
    have hmem : p.packet ∈ (before ++ after).map packet := mem_map_of_mem (mem_append_left _ hp)
    have := hf.notWithin p.packet hmem (hbefore p hp) (by rw [stop_packet, stop_packet]; exact hhi)
    rwa [stop_packet, stop_packet] at this
  have hcovers (p : Block d) (hp : p ∈ after) : b.hi < p.hi := by
    have hmem : p.packet ∈ (before ++ after).map packet := mem_map_of_mem (mem_append_right _ hp)
    have := hf.notCovers p.packet hmem (hafter p hp)
    rwa [stop_packet, stop_packet] at this
  unfold insertFrag
  rw [offset_packet, htake, hdrop]
  dsimp only
  rcases eq_nil_or_concat before with rfl | ⟨pre, c, rfl⟩
  · cases after with
    | nil => exact absurd rfl hne
    | cons n r =>
      -- the block is the first one
      obtain ⟨y, ys, hm, -, hg, hcov⟩ := mergeFrags_before h (hafter n (by simp)).le (hcovers n (by simp))
      refine ⟨y :: ys, ?_, by simp, hg, by rw [hcov, Finset.union_comm]; rfl⟩
      simp [hm]
  · rw [concat_eq_append] at *
    have hlo := hbefore c (by simp)
    obtain ⟨hpc, hg, hgap⟩ := gapped_append.mp h
    have hlast : ((pre ++ [c]).map packet).getLast? = some c.packet := by simp
    have hinit : ((pre ++ [c]).map packet).dropLast = pre.map packet := by simp
    rw [hlast, hinit]
    cases after with
    | nil =>
      by_cases hgap : c.hi < b.lo
      · refine ⟨pre ++ [c, b], by simp [mergeFrags_gap hgap], by simp, ?_, ?_⟩
        · refine gapped_insert hpc rfl (gapped_cons.mpr ⟨c.lo_lt_hi, ?_, gapped_cons.mpr ⟨hb, by simp, ?_⟩⟩)
          · simpa using hgap
          · exact ⟨by simp, List.Pairwise.nil⟩
        · simp [covered_append, Finset.union_assoc]
      · obtain ⟨x, hm, hxlo, -, hcov⟩ := mergeFrags_touching hlo (by omega) (hwithin c (by simp))
        refine ⟨pre ++ [x], by simp [hm], by simp, ?_, ?_⟩
        · exact gapped_insert hpc hxlo (gapped_cons.mpr ⟨x.lo_lt_hi, by simp, by simp, List.Pairwise.nil⟩)
        · simp [covered_append, Finset.union_assoc, hcov]
    | cons n r =>
      -- the block lies between `c` and `n`, and touches `c`
      have hn := hafter n (by simp)
      have ht : b.lo ≤ c.hi := by
        obtain ⟨p, hp, hplo, hphi⟩ := hf.touches ⟨n.packet, by simp, hn⟩ ⟨c.packet, by simp, hlo⟩
        obtain ⟨e, he, rfl⟩ := mem_map.mp hp
        rw [stop_packet] at hphi
        rcases mem_append.mp he with he | he
        · rcases mem_append.mp he with he | he
          · have := (gapped_append.mp hpc).2.2 e he c (by simp)
            rw [offset_packet] at hphi
            omega
          · rw [mem_singleton.mp he] at hphi
            exact hphi
        · exact absurd (hafter e he) (by rw [offset_packet, offset_packet] at hplo; omega)
      obtain ⟨x, hm, hxlo, hxhi, hcov⟩ := mergeFrags_touching hlo ht (hwithin c (by simp))
      have hxn : x.hi < n.hi := hxhi ▸ hcovers n (by simp)
      obtain ⟨y, ys, hm', hylo, hg', hcov'⟩ := mergeFrags_before hg (by omega) hxn
      refine ⟨pre ++ y :: ys, by simp [hm, hm'], by simp, gapped_insert hpc (hylo.trans hxlo) hg', ?_⟩
      rw [covered_append, hcov', hcov, covered_append, covered_append]
      simp only [covered_cons, covered_nil, Finset.union_empty]
      ext z
      simp only [Finset.mem_union]
      tauto

/-- The first block of a list with gaps is the whole datagram if and only if all positions are covered. -/
theorem whole_iff {y : Block d} {ys : List (Block d)} (h : Gapped lo hi (y :: ys)) :
    y.packet.hdr.fragoff = 0 ∧ y.packet.hdr.mf = false ↔ covered lo hi (y :: ys) = Finset.range d.payload.length := by
  have hwhole : y.packet.hdr.fragoff = 0 ∧ y.packet.hdr.mf = false ↔ y.lo = 0 ∧ y.hi = d.payload.length := by
    show y.off = 0 ∧ decide (y.hi ≠ d.payload.length) = false ↔ y.off * 8 = 0 ∧ y.hi = d.payload.length
    simp
  rw [hwhole]
  constructor
  · rintro ⟨hlo, hhi⟩
    have hys : ys = [] := by
      cases ys with
      | nil => rfl
      | cons z zs =>
        have := h.lt_of_mem (b := z) (by simp) le_rfl
        have := z.lo_lt_hi
        have := z.hi_le
        omega
    rw [hys, covered_cons, covered_nil, Finset.union_empty, hlo, hhi, Finset.range_eq_Ico]
  · intro hc
    obtain ⟨x, hx, hlo, hhi⟩ := h.eq_singleton d.nonempty hc
    obtain ⟨rfl, -⟩ := cons.inj hx
    exact ⟨hlo, hhi⟩

theorem packet_of_whole {y : Block d} (hlo : y.packet.hdr.fragoff = 0) (hmf : y.packet.hdr.mf = false) :
    y.packet = d.packet := by
  have hoff : y.off = 0 := hlo
  have hhi : y.hi = d.payload.length := by simpa [packet] using hmf
  have hlen : y.len = d.payload.length := by
    unfold hi at hhi
    omega
  have hihl := y.first hoff
  have hdata : (d.payload.drop y.lo).take y.len = d.payload := by
    rw [lo, hoff, hlen, Nat.zero_mul, drop_zero, take_length]
  unfold packet Datagram.packet
  rw [hdata, hihl, hoff, hhi, hlen]
  simp

/-! ## The table -/

/-- The entry of a datagram in progress. -/
structure Holds (e : Ass) (p : Progress) : Prop where
  key : e.key = some p.d.key
  ttl : e.minTtl = 255
  time : e.firstTime = p.first
  blocks : ∃ bl : List (Block p.d), bl ≠ [] ∧ e.frags = bl.map packet ∧ Gapped lo hi bl ∧ covered lo hi bl = p.got

theorem Holds.frags_ne {p : Progress} (h : Holds e p) : e.frags ≠ [] := by
  obtain ⟨bl, hne, he, -⟩ := h.blocks
  rw [he]
  simpa using hne

/-- The entries with fragments are those of the datagrams in progress. -/
structure Rel (t : Table) (ps : List Progress) : Prop where
  free : ∀ i, (t.ass i).frags = [] → (t.ass i).firstTime = 0
  busy : ∀ i, (t.ass i).frags ≠ [] → ∃ p ∈ ps, Holds (t.ass i) p
  held : ∀ p ∈ ps, 0 < p.first ∧ ∃ i, Holds (t.ass i) p
  keys : ∀ i j, (t.ass i).frags ≠ [] → (t.ass i).key = (t.ass j).key → i = j
  unique : ∀ p ∈ ps, ∀ q ∈ ps, p.d.key = q.d.key → p = q
  silent : t.timeExceeded = []

variable {t : Table} {ps : List Progress} {k : Key} {i : AssNr}

theorem searchAss_found (hfree : ∀ j, (t.ass j).frags = [] → (t.ass j).firstTime = 0) (hk : (t.ass i).key = some k)
    (hu : ∀ j, (t.ass j).key = some k → j = i) : ∀ (l : List AssNr) (new : Option AssNr), i ∈ l →
      searchAss t k l new = (some i, true)
  | j :: l, new, hi => by
    have hj : ¬((t.ass j).frags = [] ∧ (t.ass j).firstTime ≠ 0) := fun h => h.2 (hfree j h.1)
    unfold searchAss
    rw [if_neg hj]
    by_cases hjk : (t.ass j).key = some k
    · rw [if_pos hjk, hu j hjk]
    · have hil : i ∈ l := by
        rcases mem_cons.mp hi with rfl | hi
        · exact absurd hk hjk
        · exact hi
      rw [if_neg hjk]
      cases new with
      | none => exact searchAss_found hfree hk hu l _ hil
      | some n => exact searchAss_found hfree hk hu l _ hil

theorem searchAss_oldest (hfree : ∀ j, (t.ass j).frags = [] → (t.ass j).firstTime = 0)
    (hk : ∀ j, (t.ass j).key ≠ some k) :
    ∀ (l : List AssNr) (n : AssNr), ∃ i, searchAss t k l (some n) = (some i, false) ∧
      (t.ass i).firstTime ≤ (t.ass n).firstTime ∧ ∀ j ∈ l, (t.ass i).firstTime ≤ (t.ass j).firstTime
  | [], n => ⟨n, rfl, le_rfl, by simp⟩
  | j :: l, n => by
    have hj : ¬((t.ass j).frags = [] ∧ (t.ass j).firstTime ≠ 0) := fun h => h.2 (hfree j h.1)
    rw [searchAss, if_neg hj, if_neg (hk j)]
    by_cases hlt : (t.ass j).firstTime < (t.ass n).firstTime
    · obtain ⟨i, hi, hle, hall⟩ := searchAss_oldest hfree hk l j
      refine ⟨i, by rw [if_pos hlt, hi], by omega, fun x hx => ?_⟩
      rcases mem_cons.mp hx with rfl | hx
      · exact hle
      · exact hall x hx
    · obtain ⟨i, hi, hle, hall⟩ := searchAss_oldest hfree hk l n
      refine ⟨i, by rw [if_neg hlt, hi], hle, fun x hx => ?_⟩
      rcases mem_cons.mp hx with rfl | hx
      · omega
      · exact hall x hx

@[simp]
theorem ass_setAss (t : Table) (i : AssNr) (e : Ass) : (t.setAss i e).ass i = e := Function.update_self ..

theorem ass_setAss_of_ne (h : j ≠ i) (e : Ass) : (t.setAss i e).ass j = t.ass j := Function.update_of_ne h ..

/-- With fewer datagrams in progress than entries, one of the entries is free. -/
theorem Rel.exists_free (h : Rel t ps) (hroom : ps.length < 3) : ∃ i, (t.ass i).frags = [] := by
  by_contra hno
  rw [not_exists] at hno
  -- otherwise the keys of the entries are different keys of datagrams in progress
  have hnodup : ((finRange 3).map fun i => (t.ass i).key).Nodup :=
    (nodup_finRange 3).map fun i j hij => h.keys i j (hno i) hij
  have hsub : ((finRange 3).map fun i => (t.ass i).key) ⊆ ps.map fun p => some p.d.key := by
    intro k hk
    obtain ⟨i, -, rfl⟩ := mem_map.mp hk
    obtain ⟨p, hp, hh⟩ := h.busy i (hno i)
    exact mem_map.mpr ⟨p, hp, hh.key.symm⟩
  have := (subperm_of_subset hnodup hsub).length_le
  simp at this
  omega

theorem findAssEnt_new (broadcast : Nat → Nat → Bool) (h : Rel t ps) (hroom : ps.length < 3)
    (hk : ∀ j, (t.ass j).key ≠ some k) (now : Nat) :
    ∃ i, (t.ass i).frags = [] ∧ findAssEnt broadcast t now k =
      some (i, t.setAss i { frags := [], minTtl := 255, firstTime := now, key := some k }) := by
  obtain ⟨f, hf⟩ := h.exists_free hroom
  have hfirst : searchAss t k (finRange 3) none = searchAss t k [1, 2] (some 0) := by
    have h0 : ¬((t.ass 0).frags = [] ∧ (t.ass 0).firstTime ≠ 0) := fun h0 => h0.2 (h.free 0 h0.1)
    show searchAss t k [0, 1, 2] none = _
    rw [searchAss, if_neg h0, if_neg (hk 0)]
  obtain ⟨i, hi, hle, hall⟩ := searchAss_oldest h.free hk [1, 2] 0
  have hmin : (t.ass i).firstTime ≤ (t.ass f).firstTime := by
    rcases (by decide : ∀ f : AssNr, f = 0 ∨ f ∈ [(1 : AssNr), 2]) f with rfl | hf'
    · exact hle
    · exact hall f hf'
  have hzero : (t.ass i).firstTime = 0 := by
    have := h.free f hf
    omega
  have hfrags : (t.ass i).frags = [] := by
    by_contra hne
    obtain ⟨p, hp, hh⟩ := h.busy i hne
    have := (h.held p hp).1
    have := hh.time
    omega
  refine ⟨i, hfrags, ?_⟩
  have hdrop : dropFrags broadcast t k.port (t.ass i) = t := by
    unfold dropFrags
    rw [hfrags]
  unfold findAssEnt
  rw [hfirst, hi]
  dsimp only
  rw [hdrop]

theorem findAssEnt_found (broadcast : Nat → Nat → Bool) (h : Rel t ps) {p : Progress}
    (hh : Holds (t.ass i) p) (now : Nat) :
    findAssEnt broadcast t now p.d.key = some (i, t) := by
  have hu : ∀ j, (t.ass j).key = some p.d.key → j = i := by
    intro j hj
    exact (h.keys i j hh.frags_ne (hh.key.trans hj.symm)).symm
  unfold findAssEnt
  rw [searchAss_found h.free hh.key hu _ _ (mem_finRange i)]

/-! ## Runs -/

/-- An arrival that the code handles: it fits the fragments of its datagram, and no entry has kept the key of an earlier
datagram that was handed up. -/
@[mk_iff]
structure StepOk (hz : Nat) (s : Sys) (a : Arrival) : Prop where
  admissible : Admissible hz s a
  fits : ∀ i, (s.table.ass i).key = some a.d.key → Fits (s.table.ass i).frags a.block.packet
  fresh : ∀ i, (s.table.ass i).key = some a.d.key → (s.table.ass i).frags ≠ []

theorem Rel.update {ps' : List Progress} (h : Rel t ps) (hfree : e.frags = [] → e.firstTime = 0)
    (hbusy : e.frags ≠ [] → ∃ p ∈ ps', Holds e p) (hkeep : ∀ j ≠ i, ∀ q ∈ ps, Holds (t.ass j) q → q ∈ ps')
    (hheld : ∀ q ∈ ps', 0 < q.first ∧ (Holds e q ∨ ∃ j ≠ i, Holds (t.ass j) q))
    (hkeys : ∀ j ≠ i, e.frags ≠ [] ∨ (t.ass j).frags ≠ [] → e.key ≠ (t.ass j).key)
    (hunique : ∀ p ∈ ps', ∀ q ∈ ps', p.d.key = q.d.key → p = q) : Rel (t.setAss i e) ps' := by
  refine ⟨fun j hj => ?_, fun j hj => ?_, fun p hp => ?_, fun j j' hj hjj => ?_, hunique, h.silent⟩
  · by_cases hji : j = i
    · subst hji
      rw [ass_setAss] at hj ⊢
      exact hfree hj
    · rw [ass_setAss_of_ne hji] at hj ⊢
      exact h.free j hj
  · by_cases hji : j = i
    · subst hji
      rw [ass_setAss] at hj ⊢
      exact hbusy hj
    · rw [ass_setAss_of_ne hji] at hj ⊢
      obtain ⟨p, hp, hh⟩ := h.busy j hj
      exact ⟨p, hkeep j hji p hp hh, hh⟩
  · obtain ⟨hpos, hh | ⟨j, hji, hh⟩⟩ := hheld p hp
    · exact ⟨hpos, i, by rw [ass_setAss]; exact hh⟩
    · exact ⟨hpos, j, by rw [ass_setAss_of_ne hji]; exact hh⟩
  · by_cases hji : j = i <;> by_cases hji' : j' = i
    · rw [hji, hji']
    · subst hji
      rw [ass_setAss, ass_setAss_of_ne hji'] at hjj
      rw [ass_setAss] at hj
      exact absurd hjj (hkeys j' hji' (.inl hj))
    · subst hji'
      rw [ass_setAss, ass_setAss_of_ne hji] at hjj
      rw [ass_setAss_of_ne hji] at hj
      exact absurd hjj.symm (hkeys j hji (.inr hj))
    · rw [ass_setAss_of_ne hji] at hj hjj
      rw [ass_setAss_of_ne hji'] at hjj
      exact h.keys j j' hj hjj

theorem Rel.start {a : Arrival} (h : Rel t ps) (hi : (t.ass i).frags = []) (hnow : 0 < a.now)
    (hk : ∀ j, (t.ass j).key ≠ some a.d.key) (hps : ∀ p ∈ ps, p.d.key ≠ a.d.key) :
    Rel (t.setAss i { frags := [a.block.packet], minTtl := 255, firstTime := a.now, key := some a.d.key })
      (⟨a.d, Finset.Ico a.block.lo a.block.hi, a.now⟩ :: ps) := by
  have hnew : Holds { frags := [a.block.packet], minTtl := 255, firstTime := a.now, key := some a.d.key }
      ⟨a.d, Finset.Ico a.block.lo a.block.hi, a.now⟩ := by
    refine ⟨rfl, rfl, rfl, [a.block], by simp, rfl, ?_, by simp⟩
    exact gapped_cons.mpr ⟨a.block.lo_lt_hi, by simp, by simp, List.Pairwise.nil⟩
  apply h.update
  · intro he
    cases he
  · exact fun _ => ⟨_, mem_cons_self, hnew⟩
  · exact fun j _ q hq _ => mem_cons_of_mem _ hq
  · intro q hq
    rcases mem_cons.mp hq with rfl | hq
    · exact ⟨hnow, .inl hnew⟩
    · obtain ⟨hpos, j, hh⟩ := h.held q hq
      exact ⟨hpos, .inr ⟨j, fun hji => hh.frags_ne (hji ▸ hi), hh⟩⟩
  · exact fun j _ _ hkey => hk j hkey.symm
  · intro p hp q hq hpq
    rcases mem_cons.mp hp with rfl | hp <;> rcases mem_cons.mp hq with rfl | hq
    · rfl
    · exact absurd hpq.symm (hps q hq)
    · exact absurd hpq (hps p hp)
    · exact h.unique p hp q hq hpq

section

variable {p : Progress} (h : Rel t ps) (hh : Holds (t.ass i) p)
include h hh

theorem Rel.held_other (hp : p ∈ ps) {q : Progress} (hq : q ∈ ps.filter fun q => q.d ≠ p.d) :
    0 < q.first ∧ ∃ j ≠ i, Holds (t.ass j) q := by
  obtain ⟨hq, hqd⟩ := mem_filter.mp hq
  obtain ⟨hpos, j, hhj⟩ := h.held q hq
  refine ⟨hpos, j, ?_, hhj⟩
  rintro rfl
  have hkey : q.d.key = p.d.key := some.inj (hhj.key.symm.trans hh.key)
  exact (by simpa using hqd : q.d ≠ p.d) (by rw [h.unique q hq p hp hkey])

theorem Rel.mem_other {q : Progress} (hji : j ≠ i) (hq : q ∈ ps) (hhj : Holds (t.ass j) q) :
    q ∈ ps.filter fun q => q.d ≠ p.d := by
  refine mem_filter.mpr ⟨hq, ?_⟩
  rw [decide_eq_true_eq]
  intro hqd
  exact hji (h.keys j i hhj.frags_ne (by rw [hhj.key, hh.key, hqd]))

theorem Rel.key_ne (he : e.key = (t.ass i).key) (hji : j ≠ i) : e.key ≠ (t.ass j).key := by
  rw [he]
  exact fun hkey => hji (h.keys i j hh.frags_ne hkey).symm

theorem Rel.replace (hp : p ∈ ps) {p' : Progress} (he : Holds e p') (hd : p'.d = p.d) (hf : p'.first = p.first) :
    Rel (t.setAss i e) (p' :: ps.filter fun q => q.d ≠ p.d) := by
  have hne (q : Progress) (hq : q ∈ ps.filter fun q => q.d ≠ p.d) : q.d.key ≠ p'.d.key := by
    obtain ⟨hq, hqd⟩ := mem_filter.mp hq
    intro hkey
    rw [hd] at hkey
    exact (by simpa using hqd : q.d ≠ p.d) (by rw [h.unique q hq p hp hkey])
  apply h.update
  · exact fun hnil => absurd hnil he.frags_ne
  · exact fun _ => ⟨p', mem_cons_self, he⟩
  · exact fun j hji q hq hhj => mem_cons_of_mem _ (h.mem_other hh hji hq hhj)
  · intro q hq
    rcases mem_cons.mp hq with rfl | hq
    · exact ⟨hf ▸ (h.held p hp).1, .inl he⟩
    · obtain ⟨hpos, hhj⟩ := h.held_other hh hp hq
      exact ⟨hpos, .inr hhj⟩
  · exact fun j hji _ => h.key_ne hh (by rw [he.key, hh.key, hd]) hji
  · intro q hq r hr hqr
    rcases mem_cons.mp hq with hqp | hq' <;> rcases mem_cons.mp hr with hrp | hr'
    · rw [hqp, hrp]
    · exact absurd hqr.symm (hqp ▸ hne r hr')
    · exact absurd hqr (hrp ▸ hne q hq')
    · exact h.unique q (mem_filter.mp hq').1 r (mem_filter.mp hr').1 hqr

theorem Rel.finish (hp : p ∈ ps) :
    Rel (t.setAss i { t.ass i with frags := [], firstTime := 0 }) (ps.filter fun q => q.d ≠ p.d) := by
  apply h.update
  · exact fun _ => rfl
  · exact fun hne => absurd rfl hne
  · exact fun j hji q hq hhj => h.mem_other hh hji hq hhj
  · intro q hq
    obtain ⟨hpos, hhj⟩ := h.held_other hh hp hq
    exact ⟨hpos, .inr hhj⟩
  · exact fun j hji _ => h.key_ne hh rfl hji
  · exact fun q hq r hr hqr => h.unique q (mem_filter.mp hq).1 r (mem_filter.mp hr).1 hqr

end

theorem reassemble_found (hz : Nat) (broadcast : Nat → Nat → Bool) {now port : Nat} {pack head : Packet}
    (hent : findAssEnt broadcast t now ⟨port, pack.hdr.id, pack.hdr.proto, pack.hdr.src, pack.hdr.dst⟩ = some (i, t))
    (hne : (t.ass i).frags ≠ []) (hins : insertFrag (t.ass i).frags pack = some (head :: rest)) :
    reassemble hz broadcast t now port pack =
      if head.hdr.fragoff = 0 ∧ head.hdr.mf = false then
        some (complete hz broadcast (t.setAss i { t.ass i with frags := head :: rest }) now port i head)
      else some (t.setAss i { t.ass i with frags := head :: rest }, none) := by
  unfold reassemble
  rw [hent, bind_some]
  rw [if_neg hne, hins, bind_some]

theorem complete_inTime (hz : Nat) (broadcast : Nat → Nat → Bool) {now port : Nat} {pack : Packet} (fr : List Packet)
    (ht : now ≤ (t.ass i).minTtl * hz + (t.ass i).firstTime) :
    complete hz broadcast (t.setAss i { t.ass i with frags := fr }) now port i pack =
      (t.setAss i { t.ass i with frags := [], firstTime := 0 }, some pack) := by
  unfold complete
  rw [ass_setAss]
  dsimp only
  rw [if_neg (by omega), Table.setAss, Table.setAss, Function.update_idem]
  rfl

/-- What holds after every run: the entries agree with the datagrams in progress, and what was handed up with what was
due. -/
structure Sys.Inv (s : Sys) : Prop where
  rel : Rel s.table s.progress
  out : s.out = s.due

/-- An arrival that fits does not crash, and keeps the invariant. -/
theorem step_inv (hz : Nat) (broadcast : Nat → Nat → Bool) {s : Sys} {a : Arrival} (h : s.Inv) (hok : StepOk hz s a) :
    ∃ s', s.step hz broadcast a = some s' ∧ s'.Inv := by
  obtain ⟨hunique, hroom, hclock, hinTime⟩ := hok.admissible
  have hstep {t' : Table} {o : Option Packet} {y : List Progress × Option Datagram} (hrel : Rel t' y.1)
      (hout : o = y.2.map Datagram.packet) (hy : receive s.progress a = y)
      (hre : reassemble hz broadcast s.table a.now a.d.key.port a.block.packet = some (t', o)) :
      ∃ s', s.step hz broadcast a = some s' ∧ s'.Inv := by
    refine ⟨_, by rw [Sys.step, hre]; rfl, ?_, ?_⟩
    · rw [hy]
      exact hrel
    · show s.out ++ [o] = s.due ++ [(receive s.progress a).2.map Datagram.packet]
      rw [hy, hout, h.out]
  cases hfind : s.progress.find? fun p => p.d = a.d with
  | none =>
    have hnone : ∀ p ∈ s.progress, p.d ≠ a.d := by simpa using hfind
    have hps (p : Progress) (hp : p ∈ s.progress) : p.d.key ≠ a.d.key := fun hkey => hnone p hp (hunique p hp hkey)
    have hk (j : AssNr) : (s.table.ass j).key ≠ some a.d.key := by
      intro hkey
      obtain ⟨p, hp, hh⟩ := h.rel.busy j (hok.fresh j hkey)
      exact hps p hp (some.inj (hh.key.symm.trans hkey))
    have hlen : s.progress.length < 3 := by
      rcases hroom with ⟨p, hp, hpd⟩ | hlen
      · exact absurd hpd (hnone p hp)
      · exact hlen
    obtain ⟨i, hi, hent⟩ := findAssEnt_new broadcast h.rel hlen hk a.now
    refine hstep (h.rel.start hi hclock hk hps) rfl (by unfold receive; rw [hfind]) ?_
    unfold reassemble
    show (findAssEnt broadcast s.table a.now a.d.key).bind _ = _
    rw [hent]
    simp [Table.setAss]
  | some p =>
    have hp : p ∈ s.progress := mem_of_find?_eq_some hfind
    have hpd : p.d = a.d := by simpa using find?_some hfind
    obtain ⟨now, d, block, part⟩ := a
    subst hpd
    obtain ⟨-, i, hh⟩ := h.rel.held p hp
    obtain ⟨bl, hne, hfr, hg, hcov⟩ := hh.blocks
    have hfits : Fits (bl.map packet) block.packet := hfr ▸ hok.fits i hh.key
    obtain ⟨bl', hins, hne', hg', hcov'⟩ := insertFrag_spec hg hne hfits
    obtain ⟨y, ys, rfl⟩ := exists_cons_of_ne_nil hne'
    have hre := reassemble_found hz broadcast (findAssEnt_found broadcast h.rel hh now) hh.frags_ne (hfr ▸ hins)
    rw [hcov] at hcov'
    by_cases hw : y.packet.hdr.fragoff = 0 ∧ y.packet.hdr.mf = false
    · have hall : p.got ∪ Finset.Ico block.lo block.hi = Finset.range p.d.payload.length := by
        rw [← hcov']
        exact (whole_iff hg').mp hw
      have ht : now ≤ (s.table.ass i).minTtl * hz + (s.table.ass i).firstTime := by
        rw [hh.ttl, hh.time]
        exact hinTime p hp rfl
      rw [if_pos hw, complete_inTime hz broadcast _ ht] at hre
      refine hstep (h.rel.finish hh hp) ?_ (y := (_, some p.d)) ?_ hre
      · rw [packet_of_whole hw.1 hw.2]
        rfl
      · unfold receive
        rw [hfind]
        exact if_pos hall
    · have hall : ¬p.got ∪ Finset.Ico block.lo block.hi = Finset.range p.d.payload.length := by
        rw [← hcov']
        exact fun hc => hw ((whole_iff hg').mpr hc)
      rw [if_neg hw] at hre
      have hnew : Holds { s.table.ass i with frags := y.packet :: ys.map packet }
          ⟨p.d, p.got ∪ Finset.Ico block.lo block.hi, p.first⟩ :=
        ⟨hh.key, hh.ttl, hh.time, y :: ys, hne', rfl, hg', hcov'⟩
      refine hstep (h.rel.replace hh hp hnew rfl rfl) rfl ?_ hre (y := (_, none))
      unfold receive
      rw [hfind]
      exact if_neg hall

/-- In every run whose arrivals fit, each datagram is handed up when its last missing byte arrives, and nothing else is
handed up or sent back. -/
theorem reassemble_of_run (hz : Nat) (broadcast : Nat → Nat → Bool) {as : List Arrival}
    (hok : AllOk (Sys.step hz broadcast) (StepOk hz) as {}) :
    ∃ s, run (Sys.step hz broadcast) as {} = some s ∧ s.out = s.due ∧ s.table.timeExceeded = [] := by
  have hstart : Sys.Inv {} := by
    refine ⟨⟨fun _ _ => rfl, fun _ hne => absurd rfl hne, fun _ hp => (nomatch hp), fun _ _ hne => absurd rfl hne,
      fun _ hp => (nomatch hp), rfl⟩, rfl⟩
  obtain ⟨s, hr, hs⟩ := run_total (fun s a h ha => step_inv hz broadcast h ha) hstart hok
  exact ⟨s, hr, hs.out, hs.rel.silent⟩

/-! ## Samples -/

instance (l : List Packet) (q : Packet) : Decidable (Fits l q) := decidable_of_iff' _ (fits_iff l q)

instance (hz : Nat) (s : Sys) (a : Arrival) : Decidable (StepOk hz s a) := decidable_of_iff' _ (stepOk_iff hz s a)

/-- A datagram of forty bytes. -/
def forty (fill : UInt8) : Datagram where
  key := ⟨1, 7, 17, 10, 20⟩
  ihl := 5
  payload := replicate 40 fill
  min_ihl := le_rfl
  nonempty := by simp
  fits := by simp

/-- Eight of its bytes. -/
def eighth (fill : UInt8) (now : Nat) (n : Fin 5) : Arrival where
  now := now
  d := forty fill
  block :=
    { off := n, len := 8, ihl := 5, pos := by decide, inside := by have := n.isLt; simp [forty]; omega,
      min_ihl := le_rfl,
      le_ihl := le_rfl, first := fun _ => rfl }
  part := by
    rintro ⟨hlo, hhi⟩
    have hn : n.1 * 8 = 0 := hlo
    have : n.1 * 8 + 8 = 40 := hhi
    omega

/-- The fragments arrive in the order 1, 0, 2, 4, 3. -/
theorem reassemble_of_run_swapped : ∃ s, run (Sys.step 60 fun _ _ => false) ([1, 0, 2, 4, 3].map (eighth 1 100)) {} =
    some s ∧ s.due = [none, none, none, none, some (forty 1).packet] ∧ (s.out = s.due ∧ s.table.timeExceeded = []) := by
  have hok : AllOk (Sys.step 60 fun _ _ => false) (StepOk 60) ([1, 0, 2, 4, 3].map (eighth 1 100)) {} := by
    decide +kernel
  obtain ⟨s, hr, hs⟩ := reassemble_of_run 60 (fun _ _ => false) hok
  obtain ⟨s', hr', hs'⟩ : ∃ s, run (Sys.step 60 fun _ _ => false) ([1, 0, 2, 4, 3].map (eighth 1 100)) {} = some s ∧
      s.due = [none, none, none, none, some (forty 1).packet] := by decide +kernel
  obtain rfl : s = s' := some.inj (hr.symm.trans hr')
  exact ⟨s, hr, hs', hs⟩

/-- In all three runs the last arrival completes a datagram, and it is not handed up. (1) The fragments arrive in the
order 0, 4, 2, 1, 3: the third and the last one are lost. (2) The first fragment arrives again after it was merged with
the second one.
(3) A datagram has the key of one that was handed up before. -/
theorem reassemble_fails :
    (∃ s, run (Sys.step 60 fun _ _ => false) ([0, 4, 2, 1, 3].map (eighth 1 100)) {} = some s ∧
      AllOk (Sys.step 60 fun _ _ => false) (Admissible 60) ([0, 4, 2, 1, 3].map (eighth 1 100)) {} ∧
      s.due = replicate 4 none ++ [some (forty 1).packet] ∧ s.out = replicate 5 none) ∧
    (∃ s, run (Sys.step 60 fun _ _ => false) ([0, 1, 0, 2, 3, 4].map (eighth 1 100)) {} = some s ∧
      AllOk (Sys.step 60 fun _ _ => false) (Admissible 60) ([0, 1, 0, 2, 3, 4].map (eighth 1 100)) {} ∧
      s.due = replicate 5 none ++ [some (forty 1).packet] ∧ s.out = replicate 6 none) ∧
    ∃ s, run (Sys.step 60 fun _ _ => false)
        ([0, 1, 2, 3, 4].map (eighth 1 100) ++ [0, 1, 2, 3, 4].map (eighth 2 20000)) {} = some s ∧
      AllOk (Sys.step 60 fun _ _ => false) (Admissible 60)
        ([0, 1, 2, 3, 4].map (eighth 1 100) ++ [0, 1, 2, 3, 4].map (eighth 2 20000)) {} ∧
      s.due = replicate 4 none ++ [some (forty 1).packet] ++ replicate 4 none ++ [some (forty 2).packet] ∧
      s.out = replicate 4 none ++ [some (forty 1).packet] ++ replicate 5 none := by
  refine ⟨?_, ?_, ?_⟩ <;> decide +kernel

end Minix.Inet
