import Mathlib

/-!
# Sets of numbers as lists of spans

A set of natural numbers is kept as a list of spans in increasing order, with a gap between two of them (`Apart`). So
every run of numbers in the set lies in one span (`Apart.exists_span`).

- `Apart.narrow`, `Apart.drop`: a part of a span, or a whole span, is taken out;
- `put`: a span is added, and joined with its neighbours (`put_apart`, `inSpans_put`).
-/

namespace Minix.Lib

open List

/-- A span of numbers. -/
structure Span where
  base : Nat
  len : Nat
  deriving DecidableEq

namespace Span

/-- The first number after the span. -/
def stop (x : Span) : Nat := x.base + x.len

/-- The numbers of the span. -/
def Has (x : Span) (n : Nat) : Prop := x.base ≤ n ∧ n < x.stop

instance (x : Span) (n : Nat) : Decidable (x.Has n) := inferInstanceAs (Decidable (_ ∧ _))

@[simp] theorem stop_mk (b n : Nat) : stop ⟨b, n⟩ = b + n := rfl

theorem has_mk {b n k : Nat} : Has ⟨b, n⟩ k ↔ b ≤ k ∧ k < b + n := Iff.rfl

end Span

/-- The numbers of a list of spans. -/
def InSpans (l : List Span) (n : Nat) : Prop := ∃ x ∈ l, x.Has n

instance (l : List Span) (n : Nat) : Decidable (InSpans l n) := inferInstanceAs (Decidable (∃ x ∈ l, x.Has n))

@[simp] theorem inSpans_nil (n : Nat) : ¬ InSpans [] n := fun h => by
  obtain ⟨_, hx, _⟩ := h
  cases hx

@[simp] theorem inSpans_cons {x : Span} {l : List Span} {n : Nat} : InSpans (x :: l) n ↔ x.Has n ∨ InSpans l n :=
  exists_mem_cons_iff _ _ _

@[simp] theorem inSpans_append {A B : List Span} {n : Nat} : InSpans (A ++ B) n ↔ InSpans A n ∨ InSpans B n := by
  induction A with
  | nil => simp
  | cons x A ih => rw [cons_append, inSpans_cons, inSpans_cons, ih, or_assoc]

/-- The spans are in increasing order, with gaps between them. -/
structure Apart (l : List Span) : Prop where
  pos : ∀ x ∈ l, 0 < x.len
  gaps : l.Pairwise fun x y => x.stop < y.base

namespace Apart

variable {l A B : List Span} {x y : Span} {n : Nat}

theorem nil : Apart [] := ⟨nofun, List.Pairwise.nil⟩

theorem append_iff : Apart (A ++ B) ↔ Apart A ∧ Apart B ∧ ∀ x ∈ A, ∀ y ∈ B, x.stop < y.base := by
  constructor
  · intro h
    obtain ⟨hA, hB, hAB⟩ := pairwise_append.mp h.gaps
    exact ⟨⟨fun x hx => h.pos x (mem_append_left _ hx), hA⟩, ⟨fun x hx => h.pos x (mem_append_right _ hx), hB⟩, hAB⟩
  · rintro ⟨hA, hB, hAB⟩
    refine ⟨fun x hx => ?_, pairwise_append.mpr ⟨hA.gaps, hB.gaps, hAB⟩⟩
    rcases mem_append.mp hx with hx | hx
    · exact hA.pos x hx
    · exact hB.pos x hx

theorem cons_iff : Apart (x :: l) ↔ 0 < x.len ∧ Apart l ∧ ∀ y ∈ l, x.stop < y.base := by
  constructor
  · intro h
    obtain ⟨hx, hl⟩ := pairwise_cons.mp h.gaps
    exact ⟨h.pos x mem_cons_self, ⟨fun y hy => h.pos y (mem_cons_of_mem _ hy), hl⟩, hx⟩
  · rintro ⟨hx, hl, hgap⟩
    refine ⟨fun y hy => ?_, pairwise_cons.mpr ⟨hgap, hl.gaps⟩⟩
    rcases mem_cons.mp hy with rfl | hy
    · exact hx
    · exact hl.pos y hy

/-- One of two spans of the list is before the other, or they are the same. -/
theorem eq_or_gap : ∀ {l : List Span}, Apart l → ∀ {x y : Span}, x ∈ l → y ∈ l → x = y ∨ x.stop < y.base ∨
    y.stop < x.base
  | [], _, _, _, hx, _ => by cases hx
  | z :: l, h, x, y, hx, hy => by
    obtain ⟨-, hl, hz⟩ := cons_iff.mp h
    rcases mem_cons.mp hx with rfl | hx'
    · rcases mem_cons.mp hy with rfl | hy
      · exact .inl rfl
      · exact .inr (.inl (hz y hy))
    · rcases mem_cons.mp hy with rfl | hy
      · exact .inr (.inr (hz x hx'))
      · exact eq_or_gap hl hx' hy

/-- A run of numbers of the set lies in one span. -/
theorem exists_span (h : Apart l) {a n : Nat} (hn : 0 < n) (hrun : ∀ k, a ≤ k → k < a + n → InSpans l k) :
    ∃ x ∈ l, x.base ≤ a ∧ a + n ≤ x.stop := by
  obtain ⟨x, hx, hxa⟩ := hrun a (Nat.le_refl a) (by omega)
  refine ⟨x, hx, hxa.1, ?_⟩
  by_contra hlt
  -- the number after the span would be in another span
  obtain ⟨y, hy, hy1, hy2⟩ := hrun x.stop (Nat.le_of_lt hxa.2) (by omega)
  obtain ⟨hxa1, hxa2⟩ := hxa
  rcases h.eq_or_gap hx hy with rfl | hgap | hgap
  · omega
  · omega
  · omega

/-! ## Taking numbers out -/

section

variable (h : Apart (A ++ x :: B))

include h

theorem narrow (hpos : 0 < y.len) (hbase : x.base ≤ y.base) (hstop : y.stop ≤ x.stop) : Apart (A ++ y :: B) := by
  obtain ⟨hA, hB, hAB⟩ := append_iff.mp h
  obtain ⟨-, hB, hxB⟩ := cons_iff.mp hB
  refine append_iff.mpr ⟨hA, cons_iff.mpr ⟨hpos, hB, fun z hz => Nat.lt_of_le_of_lt hstop (hxB z hz)⟩,
    fun z hz w hw => ?_⟩
  rcases mem_cons.mp hw with rfl | hw
  · exact Nat.lt_of_lt_of_le (hAB z hz x mem_cons_self) hbase
  · exact hAB z hz w (mem_cons_of_mem _ hw)

theorem drop : Apart (A ++ B) := by
  obtain ⟨hA, hB, hAB⟩ := append_iff.mp h
  exact append_iff.mpr ⟨hA, (cons_iff.mp hB).2.1, fun z hz w hw => hAB z hz w (mem_cons_of_mem _ hw)⟩

theorem base_lt : (∀ y ∈ A, y.base < x.base) ∧ ∀ y ∈ B, x.base < y.base := by
  obtain ⟨hA, hB, hAB⟩ := append_iff.mp h
  obtain ⟨-, hB, hxB⟩ := cons_iff.mp hB
  constructor
  · intro y hy
    exact Nat.lt_of_le_of_lt (Nat.le_add_right _ _) (hAB y hy x mem_cons_self)
  · intro y hy
    exact Nat.lt_of_le_of_lt (Nat.le_add_right _ _) (hxB y hy)

/-- The numbers of a span are in no other span. -/
theorem not_inSpans (hn : x.Has n) : ¬ InSpans A n ∧ ¬ InSpans B n := by
  obtain ⟨hA, hB, hAB⟩ := append_iff.mp h
  obtain ⟨-, hB, hxB⟩ := cons_iff.mp hB
  constructor
  · rintro ⟨y, hy, hyn⟩
    have hgap := hAB y hy x mem_cons_self
    have h1 := hyn.2
    have h2 := hn.1
    omega
  · rintro ⟨y, hy, hyn⟩
    have hgap := hxB y hy
    have h1 := hyn.1
    have h2 := hn.2
    omega

end

end Apart

/-! ## Putting numbers in -/

/-- A span is joined with the first one of the list, if there is no gap between them. -/
def joinUp (x : Span) : List Span → List Span
  | [] => [x]
  | y :: l => if x.stop = y.base then ⟨x.base, x.len + y.len⟩ :: l else x :: y :: l

/-- A span is put in the list, and joined with its neighbours. -/
def put (x : Span) : List Span → List Span
  | [] => [x]
  | y :: l =>
    if y.stop = x.base then joinUp ⟨y.base, y.len + x.len⟩ l
    else if y.base < x.base then y :: put x l
    else joinUp x (y :: l)

variable {l : List Span} {x : Span} {n : Nat}

theorem joinUp_apart (hx : 0 < x.len) (hl : Apart l) (hgap : ∀ y ∈ l, x.stop ≤ y.base) : Apart (joinUp x l) := by
  cases l with
  | nil => exact Apart.cons_iff.mpr ⟨hx, hl, nofun⟩
  | cons y l =>
    obtain ⟨hy, hl', hyl⟩ := Apart.cons_iff.mp hl
    rw [joinUp]
    split
    next heq =>
      refine Apart.cons_iff.mpr ⟨Nat.add_pos_left hx _, hl', fun z hz => ?_⟩
      have := hyl z hz
      unfold Span.stop at *
      dsimp only
      omega
    next hne =>
      refine Apart.cons_iff.mpr ⟨hx, hl, fun z hz => ?_⟩
      have hxy := hgap y mem_cons_self
      rcases mem_cons.mp hz with rfl | hz
      · omega
      · have := hyl z hz
        unfold Span.stop at *
        omega

theorem inSpans_joinUp : InSpans (joinUp x l) n ↔ x.Has n ∨ InSpans l n := by
  cases l with
  | nil => simp [joinUp]
  | cons y l =>
    rw [joinUp]
    split
    next heq =>
      rw [inSpans_cons, inSpans_cons, ← or_assoc]
      refine or_congr_left ?_
      unfold Span.Has Span.stop at *
      dsimp only
      omega
    next => rw [inSpans_cons]

theorem base_joinUp {z : Span} (hz : z ∈ joinUp x l) : z.base = x.base ∨ ∃ y ∈ l, z = y := by
  cases l with
  | nil =>
    rw [joinUp, mem_singleton] at hz
    exact .inl (congrArg Span.base hz)
  | cons y l =>
    rw [joinUp] at hz
    split at hz
    · rcases mem_cons.mp hz with rfl | hz
      · exact .inl rfl
      · exact .inr ⟨z, mem_cons_of_mem _ hz, rfl⟩
    · rcases mem_cons.mp hz with rfl | hz
      · exact .inl rfl
      · exact .inr ⟨z, hz, rfl⟩

theorem joinUp_eq (x : Span) (l : List Span) : ∃ n rest, joinUp x l = ⟨x.base, n⟩ :: rest ∧ x.len ≤ n ∧
    ∀ z ∈ rest, z ∈ l := by
  cases l with
  | nil => exact ⟨x.len, [], rfl, le_rfl, fun z hz => hz⟩
  | cons y l =>
    rw [joinUp]
    split
    · exact ⟨_, l, rfl, Nat.le_add_right _ _, fun z hz => mem_cons_of_mem _ hz⟩
    · exact ⟨x.len, y :: l, rfl, le_rfl, fun z hz => hz⟩

/-- A span that is longer at its start is joined as the span itself. -/
theorem joinUp_longer {p : Span} {l rest : List Span} {n : Nat} (hp : p.stop = x.base)
    (h : joinUp x l = ⟨x.base, n⟩ :: rest) :
    joinUp ⟨p.base, p.len + x.len⟩ l = ⟨p.base, p.len + n⟩ :: rest := by
  cases l with
  | nil =>
    obtain ⟨h1, rfl⟩ := List.cons.inj h
    rw [joinUp, h1]
  | cons y l =>
    have hiff : Span.stop ⟨p.base, p.len + x.len⟩ = y.base ↔ x.stop = y.base := by
      unfold Span.stop at *
      dsimp only
      omega
    rw [joinUp] at h ⊢
    by_cases hy : x.stop = y.base
    · rw [if_pos hy] at h
      obtain ⟨h1, rfl⟩ := List.cons.inj h
      have hlen : x.len + y.len = n := congrArg Span.len h1
      rw [if_pos (hiff.mpr hy), Nat.add_assoc, hlen]
    · rw [if_neg hy] at h
      obtain ⟨h1, rfl⟩ := List.cons.inj h
      have hlen : x.len = n := congrArg Span.len h1
      rw [if_neg (mt hiff.mp hy), hlen]

/-- The span has no numbers of the list. -/
def Clear (x : Span) (l : List Span) : Prop := ∀ y ∈ l, x.stop ≤ y.base ∨ y.stop ≤ x.base

/-- A list is cut where a span belongs that has none of its numbers. -/
theorem Clear.split (hx : 0 < x.len) : ∀ {l : List Span}, Apart l → Clear x l →
    ∃ A B, l = A ++ B ∧ (∀ y ∈ A, y.stop ≤ x.base) ∧ ∀ y ∈ B, x.stop ≤ y.base
  | [], _, _ => ⟨[], [], rfl, nofun, nofun⟩
  | z :: l, h, hc => by
    obtain ⟨hz, hl, hzl⟩ := Apart.cons_iff.mp h
    rcases hc z mem_cons_self with hxz | hzx
    · refine ⟨[], z :: l, rfl, nofun, fun y hy => ?_⟩
      rcases mem_cons.mp hy with rfl | hy
      · exact hxz
      · have := hzl y hy
        unfold Span.stop at *
        omega
    · obtain ⟨A, B, rfl, hA, hB⟩ := Clear.split hx hl fun y hy => hc y (mem_cons_of_mem _ hy)
      refine ⟨z :: A, B, rfl, fun y hy => ?_, hB⟩
      rcases mem_cons.mp hy with rfl | hy
      · exact hzx
      · exact hA y hy

theorem put_of_le (hx : 0 < x.len) (hB : ∀ y ∈ l, x.stop ≤ y.base) : put x l = joinUp x l := by
  cases l with
  | nil => rfl
  | cons y l =>
    have hy := hB y mem_cons_self
    unfold Span.stop at hy
    rw [put, if_neg (by unfold Span.stop; omega), if_neg (by omega)]

/-- A span is put after the span `p` and those before it. -/
theorem put_append {p : Span} (hx : 0 < x.len) {B : List Span} (hB : ∀ y ∈ B, x.stop ≤ y.base) (hp : p.stop ≤ x.base) :
    ∀ {A : List Span}, Apart (A ++ [p]) →
      put x (A ++ p :: B) = A ++ if p.stop = x.base then joinUp ⟨p.base, p.len + x.len⟩ B else p :: joinUp x B
  | [], h => by
    rw [nil_append, nil_append, put, put_of_le hx hB]
    split
    · rfl
    next hne =>
      rw [if_pos]
      unfold Span.stop at *
      omega
  | z :: A, h => by
    obtain ⟨hz, hA, hzA⟩ := Apart.cons_iff.mp h
    have hzp := hzA p (mem_append_right _ mem_cons_self)
    have hzx : z.stop < x.base := by
      unfold Span.stop at *
      omega
    have hzb : z.base < x.base := by
      unfold Span.stop at *
      omega
    rw [cons_append, put, if_neg (Nat.ne_of_lt hzx), if_pos hzb, put_append hx hB hp hA, cons_append]

theorem base_put : ∀ {l : List Span} {z : Span}, z ∈ put x l → z.base = x.base ∨ ∃ y ∈ l, z.base = y.base
  | [], z, hz => .inl (congrArg Span.base (mem_singleton.mp hz))
  | y :: l, z, hz => by
    unfold put at hz
    split at hz
    · rcases base_joinUp hz with h | ⟨w, hw, rfl⟩
      · exact .inr ⟨y, mem_cons_self, h⟩
      · exact .inr ⟨z, mem_cons_of_mem _ hw, rfl⟩
    split at hz
    · rcases mem_cons.mp hz with rfl | hz
      · exact .inr ⟨z, mem_cons_self, rfl⟩
      · rcases base_put hz with h | ⟨w, hw, h⟩
        · exact .inl h
        · exact .inr ⟨w, mem_cons_of_mem _ hw, h⟩
    · rcases base_joinUp hz with h | ⟨w, hw, rfl⟩
      · exact .inl h
      · exact .inr ⟨z, hw, rfl⟩

/-- **The spans stay apart** when one is put in that has none of their numbers. -/
theorem put_apart (hx : 0 < x.len) : ∀ {l : List Span}, Apart l → Clear x l → Apart (put x l)
  | [], _, _ => Apart.cons_iff.mpr ⟨hx, Apart.nil, nofun⟩
  | y :: l, h, hclear => by
    obtain ⟨hy, hl, hyl⟩ := Apart.cons_iff.mp h
    have hcl : Clear x l := fun z hz => hclear z (mem_cons_of_mem _ hz)
    have hxy := hclear y mem_cons_self
    unfold put
    split
    next heq =>
      refine joinUp_apart (Nat.add_pos_left hy _) hl fun z hz => ?_
      have := hyl z hz
      have := hcl z hz
      have := h.pos z (mem_cons_of_mem _ hz)
      unfold Span.stop at *
      dsimp only
      omega
    next hne =>
      split
      next hlt =>
        refine Apart.cons_iff.mpr ⟨hy, put_apart hx hl hcl, fun z hz => ?_⟩
        rcases base_put hz with hb | ⟨w, hw, hb⟩
        · unfold Span.stop at *
          omega
        · have := hyl w hw
          omega
      next hge =>
        refine joinUp_apart hx h fun z hz => ?_
        have hxy' : x.stop ≤ y.base := by
          unfold Span.stop at *
          omega
        rcases mem_cons.mp hz with rfl | hz
        · exact hxy'
        · have := hyl z hz
          unfold Span.stop at *
          omega

/-- **The numbers** after a span is put in. -/
theorem inSpans_put : ∀ {l : List Span}, InSpans (put x l) n ↔ x.Has n ∨ InSpans l n
  | [] => by simp [put]
  | y :: l => by
    unfold put
    split
    next heq =>
      rw [inSpans_joinUp, inSpans_cons, ← or_assoc]
      refine or_congr_left ?_
      unfold Span.Has Span.stop at *
      dsimp only
      omega
    split
    · rw [inSpans_cons, inSpans_put, inSpans_cons]
      exact or_left_comm
    · rw [inSpans_joinUp]

end Minix.Lib
