import Mathlib

/-!
# Intrusive lists walked through pointer pointers

A list whose nodes carry their own link is given by a head pointer `h` and a link function `next`; `Chain next h l`
says that following the links from `h` visits the nodes `l` and then finds the null pointer.

* `Loc` is what a pointer pointer can point at: the head pointer, or the link of a node. `scan` is the loop
  `while (*xpp && !stop(*xpp)) xpp = &(*xpp)->link`, with fuel since a cyclic list never ends it.
* `scan_spec`: on a chain that fits in the fuel, `scan` stops right before the first node that satisfies `stop`.
* `chain_store`: storing a pointer at the place `scan` found replaces the rest of the list.
-/

namespace Minix.Lib

open Function List

variable {α : Type*}

/-- Following `next` from `h` visits exactly the nodes `l`, in this order, and then finds the null pointer. -/
def Chain (next : α → Option α) (h : Option α) : List α → Prop
  | [] => h = none
  | a :: l => h = some a ∧ Chain next (next a) l

section Chains

variable {next next' : α → Option α} {h : Option α} {l l' : List α}

@[simp] theorem chain_nil : Chain next h [] ↔ h = none := Iff.rfl

@[simp] theorem chain_cons {a : α} : Chain next h (a :: l) ↔ h = some a ∧ Chain next (next a) l := Iff.rfl

theorem chain_unique : ∀ {l l' : List α} {h : Option α}, Chain next h l → Chain next h l' → l = l'
  | [], [], _, _, _ => rfl
  | [], _ :: _, _, hl, hl' => by rw [chain_nil] at hl; simp [hl] at hl'
  | _ :: _, [], _, hl, hl' => by rw [chain_nil] at hl'; simp [hl'] at hl
  | a :: l, b :: l', _, hl, hl' => by
    obtain ⟨rfl, hl⟩ := hl
    obtain ⟨hb, hl'⟩ := hl'
    cases hb
    rw [chain_unique hl hl']

/-- Only the links of the list's own nodes matter. -/
theorem chain_congr (hn : ∀ a ∈ l, next' a = next a) (hl : Chain next h l) : Chain next' h l := by
  induction l generalizing h with
  | nil => exact hl
  | cons a l ih =>
    refine ⟨hl.1, ?_⟩
    rw [hn a mem_cons_self]
    exact ih (fun b hb => hn b (mem_cons_of_mem _ hb)) hl.2

/-- The chain has the nodes that satisfy `P`, once each. -/
def Listed (next : α → Option α) (h : Option α) (P : α → Prop) : Prop := ∃ l, Chain next h l ∧ l.Nodup ∧
    ∀ a, a ∈ l ↔ P a

section Listed

variable {P Q : α → Prop} {a : α}

theorem Listed.congr (hl : Listed next h P) (hn : ∀ a, P a → next' a = next a) (hQ : ∀ a, Q a ↔ P a) :
    Listed next' h Q := by
  obtain ⟨l, hl, hd, hm⟩ := hl
  exact ⟨l, chain_congr (fun a ha => hn a ((hm a).mp ha)) hl, hd, fun a => (hm a).trans (hQ a).symm⟩

theorem Listed.push (hl : Listed next h P) (ha : ¬ P a) (hnext : next' a = h) (hn : ∀ b, P b → next' b = next b)
    (hQ : ∀ b, Q b ↔ b = a ∨ P b) : Listed next' (some a) Q := by
  obtain ⟨l, hl, hd, hm⟩ := hl
  refine ⟨a :: l, ⟨rfl, ?_⟩, nodup_cons.mpr ⟨fun h => ha ((hm a).mp h), hd⟩, fun b => ?_⟩
  · rw [hnext]
    exact chain_congr (fun b hb => hn b ((hm b).mp hb)) hl
  · rw [mem_cons, hm, hQ]

theorem Listed.pop (hl : Listed next (some a) P) : P a ∧ Listed next (next a) fun b => b ≠ a ∧ P b := by
  obtain ⟨l, hl, hd, hm⟩ := hl
  cases l with
  | nil => cases hl
  | cons b l =>
    obtain ⟨hb, hl⟩ := hl
    cases hb
    obtain ⟨ha, hd⟩ := nodup_cons.mp hd
    refine ⟨(hm a).mp mem_cons_self, l, hl, hd, fun b => ?_⟩
    dsimp only
    rw [← hm, mem_cons]
    exact ⟨fun hb => ⟨fun h => ha (h ▸ hb), .inr hb⟩, fun hb => hb.2.resolve_left hb.1⟩

end Listed

theorem chain_head? (hl : Chain next h l) : h = l.head? := by
  cases l with
  | nil => exact hl
  | cons a l => exact hl.1

end Chains

/-! ## Places -/

/-- A place holding a list pointer: the head of the list, or the link of a node. -/
inductive Loc (α : Type*)
  | head
  | link (a : α)
  deriving DecidableEq

/-- The pointer stored at a place. -/
def Loc.get (h : Option α) (next : α → Option α) : Loc α → Option α
  | .head => h
  | .link a => next a

/-- The node before a place. -/
def Loc.node : Loc α → Option α
  | .head => none
  | .link a => some a

/-- The place right after the nodes `l`. -/
def Loc.after (l : List α) : Loc α := l.getLast?.elim .head .link

@[simp] theorem after_concat (l : List α) (a : α) : Loc.after (l ++ [a]) = .link a := by simp [Loc.after]

theorem node_after (l : List α) : (Loc.after l).node = l.getLast? := by
  induction l using List.reverseRecOn with
  | nil => rfl
  | append_singleton l a _ => simp [Loc.node]

variable {next : α → Option α}

theorem chain_after {h : Option α} {s : List α} (l : List α) (hl : Chain next h (l ++ s)) :
    Chain next ((Loc.after l).get h next) s := by
  induction l using List.reverseRecOn generalizing s with
  | nil => exact hl
  | append_singleton l a ih =>
    rw [append_assoc] at hl
    rw [after_concat]
    exact (ih hl).2

/-- The loop over a list by a pointer pointer: from place `x`, the first place whose node satisfies `stop`, or the
place of the null pointer. Without enough fuel the loop has not ended. -/
def scan (h : Option α) (next : α → Option α) (stop : α → Bool) : Nat → Loc α → Option (Loc α)
  | 0, _ => none
  | n + 1, x =>
    match x.get h next with
    | none => some x
    | some a => if stop a then some x else scan h next stop n (.link a)

/-- The loop stops right before the first node that satisfies `stop`, or at the end of the list. -/
theorem scan_spec {h : Option α} {stop : α → Bool} {s : List α}
    (hs : ∀ a, s.head? = some a → stop a = true) :
    ∀ {l r : List α} {n : Nat}, Chain next h (l ++ r ++ s) → (∀ a ∈ r, stop a = false) → r.length < n →
      scan h next stop n (Loc.after l) = some (Loc.after (l ++ r))
  | l, [], n + 1, hl, _, _ => by
    rw [append_nil] at hl ⊢
    have hg := chain_head? (chain_after l hl)
    unfold scan
    rw [hg]
    cases s with
    | nil => rfl
    | cons a s => simp [hs a rfl]
  | l, a :: r, n + 1, hl, hr, hn => by
    have hg := chain_head? (chain_after l (by rw [← append_assoc]; exact hl))
    unfold scan
    rw [hg]
    have e : l ++ a :: r = l ++ [a] ++ r := by simp
    have ih := scan_spec hs (by rw [← e]; exact hl)
      (fun b hb => hr b (mem_cons_of_mem _ hb)) (by simpa using hn)
    rw [after_concat] at ih
    simp only [cons_append, head?_cons, hr a mem_cons_self, Bool.false_eq_true, ↓reduceIte, ih, e]
  | _, _, 0, _, _, hn => absurd hn (Nat.not_lt_zero _)

theorem scan_head {h : Option α} {stop : α → Bool} {r s : List α} {n : Nat}
    (hl : Chain next h (r ++ s)) (hr : ∀ a ∈ r, stop a = false) (hs : ∀ a, s.head? = some a → stop a = true)
    (hn : r.length < n) : scan h next stop n .head = some (Loc.after r) :=
  scan_spec hs (l := []) hl hr hn

/-- A list splits at the first node that satisfies a test. -/
theorem exists_first_split (stop : α → Bool) (l : List α) :
    ∃ r s, l = r ++ s ∧ (∀ a ∈ r, stop a = false) ∧ ∀ a, s.head? = some a → stop a = true := by
  refine ⟨l.takeWhile (! stop ·), l.dropWhile (! stop ·), takeWhile_append_dropWhile.symm, ?_, ?_⟩
  · intro a ha
    simpa using mem_takeWhile_imp ha
  · intro a ha
    have := head?_dropWhile_not (! stop ·) l
    rw [ha] at this
    simpa using this

/-- The loop finds the first node that satisfies the test. -/
theorem scan_find {h : Option α} {l : List α} {n : Nat} (stop : α → Bool) (hl : Chain next h l)
    (hn : l.length < n) : (scan h next stop n .head).map (·.get h next) = some (l.find? stop) := by
  obtain ⟨r, s, rfl, hr, hs⟩ := exists_first_split stop l
  rw [scan_head hl hr hs (by rw [length_append] at hn; omega), Option.map_some, chain_head? (chain_after r hl),
    find?_append, find?_eq_none.mpr (fun a ha => by simp [hr a ha]), Option.none_or]
  cases s with
  | nil => rfl
  | cons a s => simp [hs a rfl]

/-! ## Stores -/

section Stores

variable [DecidableEq α]

/-- The head pointer after `*x = v`. -/
def Loc.setHead (h : Option α) (v : Option α) : Loc α → Option α
  | .head => v
  | .link _ => h

/-- The links after `*x = v`. -/
def Loc.setNext (next : α → Option α) (v : Option α) : Loc α → α → Option α
  | .head => next
  | .link a => update next a v

variable {next : α → Option α}

theorem setNext_of_not_mem {v : Option α} {l : List α} {a : α} (ha : a ∉ l) :
    (Loc.after l).setNext next v a = next a := by
  induction l using List.reverseRecOn with
  | nil => rfl
  | append_singleton l b _ =>
    rw [after_concat]
    simp only [mem_append, mem_singleton, not_or] at ha
    exact update_of_ne ha.2 _ _

/-- Storing the head of another list after the first nodes replaces the rest of the list. -/
theorem chain_store {h v : Option α} {s t : List α} (l : List α)
    (hl : Chain next h (l ++ s)) (ht : Chain next v t) (hd : (l ++ t).Nodup) :
    Chain ((Loc.after l).setNext next v) ((Loc.after l).setHead h v) (l ++ t) := by
  induction l using List.reverseRecOn with
  | nil => exact ht
  | append_singleton l b _ =>
    rw [after_concat]
    simp only [Loc.setNext, Loc.setHead]
    have hb : b ∉ l ∧ b ∉ t := by
      rw [append_assoc, singleton_append, nodup_middle, nodup_cons] at hd
      simpa using hd.1
    have key : ∀ {l : List α} {h : Option α}, b ∉ l → Chain next h (l ++ b :: s) →
        Chain (update next b v) h (l ++ b :: t) := by
      intro l
      induction l with
      | nil =>
        intro h _ hc
        refine ⟨hc.1, ?_⟩
        rw [update_self]
        exact chain_congr (fun a ha => update_of_ne (fun e => hb.2 (by rwa [← e])) _ _) ht
      | cons a l ih =>
        intro h hbl hc
        simp only [mem_cons, not_or] at hbl
        refine ⟨hc.1, ?_⟩
        rw [update_of_ne (Ne.symm hbl.1)]
        exact ih hbl.2 hc.2
    simpa using key hb.1 (by simpa using hl)

theorem chain_concat {h : Option α} {l : List α} {c : α} (hl : Chain next h l) (hd : l.Nodup)
    (hc : c ∉ l) :
    Chain (update ((Loc.after l).setNext next (some c)) c none) ((Loc.after l).setHead h (some c))
      (l ++ [c]) := by
  have hl' : Chain (update next c none) h (l ++ []) := by
    rw [append_nil]
    exact chain_congr (fun a ha => update_of_ne (fun e => hc (by rwa [← e])) _ _) hl
  have key := chain_store l hl' (v := some c) (t := [c]) (by simp) (by simpa using hd.concat hc)
  refine chain_congr (fun a ha => ?_) key
  -- the last node of the list is not the new one, so the two stores commute
  induction l using List.reverseRecOn with
  | nil => rfl
  | append_singleton l b _ =>
    rw [after_concat]
    simp only [Loc.setNext]
    rw [update_comm]
    rintro rfl
    simp at hc

theorem chain_insert {h : Option α} {l s : List α} {c : α} (hl : Chain next h (l ++ s))
    (hd : (l ++ s).Nodup) (hc : c ∉ l ++ s) :
    Chain ((Loc.after l).setNext (update next c ((Loc.after l).get h next)) (some c)) ((Loc.after l).setHead h (some c))
      (l ++ c :: s) := by
  have hsame : ∀ a ∈ l ++ s, update next c ((Loc.after l).get h next) a = next a := fun a ha =>
    update_of_ne (fun e => hc (by rwa [← e])) _ _
  refine chain_store l (chain_congr hsame hl) ⟨rfl, ?_⟩ (nodup_middle.mpr (nodup_cons.mpr ⟨hc, hd⟩))
  rw [update_self]
  exact chain_congr (fun a ha => hsame a (mem_append_right _ ha)) (chain_after l hl)

theorem chain_remove {h : Option α} {l r : List α} {p : α} (hl : Chain next h (l ++ p :: r))
    (hd : (l ++ p :: r).Nodup) :
    Chain ((Loc.after l).setNext next (next p)) ((Loc.after l).setHead h (next p)) (l ++ r) :=
  chain_store l hl (chain_after l hl).2 (hd.sublist (by simp))

end Stores

end Minix.Lib
