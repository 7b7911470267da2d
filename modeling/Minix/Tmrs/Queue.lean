import Minix.Tmrs.Library

/-!
# The queue of timers

The queue has exactly the timers that are armed, in the order of their times, and those of one time in the order in
which they were set (`Queued`).

- `Queued.clr`, `Queued.set`, `Queued.pop`: every edit of the queue keeps that;
- `Queued.calls`: and a list of calls that arm timers for later than `now` only takes timers out of those that are due;
- `Queued.expired`: so `tmrs_exptimers` ends, and has run exactly the timers that were due, but for those that a
  watchdog set or cleared before (`Expired`).
-/

namespace Minix.Tmrs

open Lib Function List

variable {T W σ : Type}

/-- A call sets or clears a timer. -/
def Call.Touches (t : T) : Call T W σ → Prop
  | .set tp _ _ => tp = t
  | .clr tp => tp = t
  | .other _ => False

instance [DecidableEq T] (t : T) : ∀ c : Call T W σ, Decidable (c.Touches t)
  | .set tp _ _ => inferInstanceAs (Decidable (tp = t))
  | .clr tp => inferInstanceAs (Decidable (tp = t))
  | .other _ => inferInstanceAs (Decidable False)

/-- A timer is armed for later than a time. -/
def Call.After (now : Int) : Call T W σ → Prop
  | .set _ expTime _ => now < expTime
  | _ => True

/-- Some call sets or clears a timer. -/
def Touched (cs : List (Call T W σ)) (t : T) : Prop := ∃ c ∈ cs, c.Touches t

instance [DecidableEq T] (cs : List (Call T W σ)) (t : T) : Decidable (Touched cs t) :=
  inferInstanceAs (Decidable (∃ c ∈ cs, c.Touches t))

namespace Timers

variable {s k : Timers T W σ} {q : List T} {tp : T} {now : Int}

/-- A timer is armed. -/
def Armed (s : Timers T W σ) (t : T) : Prop := (s.since t).isSome = true

/-- The order of expiry. -/
def Before (s : Timers T W σ) (a b : T) : Prop :=
  s.tmrExpTime a < s.tmrExpTime b ∨ s.tmrExpTime a = s.tmrExpTime b ∧ (s.since a).getD 0 < (s.since b).getD 0

theorem Before.irrefl (a : T) : ¬ s.Before a a := by
  unfold Before
  omega

theorem Before.asymm {a b : T} (h : s.Before a b) : ¬ s.Before b a := by
  unfold Before at *
  omega

/-- The queue, as a list. -/
structure Queued (s : Timers T W σ) (q : List T) : Prop where
  chain : Chain s.tmrNext s.tmrs q
  nodup : q.Nodup
  sorted : q.Pairwise s.Before
  armed : ∀ t, t ∈ q ↔ s.Armed t
  older : ∀ t n, s.since t = some n → n < s.sets

/-- A timer is as before. -/
structure Same (s k : Timers T W σ) (t : T) : Prop where
  expTime : k.tmrExpTime t = s.tmrExpTime t
  func : k.tmrFunc t = s.tmrFunc t
  since : k.since t = s.since t

theorem Same.trans {k' : Timers T W σ} {t : T} (h : Same s k t) (h' : Same k k' t) : Same s k' t :=
  ⟨h'.expTime.trans h.expTime, h'.func.trans h.func, h'.since.trans h.since⟩

theorem Same.before {a b : T} (ha : Same s k a) (hb : Same s k b) : k.Before a b ↔ s.Before a b := by
  unfold Before
  rw [ha.expTime, hb.expTime, ha.since, hb.since]

theorem Same.armed {t : T} (h : Same s k t) : k.Armed t ↔ s.Armed t := by rw [Armed, Armed, h.since]

theorem sorted_of_same (h : q.Pairwise s.Before) (hs : ∀ t ∈ q, Same s k t) : q.Pairwise k.Before :=
  h.imp_of_mem fun ha hb hab => ((hs _ ha).before (hs _ hb)).mpr hab

theorem not_armed {t : T} (h : s.since t = none) : ¬ s.Armed t := by
  rw [Armed, h]
  exact Bool.false_ne_true

theorem Queued.le_of_mem {d : T} (h : s.Queued (d :: q)) {t : T} (ht : t ∈ q) : s.tmrExpTime d ≤ s.tmrExpTime t := by
  have := (pairwise_cons.mp h.sorted).1 t ht
  unfold Before at this
  omega

theorem Queued.since_lt (h : s.Queued q) {t : T} (ht : t ∈ q) : (s.since t).getD 0 < s.sets := by
  obtain ⟨n, hn⟩ := Option.isSome_iff_exists.mp ((h.armed t).mp ht)
  rw [hn]
  exact h.older t n hn

theorem Queued.length_lt [Fintype T] (h : s.Queued q) : q.length < Fintype.card T + 1 :=
  Nat.lt_succ_of_le h.nodup.length_le_card

/-- The timers that are due, in order. -/
def due (s : Timers T W σ) (now : Int) (q : List T) : List T := q.filter fun t => s.tmrExpTime t ≤ now

/-! ## Edits of the queue -/

section

variable [DecidableEq T]

theorem Queued.without (h : s.Queued q) (hchain : Chain k.tmrNext k.tmrs (q.erase tp)) (hs : ∀ t, t ≠ tp → Same s k t)
    (hnone : k.since tp = none) (hsets : k.sets = s.sets) : k.Queued (q.erase tp) := by
  have hmem : ∀ t, t ∈ q.erase tp ↔ t ≠ tp ∧ t ∈ q := fun t => h.nodup.mem_erase_iff
  refine ⟨hchain, h.nodup.erase tp, ?_, fun t => ?_, fun t n ht => ?_⟩
  · exact sorted_of_same (h.sorted.sublist erase_sublist) fun t ht => hs t ((hmem t).mp ht).1
  · rw [hmem]
    by_cases ht : t = tp
    · subst ht
      exact iff_of_false (fun h' => h'.1 rfl) (not_armed hnone)
    · rw [(hs t ht).armed, h.armed, and_iff_right ht]
  · rw [hsets]
    refine h.older t n ?_
    rw [← (hs t ?_).since]
    · exact ht
    · rintro rfl
      rw [hnone] at ht
      cases ht

theorem Queued.pop (h : s.Queued (tp :: q)) : (s.pop tp).Queued q ∧ ∀ t, t ≠ tp → Same s (s.pop tp) t := by
  have hs : ∀ t, t ≠ tp → Same s (s.pop tp) t := fun t ht => ⟨update_of_ne ht _ _, rfl, update_of_ne ht _ _⟩
  refine ⟨?_, hs⟩
  have hchain : Chain (s.pop tp).tmrNext (s.pop tp).tmrs ((tp :: q).erase tp) := by
    rw [erase_cons_head]
    exact h.chain.2
  have hq := h.without hchain hs (update_self _ _ _) rfl
  rwa [erase_cons_head] at hq

theorem due_erase (h : q.Nodup) (hs : ∀ t, t ≠ tp → Same s k t) :
    k.due now (q.erase tp) = (s.due now q).filter fun t => ¬ tp = t := by
  rw [h.erase_eq_filter, due, due, filter_filter, filter_filter]
  refine filter_congr fun t _ => ?_
  by_cases ht : t = tp
  · simp [ht]
  · simp [ht, Ne.symm ht, (hs t ht).expTime]

/-- The timers that are due are run in order, except that those that a watchdog sets or clears are not due any more. -/
inductive Runs : List T → Ran T W σ → Prop
  | nil : Runs [] []
  | cons (d : T) {D : List T} (cs : List (Call T W σ)) {ran : Ran T W σ}
    (h : Runs (D.filter fun t => ¬ Touched cs t) ran) :
    Runs (d :: D) ((d, cs) :: ran)

theorem Runs.sublist {D : List T} {ran : Ran T W σ} (h : Runs D ran) : (ran.map Prod.fst).Sublist D := by
  induction h with
  | nil => exact List.Sublist.refl _
  | cons d cs _ ih => exact (ih.trans filter_sublist).cons_cons d

/-- Exactly those are run that no earlier watchdog sets or clears. -/
theorem Runs.mem_iff {D : List T} {ran : Ran T W σ} (h : Runs D ran) (hD : D.Pairwise s.Before) (t : T) :
    t ∈ ran.map Prod.fst ↔ t ∈ D ∧ ∀ r ∈ ran, s.Before r.1 t → ¬ Touched r.2 t := by
  induction h with
  | nil => simp
  | @cons d D cs ran h ih =>
    have hfilter : (D.filter fun t => ¬ Touched cs t).Pairwise s.Before :=
      (pairwise_cons.mp hD).2.sublist filter_sublist
    rw [map_cons, mem_cons, ih hfilter, mem_cons, mem_filter, decide_eq_true_iff, forall_mem_cons]
    constructor
    · rintro (rfl | ⟨⟨ht, hcs⟩, hran⟩)
      · refine ⟨.inl rfl, fun hb => absurd hb (Before.irrefl t), fun r hr hb => absurd hb (Before.asymm ?_)⟩
        exact (pairwise_cons.mp hD).1 r.1 (mem_of_mem_filter (h.sublist.subset (mem_map_of_mem hr)))
      · exact ⟨.inr ht, fun _ => hcs, hran⟩
    · rintro ⟨rfl | ht, hd, hran⟩
      · exact .inl rfl
      · exact .inr ⟨⟨ht, hd ((pairwise_cons.mp hD).1 t ht)⟩, hran⟩

variable [Fintype T]

theorem Queued.clr (h : s.Queued q) (tp : T) :
    ∃ k, s.tmrsClrtimer tp = some (⟨s.headTime, k.headTime⟩, k) ∧ k.Queued (q.erase tp) ∧ k.since tp = none ∧
      (∀ t, t ≠ tp → Same s k t) ∧ k.world = s.world := by
  have hlen := h.length_lt
  suffices hk :
      ∃ k, unlink { s with tmrExpTime := update s.tmrExpTime tp TMR_NEVER, since := update s.since tp none } tp =
      some k ∧ Chain k.tmrNext k.tmrs (q.erase tp) ∧ k.tmrExpTime = update s.tmrExpTime tp TMR_NEVER ∧
      k.since = update s.since tp none ∧ k.tmrFunc = s.tmrFunc ∧ k.sets = s.sets ∧ k.world = s.world by
    obtain ⟨k, hk, hchain, hexp, hsince, hfunc, hsets, hworld⟩ := hk
    have hsame : ∀ t, t ≠ tp → Same s k t := fun t ht =>
      ⟨by rw [hexp, update_of_ne ht], by rw [hfunc], by rw [hsince, update_of_ne ht]⟩
    have hnone : k.since tp = none := by rw [hsince, update_self]
    refine ⟨k, ?_, h.without hchain hsame hnone hsets, hnone, hsame, hworld⟩
    rw [tmrsClrtimer, hk]
    rfl
  unfold unlink
  by_cases hmem : tp ∈ q
  · obtain ⟨l, r, rfl⟩ := append_of_mem hmem
    have hd := nodup_cons.mp (nodup_middle.mp h.nodup)
    have hl : tp ∉ l := fun hm => hd.1 (mem_append_left _ hm)
    have hscan : scan s.tmrs s.tmrNext (fun a => decide (a = tp)) (Fintype.card T + 1) .head = some (Loc.after l) := by
      refine scan_head h.chain (fun a ha => decide_eq_false fun e => hl (e ▸ ha)) (fun a ha => ?_) ?_
      · cases ha
        exact decide_eq_true rfl
      · rw [length_append] at hlen
        omega
    have hget : (Loc.after l).get s.tmrs s.tmrNext = some tp := (chain_after l h.chain).1
    rw [hscan, Option.map_some, if_pos hget, erase_append_right _ hl, erase_cons_head]
    exact ⟨_, rfl, chain_remove h.chain h.nodup, rfl, rfl, rfl, rfl, rfl⟩
  · have hscan : scan s.tmrs s.tmrNext (fun a => decide (a = tp)) (Fintype.card T + 1) .head = some (Loc.after q) :=
      scan_head (s := []) (by rw [append_nil]; exact h.chain)
        (fun a ha => decide_eq_false fun e => hmem (e ▸ ha)) nofun hlen
    have hget : Chain s.tmrNext ((Loc.after q).get s.tmrs s.tmrNext) [] :=
      chain_after q (by rw [append_nil]; exact h.chain)
    rw [hscan, Option.map_some, if_neg (by rw [chain_nil.mp hget]; nofun), erase_of_not_mem hmem]
    exact ⟨_, rfl, h.chain, rfl, rfl, rfl, rfl, rfl⟩

theorem Queued.arm (h : s.Queued q) (hnew : s.since tp = none) (expTime : Int) (watchdog : W) :
    ∃ k r u, (s.arm tp expTime watchdog).link tp = some k ∧ q = r ++ u ∧ k.Queued (r ++ tp :: u) ∧
    k.tmrExpTime tp = expTime ∧
      k.tmrFunc tp = watchdog ∧ k.since tp = some s.sets ∧ (∀ t, t ≠ tp → Same s k t) ∧ k.world = s.world := by
  have hmem : ∀ t ∈ q, t ≠ tp := by
    rintro t ht rfl
    exact not_armed hnew ((h.armed t).mp ht)
  have hexp : ∀ t ∈ q, (s.arm tp expTime watchdog).tmrExpTime t = s.tmrExpTime t :=
    fun t ht => update_of_ne (hmem t ht) _ _
  have hself : (s.arm tp expTime watchdog).tmrExpTime tp = expTime := update_self _ _ _
  have hsame : ∀ t, t ≠ tp → Same s (s.arm tp expTime watchdog) t := fun t ht =>
    ⟨update_of_ne ht _ _, update_of_ne ht _ _, update_of_ne ht _ _⟩
  have hsince : (s.arm tp expTime watchdog).since tp = some s.sets := update_self _ _ _
  obtain ⟨r, u, rfl, hr, hu⟩ := exists_first_split
    (fun a => decide ((s.arm tp expTime watchdog).tmrExpTime tp < (s.arm tp expTime watchdog).tmrExpTime a)) q
  have hlen := h.length_lt
  rw [length_append] at hlen
  have hscan := scan_head h.chain hr hu (n := Fintype.card T + 1) (by omega)
  have hnotin : tp ∉ r ++ u := fun hm => hmem tp hm rfl
  have hsorted := pairwise_append.mp h.sorted
  -- those before the timer expire no later, and were set before; those after it expire later
  have hlow : ∀ a ∈ r, (s.arm tp expTime watchdog).Before a tp := by
    intro a ha
    have hle := of_decide_eq_false (hr a ha)
    have hlt := h.since_lt (mem_append_left u ha)
    unfold Before
    rw [hsince, (hsame a (hmem a (mem_append_left u ha))).since, Option.getD_some]
    omega
  have hhigh : ∀ b ∈ u, (s.arm tp expTime watchdog).Before tp b := by
    intro b hb
    left
    cases u with
    | nil => cases hb
    | cons d u =>
      have hd := of_decide_eq_true (hu d rfl)
      rcases mem_cons.mp hb with rfl | hb'
      · exact hd
      · have hdb := (pairwise_cons.mp hsorted.2.1).1 b hb'
        rw [hexp d (mem_append_right r mem_cons_self)] at hd
        rw [hexp b (mem_append_right r hb)]
        unfold Before at hdb
        omega
  have hsorted' : (r ++ tp :: u).Pairwise (s.arm tp expTime watchdog).Before := by
    have hru := sorted_of_same h.sorted fun t ht => hsame t (hmem t ht)
    have hru' := pairwise_append.mp hru
    refine pairwise_append.mpr ⟨hru'.1, pairwise_cons.mpr ⟨hhigh, hru'.2.1⟩, fun a ha b hb => ?_⟩
    rcases mem_cons.mp hb with rfl | hb
    · exact hlow a ha
    · exact hru'.2.2 a ha b hb
  refine ⟨_, r, u, congrArg (Option.map _) hscan, rfl,
    ⟨chain_insert h.chain h.nodup hnotin, ?_, hsorted', fun t => ?_, fun t n ht => ?_⟩,
    hself, update_self _ _ _, hsince, fun t ht => ⟨(hsame t ht).expTime, (hsame t ht).func, (hsame t ht).since⟩, rfl⟩
  · exact nodup_middle.mpr (nodup_cons.mpr ⟨hnotin, h.nodup⟩)
  · rw [perm_middle.mem_iff, mem_cons, h.armed]
    by_cases ht : t = tp
    · subst ht
      exact iff_of_true (.inl rfl) (Option.isSome_iff_exists.mpr ⟨_, hsince⟩)
    · rw [or_iff_right ht]
      exact (hsame t ht).armed.symm
  · by_cases htp : t = tp
    · subst htp
      cases hsince.symm.trans ht
      exact Nat.lt_succ_self _
    · exact (h.older t n ((hsame t htp).since.symm.trans ht)).trans (Nat.lt_succ_self _)

theorem Queued.set (h : s.Queued q) (tp : T) (expTime : Int) (watchdog : W) :
    ∃ k r u, s.tmrsSettimer tp expTime watchdog = some (⟨s.headTime, k.headTime⟩, k) ∧ q.erase tp = r ++ u ∧
      k.Queued (r ++ tp :: u) ∧ k.tmrExpTime tp = expTime ∧ k.tmrFunc tp = watchdog ∧ (∀ t, t ≠ tp → Same s k t) ∧
      k.world = s.world := by
  obtain ⟨k1, hclr, hq1, hnone, hsame1, hworld1⟩ := h.clr tp
  obtain ⟨k, r, u, hlink, hru, hq, hexp, hfunc, -, hsame, hworld⟩ := hq1.arm hnone expTime watchdog
  refine ⟨k, r, u, ?_, hru, hq, hexp, hfunc, fun t ht => (hsame1 t ht).trans (hsame t ht), hworld.trans hworld1⟩
  rw [tmrsSettimer, hclr]
  dsimp only [Option.bind_some]
  rw [hlink, Option.map_some]

theorem Queued.call (h : s.Queued q) (c : Call T W σ) :
    ∃ k q', s.call c = some k ∧ k.Queued q' ∧ (∀ t, ¬ c.Touches t → Same s k t) ∧
      ∀ now, c.After now → k.due now q' = (s.due now q).filter fun t => ¬ c.Touches t := by
  cases c with
  | set tp expTime watchdog =>
    obtain ⟨k, r, u, hset, hru, hq, hexp, -, hsame, -⟩ := h.set tp expTime watchdog
    refine ⟨k, _, by rw [Timers.call, hset]; rfl, hq, fun t ht => hsame t (Ne.symm ht), fun now hnow => ?_⟩
    have hlate : ¬ k.tmrExpTime tp ≤ now := by
      rw [hexp]
      exact not_le.mpr hnow
    refine Eq.trans ?_ (due_erase h.nodup hsame)
    rw [hru, due, due, filter_append, filter_append, filter_cons_of_neg (by simpa using hlate)]
  | clr tp =>
    obtain ⟨k, hclr, hq, -, hsame, -⟩ := h.clr tp
    exact ⟨k, _, by rw [Timers.call, hclr]; rfl, hq, fun t ht => hsame t (Ne.symm ht),
      fun now _ => due_erase h.nodup hsame⟩
  | other f =>
    refine ⟨_, q, rfl, ⟨h.chain, h.nodup, h.sorted, h.armed, h.older⟩, fun t _ => ⟨rfl, rfl, rfl⟩, fun now _ => ?_⟩
    exact (filter_eq_self.mpr fun t _ => by simp [Call.Touches]).symm

theorem Queued.calls (cs : List (Call T W σ)) : ∀ {s : Timers T W σ} {q : List T}, s.Queued q →
    ∃ k q', s.calls cs = some k ∧ k.Queued q' ∧ (∀ t, ¬ Touched cs t → Same s k t) ∧
      ∀ now, (∀ c ∈ cs, c.After now) → k.due now q' = (s.due now q).filter fun t => ¬ Touched cs t := by
  induction cs with
  | nil =>
    intro s q h
    refine ⟨s, q, rfl, h, fun t _ => ⟨rfl, rfl, rfl⟩, fun now _ => ?_⟩
    exact (filter_eq_self.mpr fun t _ => by simp [Touched]).symm
  | cons c cs ih =>
    intro s q h
    obtain ⟨k1, q1, hc, hq1, hsame1, hdue1⟩ := h.call c
    obtain ⟨k, q', hcs, hq, hsame, hdue⟩ := ih hq1
    have htouched : ∀ t, Touched (c :: cs) t ↔ c.Touches t ∨ Touched cs t := fun t => by simp [Touched]
    refine ⟨k, q', ?_, hq, fun t ht => ?_, fun now hnow => ?_⟩
    · rw [Timers.calls, run, hc]
      exact hcs
    · rw [htouched, not_or] at ht
      exact (hsame1 t ht.1).trans (hsame t ht.2)
    · rw [hdue now fun c' hc' => hnow c' (mem_cons_of_mem c hc'), hdue1 now (hnow c mem_cons_self), filter_filter]
      refine filter_congr fun t _ => ?_
      simp only [htouched, not_or, Bool.decide_and, Bool.and_comm]

/-! ## Expiry -/

/-- Watchdogs that run at a time set timers for later only. -/
def Later (prog : Prog T W σ) (now : Int) (p : Timers T W σ × Ran T W σ) : Prop :=
  ∀ p', Reaches (expTurn prog now) p p' → ∀ tp, p'.1.tmrs = some tp → p'.1.tmrExpTime tp ≤ now →
    ∀ c ∈ prog (p'.1.tmrFunc tp) tp (p'.1.pop tp), c.After now

theorem expTurn_nil (h : s.tmrs = none) (prog : Prog T W σ) (ran : Ran T W σ) :
    expTurn prog now (s, ran) = .done (s, ran) := by
  rw [expTurn, h]

theorem expTurn_late {d : T} (h : s.tmrs = some d) (hlate : ¬ s.tmrExpTime d ≤ now) (prog : Prog T W σ)
    (ran : Ran T W σ) :
    expTurn prog now (s, ran) = .done (s, ran) := by
  rw [expTurn, h]
  exact if_neg hlate

theorem expTurn_due {d : T} (h : s.tmrs = some d) (hdue : s.tmrExpTime d ≤ now) {prog : Prog T W σ}
    (hcalls : (s.pop d).calls (prog (s.tmrFunc d) d (s.pop d)) = some k) (ran : Ran T W σ) :
    expTurn prog now (s, ran) = .again (k, ran ++ [(d, prog (s.tmrFunc d) d (s.pop d))]) := by
  have hfunc : (s.pop d).tmrFunc = s.tmrFunc := rfl
  rw [expTurn, h]
  dsimp only
  rw [if_pos hdue, hfunc, hcalls]

theorem Queued.expTurn {d : T} (h : s.Queued (d :: q)) (prog : Prog T W σ) (hdue : s.tmrExpTime d ≤ now)
    (ran : Ran T W σ) :
    ∃ k q', expTurn prog now (s, ran) = .again (k, ran ++ [(d, prog (s.tmrFunc d) d (s.pop d))]) ∧ k.Queued q' ∧
      ((∀ c ∈ prog (s.tmrFunc d) d (s.pop d), c.After now) →
        k.due now q' = (s.due now q).filter fun t => ¬ Touched (prog (s.tmrFunc d) d (s.pop d)) t) := by
  obtain ⟨hpop, hsame⟩ := h.pop
  obtain ⟨k, q', hcalls, hq, -, hk⟩ := hpop.calls (prog (s.tmrFunc d) d (s.pop d))
  have hd := (nodup_cons.mp h.nodup).1
  have hpopdue : (s.pop d).due now q = s.due now q := filter_congr fun t ht => by
    rw [(hsame t fun e => hd (e ▸ ht)).expTime]
  exact ⟨k, q', expTurn_due h.chain.1 hdue hcalls ran, hq, fun hafter => by rw [hk now hafter, hpopdue]⟩

/-- The loop ends, and has run the timers that are due. -/
theorem Queued.expires (prog : Prog T W σ) : ∀ (fuel : Nat) {s : Timers T W σ} {q : List T}
    {ran : Ran T W σ}, s.Queued q →
    Later prog now (s, ran) → (s.due now q).length < fuel →
    ∃ k q' new, loop (Timers.expTurn prog now) fuel (s, ran) = some (k, ran ++ new) ∧ k.Queued q' ∧
    Runs (s.due now q) new ∧
      k.due now q' = []
  | 0, _, _, _, _, _, hlt => absurd hlt (Nat.not_lt_zero _)
  | fuel + 1, s, q, ran, h, hlater, hlt => by
    -- the loop is left with the timers as they are if none is due
    have hdone : s.due now q = [] → Timers.expTurn prog now (s, ran) = .done (s, ran) →
        ∃ k q' new, loop (Timers.expTurn prog now) (fuel + 1) (s, ran) = some (k, ran ++ new) ∧ k.Queued q' ∧
          Runs (s.due now q) new ∧ k.due now q' = [] := by
      intro hnil hturn
      refine ⟨s, q, [], ?_, h, hnil ▸ .nil, hnil⟩
      rw [loop, hturn, append_nil]
    cases q with
    | nil => exact hdone rfl (expTurn_nil (chain_nil.mp h.chain) prog ran)
    | cons d q =>
      by_cases hdue : s.tmrExpTime d ≤ now
      · have hcons : s.due now (d :: q) = d :: s.due now q := filter_cons_of_pos (decide_eq_true hdue)
        obtain ⟨k1, q1, hturn, hq1, hk1⟩ := h.expTurn prog hdue ran
        have hafter := hlater _ (Reaches.refl _) d h.chain.1 hdue
        rw [hcons, length_cons] at hlt
        have hlt1 : (k1.due now q1).length < fuel := by
          rw [hk1 hafter]
          have := length_filter_le (fun t => decide (¬ Touched (prog (s.tmrFunc d) d (s.pop d)) t)) (s.due now q)
          omega
        obtain ⟨k, q', new, hloop, hq, hruns, hnil⟩ :=
          hq1.expires prog fuel (fun p' hp' => hlater p' (hp'.head hturn)) hlt1
        refine ⟨k, q', (d, prog (s.tmrFunc d) d (s.pop d)) :: new, ?_, hq, ?_, hnil⟩
        · rw [loop, hturn]
          refine hloop.trans ?_
          rw [append_assoc]
          rfl
        · rw [hk1 hafter] at hruns
          rw [hcons]
          exact .cons d _ hruns
      · refine hdone (filter_eq_nil_iff.mpr fun t ht hle => hdue ?_) (expTurn_late h.chain.1 hdue prog ran)
        rcases mem_cons.mp ht with rfl | ht
        · exact of_decide_eq_true hle
        · exact (h.le_of_mem ht).trans (of_decide_eq_true hle)

/-- What `tmrs_exptimers` runs and leaves. -/
structure Expired (s : Timers T W σ) (now : Int) (k : Timers T W σ) (ran : Ran T W σ) : Prop where
  once : (ran.map Prod.fst).Nodup
  order : (ran.map Prod.fst).Pairwise s.Before
  exact : ∀ t, t ∈ ran.map Prod.fst ↔ (s.Armed t ∧ s.tmrExpTime t ≤ now) ∧ ∀ r ∈ ran, s.Before r.1 t → ¬ Touched r.2 t
  rest : ∀ t, k.Armed t → now < k.tmrExpTime t

theorem Queued.expired (h : s.Queued q) (prog : Prog T W σ) (hlater : Later prog now (s, [])) {fuel : Nat}
    (hfuel : q.length < fuel) :
    ∃ k ran, s.tmrsExptimers prog now fuel = some (k, ran) ∧ s.Expired now k ran := by
  have hlen : (s.due now q).length < fuel := (length_filter_le _ _).trans_lt hfuel
  obtain ⟨k, q', ran, hloop, hq, hruns, hnil⟩ := h.expires prog fuel hlater hlen
  have hsorted : (s.due now q).Pairwise s.Before := h.sorted.sublist filter_sublist
  refine ⟨k, ran, hloop, (h.nodup.sublist filter_sublist).sublist hruns.sublist,
    hsorted.sublist hruns.sublist, fun t => ?_,
    fun t ht => ?_⟩
  · rw [hruns.mem_iff hsorted, due, mem_filter, h.armed, decide_eq_true_iff]
  · by_contra hle
    have : t ∈ k.due now q' := mem_filter.mpr ⟨(hq.armed t).mpr ht, decide_eq_true (not_lt.mp hle)⟩
    rw [hnil] at this
    cases this

/-- The loop keeps the queue, whatever watchdogs do. -/
theorem Queued.turn {p p' : Timers T W σ × Ran T W σ} {prog : Prog T W σ} (h : ∃ q, p.1.Queued q)
    (ht : Timers.expTurn prog now p = .again p') : ∃ q, p'.1.Queued q := by
  obtain ⟨s, ran⟩ := p
  obtain ⟨q, h⟩ := h
  cases q with
  | nil => cases (expTurn_nil (chain_nil.mp h.chain) prog ran).symm.trans ht
  | cons d q =>
    by_cases hdue : s.tmrExpTime d ≤ now
    · obtain ⟨k, q', hturn, hq, -⟩ := h.expTurn prog hdue ran
      cases hturn.symm.trans ht
      exact ⟨q', hq⟩
    · cases (expTurn_late h.chain.1 hdue prog ran).symm.trans ht

theorem Queued.exptimers {prog : Prog T W σ} {fuel : Nat} {ran : Ran T W σ} (h : s.Queued q)
    (hr : s.tmrsExptimers prog now fuel = some (k, ran)) : ∃ q', k.Queued q' := by
  obtain ⟨p, hreach, hdone⟩ := loop_reaches hr
  obtain ⟨q', hq'⟩ := hreach.invariant (fun _ _ hI ht => Queued.turn hI ht) ⟨q, h⟩
  have hp : p.1 = k := by
    unfold Timers.expTurn at hdone
    dsimp only at hdone
    split at hdone
    · cases hdone
      rfl
    · split at hdone
      · split at hdone <;> cases hdone
      · cases hdone
        rfl
  exact ⟨q', hp ▸ hq'⟩

end

end Timers

end Minix.Tmrs
