import Minix.Kernel.CallerQueues
import Minix.Lib.Graph

/-!
# Deadlock

The blocked-on graph has an edge from a process to the one it is sending to, or to the one it is waiting for a message
from. `deadlock_free_of_run`: in every run in which no process addresses a call to itself the graph has no cycle, so
`deadlock` always ends (`deadlock_ends`).

The condition is needed: `deadlock` starts at the process that is called and finds a caller that is not blocked yet, so
a `RECEIVE` from oneself is let through (`deadlock_self`). After it, `deadlock` never returns for a call to that
process.
-/

namespace Minix.Kernel

open Minix.Lib Relation Function

namespace View

variable {v w : View} {c rc : Slot}

/-- `p` is blocked until `q` does something: it is sending to `q`, or it is only receiving, from `q`. -/
def BlockedOn (v : View) (p q : Slot) : Prop :=
  (v.sending p = true ∧ v.sendto p = v.endpoint q) ∨
    (v.sending p = false ∧ v.receiving p = true ∧ v.getfrom p = v.endpoint q)

variable {p : Slot}

theorem not_blockedOn_of_idle (hs : v.sending p = false) (hr : v.receiving p = false) (q : Slot) :
    ¬ v.BlockedOn p q := by
  rintro (⟨h, _⟩ | ⟨_, h, _⟩)
  · rw [hs] at h
    cases h
  · rw [hr] at h
    cases h

variable {q : Slot}

theorem BlockedOn.unique (hg : v.Good) {q' : Slot} (h : v.BlockedOn p q) (h' : v.BlockedOn p q') : q = q' := by
  rcases h with ⟨h1, h2⟩ | ⟨h1, _, h2⟩ <;> rcases h' with ⟨h3, h4⟩ | ⟨h3, _, h4⟩
  · exact hg.endpoint_inj.mp (h2.symm.trans h4)
  · rw [h1] at h3
    cases h3
  · rw [h1] at h3
    cases h3
  · exact hg.endpoint_inj.mp (h2.symm.trans h4)

/-! ## Fewer edges -/

theorem Eases.blockedOn (h : v.Eases w) (hb : w.BlockedOn p q) : v.BlockedOn p q := by
  unfold BlockedOn at hb ⊢
  rw [h.sending, h.sendto, h.endpoint, h.getfrom] at hb
  rcases hb with hb | ⟨h1, h2, h3⟩
  · exact .inl hb
  · exact .inr ⟨h1, h.receiving p h2, h3⟩

theorem unrecv_blockedOn {d : Slot} (hb : (v.unrecv d).BlockedOn p q) : v.BlockedOn p q :=
  (Eases.unrecv v d).blockedOn hb

/-- A sender that is taken from a queue and is also receiving still waits for the same process. -/
theorem unlink_blockedOn (hg : v.Good) {x : Loc Slot} {q' : Slot} (hs : v.sending p = true)
    (hb : (v.unlink c p x).BlockedOn q q') : v.BlockedOn q q' := by
  unfold BlockedOn at hb ⊢
  simp only [View.unlink, View.storeQ, View.unsend] at hb
  by_cases hq : q = p
  · subst hq
    simp only [update_self] at hb
    rcases hb with ⟨h, _⟩ | ⟨_, h1, h2⟩
    · cases h
    · exact .inl ⟨hs, by rw [← hg.sendRec q hs h1]; exact h2⟩
  · simpa only [update_of_ne hq] using hb

theorem forget_blockedOn (hg : v.Good) (hb : (v.forget rc).BlockedOn p q) : v.BlockedOn p q := by
  rcases hb with ⟨h1, h2⟩ | ⟨h1, h2, h3⟩
  · simp only [View.forget, View.lose, View.clearAll, Bool.and_eq_true, bne_iff_ne] at h1
    exact .inl ⟨h1.1, h2⟩
  · simp only [View.forget, View.lose, View.clearAll, Bool.and_eq_true, bne_iff_ne] at h2
    refine .inr ⟨?_, h2.1, h3⟩
    -- a sender that is also receiving waits for one process only, so it is woken up twice or not at all
    by_contra hs
    have hs : v.sending p = true := by simpa using hs
    have hne : v.sendto p ≠ v.endpoint rc := by rw [← hg.sendRec p hs h2.1]; exact h2.2
    simp [View.forget, View.lose, View.clearAll, hs, hne] at h1

theorem gone_blockedOn (hb : (v.gone rc).BlockedOn p q) : v.BlockedOn p q := by
  by_cases hp : p = rc
  · subst hp
    exact absurd hb (not_blockedOn_of_idle (by simp [View.gone]) (by simp [View.gone]) q)
  · simpa [BlockedOn, View.gone, hp] using hb

theorem Dies.blockedOn (hg : v.Good) (h : v.Dies rc w) (hb : w.BlockedOn p q) : v.BlockedOn p q := by
  obtain ⟨f, v2, _, hu, rfl⟩ := h
  have hg1 := hg.eases (.dropTables v f)
  have hg2 := (hu.good hg1).1.eases (.unrecv v2 rc)
  have hb := unrecv_blockedOn (forget_blockedOn hg2 hb)
  rcases hu with ⟨_, rfl⟩ | ⟨t, l, r, hs, _, rfl⟩
  · exact (Eases.dropTables v f).blockedOn hb
  · exact (Eases.dropTables v f).blockedOn (unlink_blockedOn hg1 hs hb)

theorem block_blockedOn {d : Slot} {m : Message} {x : Loc Slot} (hg : v.Good)
    (hb : (v.block c d m x).BlockedOn p q) : v.BlockedOn p q ∨ (p = c ∧ q = d) := by
  by_cases hp : p = c
  · subst hp
    rcases hb with ⟨_, h⟩ | ⟨h, _⟩
    · simp only [View.block, View.storeQ, View.send, update_self] at h
      exact .inr ⟨rfl, hg.endpoint_inj.mp h.symm⟩
    · simp [View.block, View.storeQ, View.send] at h
  · left
    simpa [BlockedOn, View.block, View.storeQ, View.send, hp] using hb

theorem listen_blockedOn {e : Endpoint} (hb : (v.listen c e).BlockedOn p q) :
    v.BlockedOn p q ∨ (p = c ∧ v.sending c = false ∧ e = v.endpoint q) := by
  by_cases hp : p = c
  · subst hp
    rcases hb with h | ⟨h1, _, h2⟩
    · exact .inl (.inl h)
    · simp only [View.listen, update_self] at h2
      exact .inr ⟨rfl, h1, h2⟩
  · left
    simpa [BlockedOn, View.listen, hp] using hb

end View

/-! ## The deadlock check -/

namespace State

variable {k : State}

/-- In a good state the chain that `deadlock` follows is the blocked-on graph. -/
theorem dependency_cases (hg : k.view.Good) (p : Slot) :
    (k.dependency p = none ∧ ∀ q, ¬ k.view.BlockedOn p q) ∨ (k.dependency p = some ANY ∧ ∀ q, ¬ k.view.BlockedOn p q) ∨
      ∃ q e, k.dependency p = some e ∧ e ≠ ANY ∧ k.isokendpt e = some q ∧ k.view.BlockedOn p q := by
  have hr : k.rtsIsset p .receiving = k.view.receiving p := rfl
  have hs : k.rtsIsset p .sending = k.view.sending p := rfl
  unfold dependency
  rw [hr, hs]
  cases hr : k.view.receiving p with
  | true =>
    rw [if_pos rfl]
    by_cases ha : k.view.getfrom p = ANY
    · refine .inr (.inl ⟨congrArg some ha, fun q hb => ?_⟩)
      rcases hb with ⟨h1, h2⟩ | ⟨_, _, h2⟩
      · rw [← hg.sendRec p h1 hr, ha] at h2
        exact hg.endpoint_ne_ANY q h2.symm
      · rw [ha] at h2
        exact hg.endpoint_ne_ANY q h2.symm
    · obtain ⟨d, hd, he⟩ := hg.recvFrom p hr ha
      refine .inr (.inr ⟨d, k.view.getfrom p, rfl, ha, by rw [he]; exact isokendpt_endpoint hg hd.1, ?_⟩)
      cases hs : k.view.sending p with
      | true => exact .inl ⟨hs, by rw [← hg.sendRec p hs hr]; exact he⟩
      | false => exact .inr ⟨hs, hr, he⟩
  | false =>
    rw [if_neg (by simp)]
    cases hs : k.view.sending p with
    | true =>
      obtain ⟨d, hd, he⟩ := hg.sendTo p hs
      refine .inr (.inr ⟨d, k.view.sendto p, rfl, ?_, by rw [he]; exact isokendpt_endpoint hg hd.1, .inl ⟨hs, he⟩⟩)
      rw [he]
      exact hg.endpoint_ne_ANY d
    | false => exact .inl ⟨by simp, View.not_blockedOn_of_idle hs hr⟩

/-- When `deadlock` has found nothing, the process it started at does not lead to the caller, or the two are sending and
receiving to each other. -/
theorem deadlock_zero (hg : k.view.Good) {function : Nat} {cp : Slot} :
    ∀ {n g : Nat} {xp : Slot}, 1 ≤ g → xp ≠ cp → k.deadlock function cp n g (some xp) = some 0 →
      ¬ ReflTransGen k.view.BlockedOn xp cp ∨
        (g = 1 ∧ k.view.BlockedOn xp cp ∧ k.sendAndReceive function xp = true)
  | 0, _, _, _, _, h => by simp [deadlock] at h
  | n + 1, g, xp, hg1, hne, h => by
    have hend : (∀ q, ¬ k.view.BlockedOn xp q) → ¬ ReflTransGen k.view.BlockedOn xp cp := by
      intro hb hp
      rcases ReflTransGen.cases_head hp with rfl | ⟨y, hy, _⟩
      · exact hne rfl
      · exact hb y hy
    unfold deadlock at h
    rcases dependency_cases hg xp with ⟨_, hb⟩ | ⟨_, hb⟩ | ⟨y, e, hd, ha, hok, hb⟩
    · exact .inl (hend hb)
    · exact .inl (hend hb)
    · rw [hd] at h
      simp only [if_neg ha, hok] at h
      split_ifs at h with h1 h2
      · subst h1
        exact .inr ⟨by omega, hb, h2.2⟩
      · simp at h
      · -- the chain goes on at `y`, and the group is larger than two
        rcases deadlock_zero hg (by omega) h1 h with h3 | ⟨h3, _⟩
        · left
          intro hp
          rcases ReflTransGen.cases_head hp with rfl | ⟨z, hz, hp⟩
          · exact hne rfl
          · rw [hz.unique hg hb] at hp
            exact h3 hp
        · omega

/-- Without cycles, `deadlock` has ended before it has followed more links than there are processes. -/
theorem deadlock_walk (hg : k.view.Good) (hac : Acyclic k.view.BlockedOn) (function : Nat) (cp : Slot) :
    ∀ {n g : Nat} {xp : Slot} {l : List Slot}, Walk k.view.BlockedOn (xp :: l) → nrSlots ≤ l.length + n →
      ∃ r, k.deadlock function cp n g (some xp) = some r
  | 0, _, _, _, hw, hl => by
    have := hac.walk_length hw
    rw [Fintype.card_fin, List.length_cons] at this
    have : nrSlots = 104 := rfl
    omega
  | n + 1, g, xp, l, hw, hl => by
    unfold deadlock
    rcases dependency_cases hg xp with ⟨hd, _⟩ | ⟨hd, _⟩ | ⟨y, e, hd, ha, hok, hb⟩
    · exact ⟨0, by rw [hd]⟩
    · exact ⟨0, by rw [hd]; simp⟩
    · rw [hd]
      simp only [if_neg ha, hok]
      split_ifs
      · exact ⟨0, rfl⟩
      · exact ⟨_, rfl⟩
      · refine deadlock_walk hg hac function cp (hw.cons hb) ?_
        rw [List.length_cons]
        omega

/-- **`deadlock` ends** for every caller, function and target when the blocked-on graph has no cycle. -/
theorem deadlock_ends (hg : k.view.Good) (hac : Acyclic k.view.BlockedOn) (function : Nat) (cp : Slot) (g : Nat)
    (src : Option Slot) : ∃ r, k.deadlock function cp loopFuel g src = some r := by
  cases src with
  | none => exact ⟨0, rfl⟩
  | some xp => exact deadlock_walk hg hac function cp (List.pairwise_singleton _ _) (by simp [loopFuel])

end State

/-! ## Steps add no cycle -/

namespace View

variable {v w : View} {c d : Slot} {a : CallArgs}

/-- What is known of the process `d` that is called when `deadlock` has found nothing. -/
theorem Unlocked.not_reaches (hg : v.Good) {function : Nat} (hdc : d ≠ c)
    (h : v.Unlocked function c (some d)) :
    ¬ ReflTransGen v.BlockedOn d c ∨ (v.BlockedOn d c ∧ xor (v.sending d) (function.testBit 0) = true) := by
  obtain ⟨k, rfl, h⟩ := h
  rcases State.deadlock_zero hg le_rfl hdc h with h | ⟨_, h1, h2⟩
  · exact .inl h
  · exact .inr ⟨h1, h2⟩

theorem Notifies.acyclic {s : Slot} {e : Endpoint} (h : v.Notifies s e w) (hac : Acyclic v.BlockedOn) :
    Acyclic w.BlockedOn :=
  hac.mono fun _ _ => h.eases.blockedOn

/-- Sending closes no cycle. The destination that waits for the caller gets the message at once. -/
theorem SendRes.acyclic (hg : v.Good) (hac : Acyclic v.BlockedOn) {data : Option Message} {nb : Bool}
    {r : Int} (hu : nb = false → ¬ ReflTransGen v.BlockedOn d c ∨ (v.BlockedOn d c ∧ v.sending d = false))
    (h : v.SendRes c d data nb r w) : Acyclic w.BlockedOn := by
  cases h with
  | failed => exact hac
  | direct => exact hac.mono fun _ _ hb => unrecv_blockedOn hb
  | queued _ hnb _ hw _ =>
    refine hac.insert (fun _ _ hb => block_blockedOn hg hb) ?_
    rcases hu hnb with hu | ⟨⟨h, _⟩ | ⟨_, hr, he⟩, hs⟩
    · exact hu
    · rw [hs] at h
      cases h
    · exact absurd ⟨hr, hs, .inr he⟩ hw

/-- Receiving closes no cycle. A source that is sending to the caller is served at once. -/
theorem RecvRes.acyclic (hg : v.Good) (hac : Acyclic v.BlockedOn) {e : Endpoint} {src : Option Slot}
    {io : TableIo} (he : v.Source e src)
    (hu : ∀ q, src = some q → v.sending c = false →
      ¬ ReflTransGen v.BlockedOn q c ∨ (v.BlockedOn q c ∧ v.sending q = true))
    (h : v.RecvRes c e src io w) : Acyclic w.BlockedOn := by
  cases h with
  | stopped => exact hac
  | whileSending hs =>
    refine hac.mono fun p q hb => ?_
    rcases listen_blockedOn hb with hb | ⟨_, hf, _⟩
    · exact hb
    · rw [hs] at hf
      cases hf
  | notified => exact hac.mono fun _ _ hb => hb
  | @taken p l r _ _ hq _ _ hw =>
    refine hw.acyclic (hac.mono fun _ _ hb => ?_)
    exact unlink_blockedOn (hg.handTo ..) ((hq.mem p).mp (by simp)).1 hb
  | asyn _ hw => exact hac.mono fun _ _ => hw.eases.blockedOn
  | @listening u hs hn hw =>
    have hvu : v.Eases u := by
      rcases hw with rfl | ⟨_, _, hw⟩
      · exact .refl _
      · exact hw.eases
    rcases he with ⟨rfl, _⟩ | ⟨d, rfl, _, rfl⟩
    · -- a process that receives from `ANY` has no edge
      refine hac.mono fun p q hb => ?_
      rcases listen_blockedOn hb with hb | ⟨_, _, hany⟩
      · exact hvu.blockedOn hb
      · exact absurd hany.symm ((hg.eases hvu).endpoint_ne_ANY q)
    · refine hac.insert (a := c) (b := d) (fun p q hb => ?_) ?_
      · rcases listen_blockedOn hb with hb | ⟨hp, _, hq⟩
        · exact .inl (hvu.blockedOn hb)
        · rw [hvu.endpoint] at hq
          exact .inr ⟨hp, (hg.endpoint_inj.mp hq).symm⟩
      · rcases hu d rfl hs with hu | ⟨⟨h1, h2⟩ | ⟨h1, _⟩, hd⟩
        · exact hu
        · exact absurd (.inr rfl) (hn d h1 h2)
        · rw [hd] at h1
          cases h1

/-- After a `SENDREC` has handed its message over, the process that got it is not blocked. -/
theorem SendRes.not_reaches (hdc : d ≠ c) {data : Option Message} (h : v.SendRes c d data false OK w)
    (hs : w.sending c = false) :
    ¬ ReflTransGen w.BlockedOn d c := by
  cases h with
  | failed hr => exact absurd rfl hr
  | @direct m _ _ hw =>
    intro hp
    rcases ReflTransGen.cases_head hp with rfl | ⟨y, hy, _⟩
    · exact hdc rfl
    · refine not_blockedOn_of_idle (v := (v.record (.called c d m)).wake .send c d m) hw.2.1 ?_ y hy
      simp [View.wake, View.unrecv]
  | queued => simp [View.block, View.storeQ, View.send] at hs

/-- A call that is not addressed to the caller closes no cycle. -/
theorem CallRes.acyclic (hg : v.Good) (hac : Acyclic v.BlockedOn) (hc : v.Ready c)
    (hself : a.callNr = SEND ∨ a.callNr = RECEIVE ∨ a.callNr = SENDREC → a.srcDstE ≠ v.endpoint c)
    (h : v.CallRes c a w) : Acyclic w.BlockedOn := by
  cases h with
  | notify hw => exact hw.acyclic hac
  | senda _ hk =>
    subst hk
    exact hac.mono fun _ _ => (State.miniSenda_eases hg ..).blockedOn
  | sendnb _ _ hs => exact hs.acyclic hg hac fun h => by cases h
  | @send d _ _ hn he hu hs =>
    have hdc : d ≠ c := fun h => hself (.inl hn) (by rw [← he, h])
    refine hs.acyclic hg hac fun _ => (hu.not_reaches hg hdc).imp_right (And.imp_right fun h => ?_)
    simpa using h
  | receive hn hu hw =>
    rcases hw with rfl | ⟨src, he, hw⟩
    · exact hac
    · refine hw.acyclic hg hac he fun q hq _ => ?_
      rcases he with ⟨_, rfl⟩ | ⟨q', he, hl, rfl⟩
      · cases hq
      · cases hq
        have hqc : q ≠ c := fun h => hself (.inr (.inl hn)) (by rw [he, h])
        refine ((hu q he.symm hl).not_reaches hg hqc).imp_right (And.imp_right fun h => ?_)
        simpa using h
  | @sendrec d r w' _ hn he hu hs hw =>
    have hdc : d ≠ c := fun h => hself (.inr (.inr hn)) (by rw [← he, h])
    have hac' : Acyclic w'.BlockedOn := by
      refine hs.acyclic hg hac fun _ => (hu.not_reaches hg hdc).imp_right (And.imp_right fun h => ?_)
      simpa using h
    have hg' := hs.good hg hc.1 hc.2.1 hc.2.2
    rcases hw with ⟨_, rfl⟩ | ⟨rfl, rfl | ⟨src, hsrc, hw⟩⟩
    · exact hac'
    · exact hac'
    · refine hw.acyclic hg' hac' hsrc fun q hq hsc => .inl ?_
      rcases hsrc with ⟨_, rfl⟩ | ⟨q', hq', _, rfl⟩
      · cases hq
      · cases hq
        rw [← he, ← hs.sameSlots.endpoint] at hq'
        rw [← hg'.endpoint_inj.mp hq']
        exact hs.not_reaches hdc hsc

theorem RoundRes.acyclic (hg : v.Good) (hac : Acyclic v.BlockedOn) {p : Slot} (hp : v.Ready p)
    (hself : a.callNr = SEND ∨ a.callNr = RECEIVE ∨ a.callNr = SENDREC → a.srcDstE ≠ v.endpoint p)
    (h : v.RoundRes p a w) : Acyclic w.BlockedOn := by
  cases h with
  | delivered => exact hac.mono fun _ _ => (Eases.delivered v p).blockedOn
  | notify hw => exact hw.acyclic hac
  | called _ hw hu => exact hu.acyclic (hw.acyclic hg hac hp hself)

theorem Dies.endpoint {rc : Slot} (h : v.Dies rc w) : w.endpoint = v.endpoint := by
  obtain ⟨f, v2, _, ⟨_, rfl⟩ | ⟨t, l, r, _, _, rfl⟩, rfl⟩ := h <;> rfl

theorem RoundRes.endpoint (hg : v.Good) {p : Slot} (h : v.RoundRes p a w) : w.endpoint = v.endpoint := by
  cases h with
  | delivered => rfl
  | notify hw => exact hw.eases.endpoint
  | called _ hw hu => rw [hu.eases.endpoint, (hw.sameSlots hg).endpoint]

theorem StepRes.endpoint (hg : v.Good) {o : Op} (h : v.StepRes o w) (hf : ∀ e rpc vm lin, o ≠ .fork e rpc vm lin) :
    w.endpoint = v.endpoint := by
  cases h with
  | call _ _ hw => exact (hw.sameSlots hg).endpoint
  | resume _ hw => exact hw.endpoint hg
  | notify hw => exact hw.eases.endpoint
  | noReply => rfl
  | reply _ _ hr => exact hr.sameSlots.endpoint
  | noExit => rfl
  | exit _ hw => exact hw.endpoint
  | signal hw => exact hw.eases.endpoint
  | kill _ _ hw hu => exact hu.endpoint.trans hw.eases.endpoint
  | noFork => exact absurd rfl (hf _ _ _ _)
  | fork => exact absurd rfl (hf _ _ _ _)

end View

namespace State

/-- No process calls itself, and none forks. -/
def NotSelf (k : State) : Op → Prop
  | .call c a | .resume c a _ =>
    a.callNr = SEND ∨ a.callNr = RECEIVE ∨ a.callNr = SENDREC → a.srcDstE ≠ (k.proc c).pEndpoint
  | .fork .. => False
  | .notify .. | .reply .. | .exit .. | .kill .. => True

instance (k : State) : ∀ o, Decidable (k.NotSelf o)
  | .call c a | .resume c a _ => inferInstanceAs (Decidable (_ → a.srcDstE ≠ (k.proc c).pEndpoint))
  | .fork .. => isFalse id
  | .notify .. | .reply .. | .exit .. | .kill .. => isTrue trivial

/-- The invariant: message passing is in order, the system task has its endpoint, and nobody waits in a circle. -/
structure DeadlockFree (k : State) : Prop where
  good : k.view.Good
  system : k.view.endpoint SYSTEM = procNr SYSTEM
  acyclic : Acyclic k.view.BlockedOn

theorem Initial.deadlockFree {k : State} (h : k.Initial) : k.DeadlockFree where
  good := h.good
  system := h.endpoint SYSTEM
  acyclic p hp := by
    obtain ⟨q, hq, _⟩ := TransGen.head'_iff.mp hp
    exact View.not_blockedOn_of_idle (h.idle p).2.2.1 (h.idle p).2.2.2 q hq

variable {k k' : State}

/-- No step closes a cycle. -/
theorem step_acyclic (h : k.DeadlockFree) {o : Op} (hok : k.NotSelf o) (hs : k.view.StepRes o k'.view) :
    Acyclic k'.view.BlockedOn := by
  obtain ⟨hg, hsys, hac⟩ := h
  generalize hv : k'.view = w at hs ⊢
  cases hs with
  | call hc _ hw => exact hw.acyclic hg hac hc hok
  | resume hp hw => exact hw.acyclic hg hac hp hok
  | notify hw => exact hw.acyclic hac
  | noReply => exact hac
  | reply _ hw hr =>
    -- the reply is sent only to a process that waits for it, so the system task does not block
    cases hr with
    | failed => exact hac
    | direct => exact hac.mono fun _ _ hb => View.unrecv_blockedOn hb
    | queued _ _ _ hn => exact absurd (by rwa [hsys]) hn
  | noExit => exact hac
  | exit _ hw => exact hac.mono fun _ _ hb =>
      hw.blockedOn hg (View.gone_blockedOn ((View.Eases.setProcOf _ _).blockedOn hb))
  | signal hw => exact hw.acyclic hac
  | kill _ _ hw hu => exact (hw.acyclic hac).mono fun _ _ => hu.blockedOn (hg.eases hw.eases)
  | noFork => exact hok.elim
  | fork => exact hok.elim

/-- A step keeps the kernel free of deadlocks. -/
theorem step_deadlockFree (h : k.DeadlockFree) {o : Op} (hok : k.NotSelf o) (hs : k.step o = some k') :
    k'.DeadlockFree := by
  have hv := step_view h.good hs
  have hf : ∀ e rpc vm lin, o ≠ .fork e rpc vm lin := by
    rintro e rpc vm lin rfl
    exact hok
  refine ⟨hv.good h.good fun e rpc vm lin he => absurd he (hf _ _ _ _), ?_, step_acyclic h hok hv⟩
  rw [hv.endpoint h.good hf, h.system]

/-- `p` is blocked sending to `q`, or is waiting for a message from `q` only and not sending. -/
def BlockedOn (k : State) (p q : Slot) : Prop :=
  (.sending ∈ (k.proc p).pRtsFlags ∧ (k.proc p).pSendtoE = (k.proc q).pEndpoint) ∨
    (.sending ∉ (k.proc p).pRtsFlags ∧ .receiving ∈ (k.proc p).pRtsFlags ∧ (k.proc p).pGetfromE = (k.proc q).pEndpoint)

instance (k : State) (p q : Slot) : Decidable (k.BlockedOn p q) := inferInstanceAs (Decidable (_ ∨ _))

theorem blockedOn_iff {p q : Slot} : k.view.BlockedOn p q ↔ k.BlockedOn p q := by
  simp [View.BlockedOn, BlockedOn, State.view]

/-- **No deadlock.** In every run in which no process calls itself, nobody waits in a circle, and `deadlock` returns for
every caller, function and target. -/
theorem deadlock_free_of_run {os : List Op} (h0 : k.Initial) (hok : AllOk step NotSelf os k)
    (hr : run step os k = some k') :
    Acyclic k'.BlockedOn ∧ ∀ function cp src, ∃ r, k'.deadlock function cp loopFuel 1 src = some r := by
  have h := run_invariant (fun _ _ _ h => step_deadlockFree h) h0.deadlockFree hok hr
  exact ⟨h.acyclic.mono fun _ _ => blockedOn_iff.mpr, fun f cp src => deadlock_ends h.good h.acyclic f cp 1 src⟩

end State

/-- RS and VFS wait in a chain for PM, and PM waits for anyone. -/
def waitInChain : List Op :=
  [plainCall VFS SEND (procNr RS), plainCall RS SENDREC (procNr INIT), plainCall PM RECEIVE ANY]

theorem deadlock_free_waitInChain : ∃ k, run State.step waitInChain sixState = some k ∧ k.BlockedOn VFS RS ∧
    k.BlockedOn RS INIT ∧ Acyclic k.BlockedOn ∧ ∃ r, k.deadlock 1 INIT loopFuel 1 (some VFS) = some r := by
  obtain ⟨k, hk, key⟩ : ∃ k, run State.step waitInChain sixState = some k ∧ k.BlockedOn VFS RS ∧
      k.BlockedOn RS INIT := by
    decide +kernel
  obtain ⟨h1, h2⟩ := State.deadlock_free_of_run sixState_initial (by decide +kernel) hk
  exact ⟨k, hk, key.1, key.2, h1, h2 ..⟩

/-- `deadlock` follows a process that is blocked on itself for ever. -/
theorem State.deadlock_loop {k : State} {function : Nat} {cp xp : Slot} {e : Endpoint} (hd : k.dependency xp = some e)
    (ha : e ≠ ANY) (hok : k.isokendpt e = some xp) (hne : xp ≠ cp) :
    ∀ n g, k.deadlock function cp n g (some xp) = none
  | 0, _ => rfl
  | n + 1, g => by
    unfold deadlock
    rw [hd]
    simp only [if_neg ha, hok, if_neg hne]
    exact deadlock_loop hd ha hok hne n (g + 1)

/-- After RS has received from itself it is blocked on itself, and `deadlock` never returns for a `SEND` of VFS to it.
-/
theorem deadlock_self : ∃ k, run State.step [plainCall RS RECEIVE (procNr RS)] sixState = some k ∧ k.BlockedOn RS RS ∧
    ∀ n, k.deadlock 1 VFS n 1 (some RS) = none := by
  obtain ⟨k, hk, hb, hd, hok⟩ : ∃ k, run State.step [plainCall RS RECEIVE (procNr RS)] sixState = some k ∧
      k.BlockedOn RS RS ∧ k.dependency RS = some (procNr RS) ∧ k.isokendpt (procNr RS) = some RS := by decide +kernel
  exact ⟨k, hk, hb, fun n => State.deadlock_loop hd (by decide) hok (by decide) n 1⟩

end Minix.Kernel
