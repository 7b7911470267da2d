import Minix.Rs.Manager

/-!
# One instance per service

`oneInstance_of_run`: in every run of the reincarnation server in which no service is started from a slot that still
counts periods of backoff, and `RS_UP` finds an unused slot, every slot has at most one live process, and
`start_service` is called for a slot only when it has none.

Otherwise this fails (`oneInstance_fails`): `r_backoff` is only cleared by `do_period`, which starts the service when it
becomes zero, whether or not the service has been started in another way in the meantime.
-/

namespace Minix.Rs

open Minix.Lib List

/-! ## The invariant -/

/-- A slot whose process is there does not wait. A slot that waits was restarted before or is to be refreshed. -/
structure Rproc.Ok (rp : Rproc) : Prop where
  present : rp.flags.inUse = true → 0 ≤ rp.pid → rp.backoff = 0
  waiting : rp.flags.inUse = true → 0 < rp.backoff → 0 < rp.restarts ∨ rp.flags.refreshing = true

theorem Rproc.Ok.of_backoff {rp : Rproc} (h : rp.backoff = 0) : rp.Ok :=
  ⟨fun _ _ => h, fun _ hb => by omega⟩

theorem Rproc.Ok.of_unused {rp : Rproc} (h : rp.flags.inUse = false) : rp.Ok :=
  ⟨fun hu => absurd (h.symm.trans hu) Bool.false_ne_true, fun hu => absurd (h.symm.trans hu) Bool.false_ne_true⟩

namespace State

variable {s s' : State} {i : SlotNr} {skip : Option Int}

/-- Every live process but `skip` is the one that its slot names. -/
structure Inv (skip : Option Int) (s : State) : Prop where
  pids : (s.children.map Child.pid).Nodup
  pos : ∀ c ∈ s.children, 0 < c.pid
  owner : ∀ c ∈ s.children, c.status = none → some c.pid ≠ skip → ∀ i ∈ c.slot,
    (s.rproc i).flags.inUse = true ∧ (s.rproc i).pid = c.pid
  slots : ∀ i, (s.rproc i).Ok
  starts : ∀ e ∈ s.starts, e.live = []

@[simp]
theorem rproc_modRproc (s : State) (i : SlotNr) (f : Rproc → Rproc) : (s.modRproc i f).rproc i = f (s.rproc i) :=
  Function.update_self ..

theorem rproc_modRproc_of_ne {j : SlotNr} (h : j ≠ i) (f : Rproc → Rproc) : (s.modRproc i f).rproc j = s.rproc j :=
  Function.update_of_ne h ..

theorem live_eq_nil : s.live i = [] ↔ ∀ c ∈ s.children, c.slot = some i → c.status ≠ none := by
  simp [live, filter_eq_nil_iff]

/-- The processes of a slot have the number that the slot names, and so there is at most one. -/
theorem Inv.live_length (h : s.Inv none) (i : SlotNr) : (s.live i).length ≤ 1 := by
  have hsame : ∀ p ∈ s.live i, p = (s.rproc i).pid := by
    intro p hp
    obtain ⟨c, hc, rfl⟩ := mem_map.mp hp
    obtain ⟨hc, hlive⟩ := mem_filter.mp hc
    obtain ⟨hslot, hstatus⟩ := of_decide_eq_true hlive
    exact (h.owner c hc hstatus (by simp) i hslot).2.symm
  have hnodup : (s.live i).Nodup := h.pids.sublist (filter_sublist.map _)
  rw [eq_replicate_iff.mpr ⟨rfl, hsame⟩] at hnodup
  exact nodup_replicate.mp hnodup

theorem Inv.live_of_pid (h : s.Inv none) (hpid : ∀ c ∈ s.children, c.pid ≠ (s.rproc i).pid) : s.live i = [] := by
  rw [live_eq_nil]
  intro c hc hslot hstatus
  exact hpid c hc (h.owner c hc hstatus (by simp) i hslot).2.symm

theorem Inv.live_of_unused (h : s.Inv none) (hu : (s.rproc i).flags.inUse = false) : s.live i = [] := by
  rw [live_eq_nil]
  intro c hc hslot hstatus
  have := (h.owner c hc hstatus (by simp) i hslot).1
  rw [hu] at this
  cases this

theorem Inv.live_of_neg (h : s.Inv none) (hp : (s.rproc i).pid < 0) : s.live i = [] := by
  refine h.live_of_pid fun c hc => ?_
  have := h.pos c hc
  omega

theorem Inv.modRproc (h : s.Inv skip) {f : Rproc → Rproc} (hok : (f (s.rproc i)).Ok)
    (hlive : s.live i = [] ∨
      (f (s.rproc i)).flags.inUse = (s.rproc i).flags.inUse ∧ (f (s.rproc i)).pid = (s.rproc i).pid) :
    (s.modRproc i f).Inv skip := by
  refine ⟨h.pids, h.pos, ?_, ?_, h.starts⟩
  · intro c hc hstatus hskip j hj
    by_cases hji : j = i
    · subst hji
      rw [rproc_modRproc]
      rcases hlive with hlive | ⟨hu, hp⟩
      · exact absurd hstatus (live_eq_nil.mp hlive c hc hj)
      · rw [hu, hp]
        exact h.owner c hc hstatus hskip j hj
    · rw [rproc_modRproc_of_ne hji]
      exact h.owner c hc hstatus hskip j hj
  · intro j
    by_cases hji : j = i
    · subst hji
      rw [rproc_modRproc]
      exact hok
    · rw [rproc_modRproc_of_ne hji]
      exact h.slots j

theorem Inv.keep (h : s.Inv skip) {f : Rproc → Rproc} (hu : (f (s.rproc i)).flags.inUse = (s.rproc i).flags.inUse)
    (hr : (s.rproc i).flags.refreshing = true → (f (s.rproc i)).flags.refreshing = true)
    (hp : (f (s.rproc i)).pid = (s.rproc i).pid) (hb : (f (s.rproc i)).backoff ≤ (s.rproc i).backoff)
    (hn : (f (s.rproc i)).restarts = (s.rproc i).restarts) : (s.modRproc i f).Inv skip := by
  refine h.modRproc ⟨?_, ?_⟩ (.inr ⟨hu, hp⟩)
  · intro hu' hp'
    have := (h.slots i).present (hu ▸ hu') (hp ▸ hp')
    omega
  · intro hu' hb'
    rw [hn]
    exact ((h.slots i).waiting (hu ▸ hu') (by omega)).imp_right hr

theorem pids_exits (s : State) (pid : Int) (st : ExitStatus) :
    (s.exits pid st).children.map Child.pid = s.children.map Child.pid := by
  rw [State.exits, map_map]
  refine map_congr_left fun c _ => ?_
  dsimp only [Function.comp]
  split <;> rfl

theorem Inv.exits (h : s.Inv skip) (pid : Int) (st : ExitStatus) : (s.exits pid st).Inv skip := by
  have hpids := pids_exits s pid st
  refine ⟨by rw [hpids]; exact h.pids, ?_, ?_, h.slots, h.starts⟩
  · intro c hc
    have hp : c.pid ∈ s.children.map Child.pid := hpids ▸ mem_map_of_mem hc
    obtain ⟨d, hd, hdc⟩ := mem_map.mp hp
    exact hdc ▸ h.pos d hd
  · intro c hc hstatus hskip j hj
    obtain ⟨d, hd, rfl⟩ := mem_map.mp hc
    split at hstatus
    · cases hstatus
    · next hne =>
      rw [if_neg hne] at hskip hj ⊢
      exact h.owner d hd hstatus hskip j hj

theorem Inv.kill_skip {pid : Int} (h : s.Inv (some pid)) : (s.kill pid).Inv none := by
  have hk : (s.kill pid).Inv (some pid) := h.exits pid _
  refine ⟨hk.pids, hk.pos, ?_, hk.slots, hk.starts⟩
  intro c hc hstatus _ j hj
  refine hk.owner c hc hstatus ?_ j hj
  intro hp
  obtain ⟨d, hd, hdc⟩ := mem_map.mp hc
  by_cases hk : d.pid = pid ∧ d.status = none
  · rw [if_pos hk] at hdc
    rw [← hdc] at hstatus
    cases hstatus
  · rw [if_neg hk] at hdc
    subst hdc
    exact hk ⟨Option.some.inj hp, hstatus⟩

theorem Inv.filter (h : s.Inv skip) (p : Child → Bool) :
    ({ s with children := s.children.filter p } : State).Inv skip :=
  ⟨h.pids.sublist (filter_sublist.map _), fun c hc => h.pos c (mem_filter.mp hc).1,
    fun c hc => h.owner c (mem_filter.mp hc).1, h.slots, h.starts⟩

end State

open State

variable {s : State} {i : SlotNr}

/-! ## Starting and stopping -/

/-- The invariant holds after `x`. -/
abbrev Keeps {α : Type} (x : Prog State α) (s : State) : Prop := After x s fun _ s' => s'.Inv none

theorem forked_spec (pid : Int) (slot : Option SlotNr) :
    After (forked pid slot) s fun _ s' => s' = { s with children := s.children ++ [{ pid := pid, slot := slot }] } ∧
      0 < pid ∧ pid ∉ s.children.map Child.pid := by
  refine .get (.ite (fun _ => .crash) fun hp => .modify ⟨rfl, ?_⟩)
  rw [not_or] at hp
  exact ⟨by omega, hp.2⟩

theorem State.Inv.add (h : s.Inv none) {pid : Int} (slot : Option SlotNr) (hpos : 0 < pid)
    (hfresh : pid ∉ s.children.map Child.pid) :
    ({ s with children := s.children ++ [{ pid := pid, slot := slot }] } : State).Inv (some pid) := by
  refine ⟨?_, ?_, ?_, h.slots, h.starts⟩
  · rw [map_append]
    exact h.pids.append (nodup_singleton _) (by simpa using hfresh)
  · intro c hc
    rcases mem_append.mp hc with hc | hc
    · exact h.pos c hc
    · rw [mem_singleton.mp hc]
      exact hpos
  · intro c hc hstatus hskip
    rcases mem_append.mp hc with hc | hc
    · exact h.owner c hc hstatus (by simp)
    · rw [mem_singleton.mp hc] at hskip
      exact absurd rfl hskip

/-- The new child is the only live process of its slot, and the slot names it. -/
theorem State.Inv.started (h : s.Inv none) {pid : Int} (hpos : 0 < pid) (hfresh : pid ∉ s.children.map Child.pid)
    (hlive : s.live i = []) {f : Rproc → Rproc} (hok : (f (s.rproc i)).Ok) (hu : (f (s.rproc i)).flags.inUse = true)
    (hp : (f (s.rproc i)).pid = pid) :
    (({ s with children := s.children ++ [{ pid := pid, slot := some i }] } : State).modRproc i f).Inv none := by
  have h' := h.add (some i) hpos hfresh
  refine ⟨h'.pids, h'.pos, ?_, ?_, h.starts⟩
  · intro c hc hstatus _ j hj
    rcases mem_append.mp hc with hold | hc
    · have hji : j ≠ i := by
        rintro rfl
        exact live_eq_nil.mp hlive c hold hj hstatus
      rw [rproc_modRproc_of_ne hji]
      exact h.owner c hold hstatus (by simp) j hj
    · rw [mem_singleton.mp hc] at hj ⊢
      cases hj
      rw [rproc_modRproc]
      exact ⟨hu, hp⟩
  · intro j
    by_cases hj : j = i
    · subst hj
      rw [rproc_modRproc]
      exact hok
    · rw [rproc_modRproc_of_ne hj]
      exact h.slots j

theorem startFailed_inv {pid : Int} (h : s.Inv (some pid)) (r : Int) : Keeps (startFailed i pid r) s := by
  refine .bind (Q := fun _ s' => s'.Inv (some pid)) (.modify (h.keep rfl id rfl le_rfl rfl)) fun _ s' h' => ?_
  exact .set (.pure h'.kill_skip)

/-- A service is started in a slot that has no live process and does not wait. -/
theorem startService_inv (h : s.Inv none) (hlive : s.live i = []) (hb : (s.rproc i).backoff = 0) (a : StartAns) :
    Keeps (startService i a) s := by
  have h0 : ({ s with starts := s.starts ++ [⟨i, s.live i⟩] } : State).Inv none := by
    refine ⟨h.pids, h.pos, h.owner, h.slots, fun e he => ?_⟩
    rcases mem_append.mp he with he | he
    · exact h.starts e he
    · rw [mem_singleton.mp he]
      exact hlive
  refine .bind (Q := fun _ s' => s'.Inv none ∧ s'.live i = [] ∧ (s'.rproc i).backoff = 0) (.modify ⟨h0, hlive, hb⟩) ?_
  rintro _ s1 ⟨h1, hlive1, hb1⟩
  cases a.fork with
  | error errno => exact .pure h1
  | ok x =>
    obtain ⟨pid, e⟩ := x
    refine .bind (forked_spec pid (some i)) ?_
    rintro _ s2 ⟨rfl, hpos, hfresh⟩
    have h2 := h1.add (some i) hpos hfresh
    refine .ite (fun _ => startFailed_inv h2 _) fun _ => .ite (fun _ => startFailed_inv h2 _) fun _ => ?_
    refine .bind (Q := fun _ s' => s'.Inv none) (.modify (h1.started hpos hfresh hlive1 ?_ rfl rfl)) fun _ s3 h3 => ?_
    · exact .of_backoff hb1
    exact .set (.pure ⟨h3.pids, h3.pos, h3.owner, h3.slots, h3.starts⟩)

theorem release_inv (h : s.Inv none) (hlive : s.live i = []) : Keeps (release i) s := by
  refine .bind (Q := fun _ s' => s'.Inv none) (.modify (h.modRproc (.of_unused rfl) (.inl hlive)))
    fun _ s' h' => .modify ?_
  exact ⟨h'.pids, h'.pos, h'.owner, h'.slots, h'.starts⟩

theorem runScript_inv (h : s.Inv none) (fork : Except Int Int) : Keeps (runScript i fork) s := by
  refine .get (.ite (fun _ => ?_) fun _ => .pure h)
  cases fork with
  | error r => exact .pure h
  | ok pid =>
    refine (forked_spec pid none).mono ?_
    rintro _ s' ⟨rfl, hpos, hfresh⟩
    have h' := h.add none hpos hfresh
    refine ⟨h'.pids, h'.pos, ?_, h.slots, h.starts⟩
    intro c hc hstatus hskip j hj
    rcases mem_append.mp hc with hc | hc
    · exact h.owner c hc hstatus hskip j hj
    · rw [mem_singleton.mp hc] at hj
      cases hj

/-! ## Requests -/

/-- A slot in which a service may be started. -/
structure State.Ready (i : SlotNr) (s : State) : Prop where
  inv : s.Inv none
  unused : (s.rproc i).flags.inUse = false
  backoff : (s.rproc i).backoff = 0

abbrev Readies (i : SlotNr) {α : Type} (x : Prog State α) (s : State) : Prop := After x s fun _ s' => s'.Ready i

theorem thenOk_inv {x y : Prog State Int} (hx : Readies i x s)
    (hy : ∀ s', s'.Ready i → Keeps y s') : Keeps (thenOk x y) s :=
  .bind hx fun _ s' h => .ite (fun _ => .pure h.inv) fun _ => hy s' h

theorem thenOk_ready {x y : Prog State Int} (hx : Readies i x s)
    (hy : ∀ s', s'.Ready i → Readies i y s') : Readies i (thenOk x y) s :=
  .bind hx fun _ s' h => .ite (fun _ => .pure h) fun _ => hy s' h

section

variable (h : s.Ready i)

include h

theorem modRproc_ready {f : Rproc → Rproc} (hu : (f (s.rproc i)).flags = (s.rproc i).flags)
    (hb : (f (s.rproc i)).backoff = (s.rproc i).backoff) : Readies i (modRproc i f) s := by
  have hunused : (f (s.rproc i)).flags.inUse = false := by
    rw [hu]
    exact h.unused
  refine .modify ⟨h.inv.modRproc (.of_unused hunused) (.inl (h.inv.live_of_unused h.unused)), ?_, ?_⟩
  · rw [rproc_modRproc]
    exact hunused
  · rw [rproc_modRproc, hb]
    exact h.backoff

theorem setCmd_ready (max len : Nat) (cmd : Except Int Text) : Readies i (setCmd i max len cmd) s := by
  refine .ite (fun _ => .pure h) fun _ => ?_
  cases cmd with
  | error r => exact .pure h
  | ok t =>
    refine .ite (fun _ => ?_) fun _ => ?_
    · exact .bind (modRproc_ready h rfl rfl) fun _ _ h' => .pure h'
    · exact .bind (modRproc_ready h rfl rfl) fun _ _ h' => .pure h'

theorem readExec_ready (file : Except Int Nat) : Readies i (readExec i file) s := by
  cases file with
  | error r => exact .pure h
  | ok len => exact .bind (modRproc_ready h rfl rfl) fun _ _ h' => .pure h'

theorem copyExec_ready (src : SlotNr) (malloc : Bool) : Readies i (copyExec i src malloc) s := by
  refine .get (.ite (fun _ => .pure h) fun _ => .ite (fun _ => .pure h) fun _ => ?_)
  exact .bind (modRproc_ready h rfl rfl) fun _ _ h' => .pure h'

theorem setUp_ready (copy : Bool) (q : UpReq) : Readies i (setUp i copy q) s :=
  .bind (modRproc_ready h rfl rfl) fun _ _ h' => .ite (fun _ => readExec_ready h' _) fun _ => .pure h'

theorem initFields_inv (period : Int) (a : StartAns) : Keeps (initFields i period a) s := by
  refine .bind (modRproc_ready h rfl rfl) fun _ s' h' => ?_
  exact startService_inv h'.inv (h'.inv.live_of_unused h'.unused) h'.backoff a

theorem setLabel_ready (label : Option (Except Int Text)) : Readies i (setLabel i label) s :=
  match label with
  | some (.error _) => .pure h
  | some (.ok _) => .bind (modRproc_ready h rfl rfl) fun _ _ h' => .pure h'
  | none => .bind (modRproc_ready h rfl rfl) fun _ _ h' => .pure h'

theorem setScript_ready (len : Nat) (script : Option (Except Int Text)) : Readies i (setScript i len script) s :=
  .bind (modRproc_ready h rfl rfl) fun _ _ h1 => .ite (fun _ => .pure h1) fun _ =>
    match script with
    | none => .pure h1
    | some (.error _) => .pure h1
    | some (.ok _) => .bind (modRproc_ready h1 rfl rfl) fun _ _ h2 => .pure h2

theorem checkIpc_ready (ipc : Option (Nat × Int)) : Readies i (checkIpc ipc) s :=
  match ipc with
  | none => .pure h
  | some _ => .ite (fun _ => .pure h) fun _ => .pure h

theorem setExec_ready (q : StartReq) : Readies i (setExec i q) s := by
  refine .bind (modRproc_ready h rfl rfl) fun _ s1 h1 => .get ?_
  refine .ite (fun _ => .pure h1) fun _ => .ite (fun _ => readExec_ready h1 _) fun _ => ?_
  split
  · exact copyExec_ready h1 _ _
  · exact readExec_ready h1 _

theorem checkResources_ready (q : StartReq) : Readies i (checkResources q) s :=
  .ite (fun _ => .pure h) fun _ => .ite (fun _ => .pure h) fun _ => .ite (fun _ => .pure h) fun _ =>
    .ite (fun _ => .pure h) fun _ => .pure h

theorem describe_ready (q : StartReq) : Readies i (describe i q) s := by
  refine thenOk_ready (setCmd_ready h _ _ _) fun _ h1 => thenOk_ready (setLabel_ready h1 _) fun _ h2 => ?_
  refine thenOk_ready (.get (.ite (fun _ => .pure h2) fun _ => .pure h2)) fun _ h3 => ?_
  refine thenOk_ready (setScript_ready h3 _ _) fun _ h4 => thenOk_ready (checkIpc_ready h4 _) fun _ h5 => ?_
  exact thenOk_ready (setExec_ready h5 _) fun _ h6 => checkResources_ready h6 _

end

theorem doUp_inv (h : s.Ready s.upSlot) (copy : Bool) (q : UpReq) (a : StartAns) : Keeps (doUp copy q a) s := by
  refine .get (thenOk_inv (setCmd_ready h _ _ _) fun _ h1 => ?_)
  exact thenOk_inv (setUp_ready h1 _ _) fun _ h2 => initFields_inv h2 _ _

section

variable (h : s.Inv none)

include h

theorem doStart_inv (hb : ∀ i ∈ s.freeSlot, (s.rproc i).backoff = 0) (q : Except Int StartReq) (a : StartAns) :
    Keeps (doStart q a) s := by
  cases q with
  | error r => exact .pure h
  | ok q =>
    refine .get ?_
    cases hi : s.freeSlot with
    | none => exact .pure h
    | some i =>
      have hunused : (s.rproc i).flags.inUse = false := by simpa using find?_some hi
      exact thenOk_inv (describe_ready ⟨h, hunused, hb i hi⟩ q) fun _ h' => initFields_inv h' _ _

/-- The slot that a message names. -/
def LabelReq.slot (q : LabelReq) (s : State) : Option SlotNr :=
  match q.label with
  | .error _ => none
  | .ok t => s.find (cstr t)

theorem withLabel_inv {q : LabelReq} {f : SlotNr → Prog State Int} (hf : ∀ i ∈ q.slot s, Keeps (f i) s) :
    Keeps (withLabel q f) s := by
  refine .ite (fun _ => .pure h) fun _ => ?_
  unfold LabelReq.slot at hf
  cases hq : q.label with
  | error r => exact .pure h
  | ok t =>
    rw [hq] at hf
    refine .get ?_
    cases hi : s.find (cstr t) with
    | none => exact .pure h
    | some i => exact hf i hi

theorem doDown_inv (q : LabelReq) (uptime : Int) : Keeps (doDown q uptime) s := by
  refine withLabel_inv h fun i _ => ?_
  refine .bind (Q := fun _ s' => s'.Inv none) (.modify (h.keep rfl id rfl le_rfl rfl)) fun _ s1 h1 => .get ?_
  refine .ite (fun hp => ?_) fun _ => ?_
  · exact .bind (release_inv h1 (h1.live_of_neg (by omega))) fun _ _ h2 => .pure h2
  · exact .set (.pure (h1.keep rfl id rfl le_rfl rfl))

theorem doRefresh_inv (q : LabelReq) (uptime : Int) : Keeps (doRefresh q uptime) s := by
  refine withLabel_inv h fun i _ => ?_
  exact .set (.pure (h.keep rfl (fun _ => rfl) rfl le_rfl rfl))

theorem doRestart_inv {q : LabelReq} (hb : ∀ i ∈ q.slot s, (s.rproc i).pid < 0 → (s.rproc i).backoff = 0)
    (a : StartAns) :
    Keeps (doRestart q a) s := by
  refine withLabel_inv h fun i hi => .get (.ite (fun _ => .pure h) fun hp => ?_)
  have hp : (s.rproc i).pid < 0 := by omega
  have hlive := h.live_of_neg hp
  refine .bind (Q := fun _ s' => s'.Inv none ∧ s'.live i = [] ∧ (s'.rproc i).backoff = 0) (.modify ⟨?_, hlive, ?_⟩) ?_
  · exact h.modRproc (.of_backoff (hb i hi hp)) (.inl hlive)
  · rw [rproc_modRproc]
    exact hb i hi hp
  · rintro _ s1 ⟨h1, hlive1, hb1⟩
    exact startService_inv h1 hlive1 hb1 a

/-! ## Exits -/

theorem childEvent_inv (e : Event) : Keeps (childEvent e) s := by
  refine .get ?_
  cases e with
  | exits pid st => exact .ite (fun _ => .modify (h.exits pid st)) fun _ => .crash
  | execFails pid =>
    dsimp only
    split
    · exact .crash
    · exact .modify ⟨h.pids, h.pos, h.owner, h.slots, h.starts⟩

end

/-- Reading the pipe sets flags. -/
structure PipeRead (s s' : State) : Prop where
  slots : ∀ i, ∃ b, s'.rproc i = { s.rproc i with flags := { (s.rproc i).flags with execFailed := b } }
  children : s'.children = s.children
  starts : s'.starts = s.starts

theorem pipeRead_foldl : ∀ (l : List SlotNr) (s : State), PipeRead s
    (l.foldl (fun s i => s.modRproc i fun rp => { rp with flags := { rp.flags with execFailed := true } }) s)
  | [], s => ⟨fun i => ⟨(s.rproc i).flags.execFailed, rfl⟩, rfl, rfl⟩
  | j :: l, s => by
    obtain ⟨hslots, hchildren, hstarts⟩ := pipeRead_foldl l
      (s.modRproc j fun rp => { rp with flags := { rp.flags with execFailed := true } })
    refine ⟨fun i => ?_, hchildren, hstarts⟩
    obtain ⟨b, hb⟩ := hslots i
    refine ⟨b, ?_⟩
    rw [foldl_cons, hb]
    by_cases hij : i = j
    · subst hij
      rw [rproc_modRproc]
    · rw [rproc_modRproc_of_ne hij]

theorem readPipe_spec (s : State) : After readPipe s fun _ s' => PipeRead s s' := by
  obtain ⟨hslots, hchildren, hstarts⟩ := pipeRead_foldl s.execPipe s
  exact .modify ⟨hslots, hchildren, hstarts⟩

theorem PipeRead.inv {s' : State} (hq : PipeRead s s') (h : s.Inv none) : s'.Inv none := by
  refine ⟨by rw [hq.children]; exact h.pids, by rw [hq.children]; exact h.pos, ?_, ?_,
    by rw [hq.starts]; exact h.starts⟩
  · intro c hc hstatus hskip i hi
    obtain ⟨b, hb⟩ := hq.slots i
    rw [hb]
    exact h.owner c (hq.children ▸ hc) hstatus hskip i hi
  · intro i
    obtain ⟨b, hb⟩ := hq.slots i
    rw [hb]
    exact ⟨(h.slots i).present, (h.slots i).waiting⟩

theorem PipeRead.findPid {s' : State} (hq : PipeRead s s') (pid : Int) : s'.findPid pid = s.findPid pid := by
  unfold State.findPid
  congr 1
  funext i
  obtain ⟨b, hb⟩ := hq.slots i
  rw [hb]

theorem Flags.inUse_died (f : Flags) (st : ExitStatus) : (f.died st).inUse = f.inUse := by
  unfold Flags.died
  split
  · split <;> rfl
  · rfl

section

variable (h : s.Inv none)

include h

theorem down_inv (hlive : s.live i = []) : Keeps (down i) s := by
  refine .bind (Q := fun _ s' => s'.Inv none ∧ s'.live i = []) (.modify ?_) fun _ s' h' => release_inv h'.1 h'.2
  split
  · exact ⟨⟨h.pids, h.pos, h.owner, h.slots, h.starts⟩, hlive⟩
  · exact ⟨h, hlive⟩

theorem refresh_inv (hlive : s.live i = []) (hb : (s.rproc i).backoff = 0) (a : StartAns) (script : Except Int Int) :
    Keeps (refresh i a script) s := by
  refine .bind (Q := fun _ s' => s'.Inv none ∧ s'.live i = [] ∧ (s'.rproc i).backoff = 0) (.modify ⟨?_, hlive, ?_⟩) ?_
  · exact h.modRproc (.of_backoff hb) (.inl hlive)
  · rw [rproc_modRproc]
    exact hb
  · rintro _ s1 ⟨h1, hlive1, hb1⟩
    refine .get (.ite (fun _ => runScript_inv h1 script) fun _ => ?_)
    exact .bind (startService_inv h1 hlive1 hb1 a) fun _ _ h2 => .pure h2

/-- A service that is not refreshed and was not restarted before does not wait. -/
theorem recover_inv (hlive : s.live i = []) (hu : (s.rproc i).flags.inUse = true)
    (hr : (s.rproc i).flags.refreshing = false)
    (hp : (s.rproc i).pid < 0) (st : ExitStatus) (a : StartAns) (script : Except Int Int) :
    Keeps (recover i st a script) s := by
  have hf : (s.rproc i).flags.inUse = ((s.rproc i).flags.died st).inUse := (Flags.inUse_died ..).symm
  refine .bind (Q := fun _ s' => s'.Inv none ∧ s'.live i = [] ∧ (s'.rproc i).pid < 0 ∧
    (s'.rproc i).restarts = (s.rproc i).restarts ∧ (s'.rproc i).backoff = (s.rproc i).backoff)
      (.modify ⟨?_, hlive, ?_⟩) ?_
  · exact h.keep hf.symm (fun h => by rw [hr] at h; cases h) rfl le_rfl rfl
  · rw [rproc_modRproc]
    exact ⟨hp, rfl, rfl⟩
  · rintro _ s1 ⟨h1, hlive1, hp1, hn1, hb1⟩
    refine .get (.ite (fun _ => runScript_inv h1 script) fun _ => .ite (fun hn => .modify ?_) fun hn => ?_)
    · exact h1.modRproc ⟨fun _ hp' => absurd hp1 (Int.not_lt.mpr hp'), fun _ _ => .inl hn⟩ (.inl hlive1)
    · refine .bind (startService_inv h1 hlive1 ?_ a) fun _ _ h2 => .pure h2
      by_contra hb
      rcases (h.slots i).waiting hu (by omega) with hw | hw
      · omega
      · rw [hr] at hw
        cases hw

/-- What is done about a service that has died. -/
theorem gone_inv (hlive : s.live i = []) (hu : (s.rproc i).flags.inUse = true)
    (hb : (s.rproc i).flags.refreshing = true →
    (s.rproc i).backoff = 0) (st : ExitStatus) (a : StartAns) (script : Except Int Int) :
    Keeps (gone i st a script) s := by
  refine .bind (Q := fun _ s' => s'.Inv none ∧ s'.live i = [] ∧ s'.rproc i = s.rproc i) (.modify ⟨?_, hlive, rfl⟩) ?_
  · exact ⟨h.pids, h.pos, h.owner, h.slots, h.starts⟩
  rintro _ s1 ⟨h1, hlive1, hs1⟩
  refine .bind (Q := fun _ s' => s'.Inv none ∧ s'.live i = [] ∧ s'.rproc i = { s.rproc i with pid := -1 })
    (.modify ⟨?_, hlive1, ?_⟩) ?_
  · exact h1.modRproc ⟨fun _ hp => absurd hp (show ¬(0 : Int) ≤ -1 by decide), (h1.slots i).waiting⟩ (.inl hlive1)
  · rw [rproc_modRproc, hs1]
  rintro _ s2 ⟨h2, hlive2, hs2⟩
  refine .get (.ite (fun _ => down_inv h2 hlive2) fun _ => .ite (fun hr => ?_) fun hr => .ite
    (fun _ => .modify ?_) fun _ => ?_)
  · refine refresh_inv h2 hlive2 ?_ a script
    rw [hs2] at hr ⊢
    exact hb hr
  · exact h2.modRproc (.of_unused rfl) (.inl hlive2)
  · refine recover_inv h2 hlive2 ?_ (by simpa using hr) ?_ st a script
    · rw [hs2]
      exact hu
    · rw [hs2]
      show (-1 : Int) < 0
      decide

/-- A round for a process that is waited for, or for none. -/
theorem waited_inv {pid : Int} (hpid : ∀ c ∈ s.children, c.pid ≠ pid)
    (hb : ∀ i ∈ s.findPid pid, (s.rproc i).flags.refreshing = true → (s.rproc i).backoff = 0) (st : ExitStatus)
    (a : StartAns) (script : Except Int Int) :
    Keeps (waited pid st a script) s := by
  refine .bind (readPipe_spec s) fun _ s1 hq => .get ?_
  rw [hq.findPid]
  cases hi : s.findPid pid with
  | none => exact .pure (hq.inv h)
  | some i =>
    obtain ⟨hu, hp⟩ : (s.rproc i).flags.inUse = true ∧ (s.rproc i).pid = pid := by simpa using find?_some hi
    obtain ⟨b, hslot⟩ := hq.slots i
    refine gone_inv (hq.inv h) ((hq.inv h).live_of_pid ?_) ?_ ?_ st a script
    · intro c hc
      rw [hslot]
      exact hp ▸ hpid c (hq.children ▸ hc)
    · rw [hslot]
      exact hu
    · rw [hslot]
      exact hb i hi

/-- When there are no children, the service without a process that is found is not to be refreshed, or does not wait. -/
def RoundOk (s : State) : Wait → Prop
  | .noChild _ _ _ => ∀ i ∈ s.findPid (-1), (s.rproc i).flags.refreshing = true → (s.rproc i).backoff = 0
  | _ => True

instance (s : State) (w : Wait) : Decidable (RoundOk s w) :=
  match w with
  | .noChild _ _ _ => Option.decidableForallMem (s.findPid (-1))
  | .event _ | .child _ _ _ => isTrue trivial

/-- A turn of the loop of `do_exit`. -/
theorem waitRound_inv {w : Wait} (hok : RoundOk s w) : Keeps (waitRound w) s := by
  cases w with
  | event e => exact childEvent_inv h e
  | child pid a script =>
    refine .get ?_
    cases hc : (s.children.find? fun c => c.pid = pid).bind Child.status with
    | none => exact .crash
    | some st =>
      obtain ⟨c, hc, -⟩ := Option.bind_eq_some_iff.mp hc
      have hpos : 0 < pid := by
        have hp : c.pid = pid := by simpa using find?_some hc
        exact hp ▸ h.pos c (mem_of_find?_eq_some hc)
      refine .set ?_
      refine waited_inv (h.filter _) (fun c hc => by simpa using (mem_filter.mp hc).2) ?_ st a script
      intro i hi _
      obtain ⟨hu, hp⟩ : (s.rproc i).flags.inUse = true ∧ (s.rproc i).pid = pid := by simpa using find?_some hi
      exact (h.slots i).present hu (by omega)
  | noChild st a script =>
    refine .get (.ite (fun _ => .crash) fun hc => waited_inv h ?_ hok st a script)
    rw [not_not.mp hc]
    intro c hc
    cases hc

theorem doExit_inv {ws : List Wait} (hok : AllOk (fun s w => (waitRound w s).map Prod.snd) RoundOk ws s) :
    Keeps (doExit ws) s := by
  refine .bind (After.forM_of_allOk (fun w s h hw => waitRound_inv h hw) h hok) fun _ s1 h1 => .get ?_
  exact .ite (fun _ => .crash) fun _ => .pure h1

theorem waitBackoff_inv (hu : (s.rproc i).flags.inUse = true) (hb : 0 < (s.rproc i).backoff) (a : StartAns) : Keeps
    (waitBackoff i a) s := by
  have hp : (s.rproc i).pid < 0 := by
    by_contra hp
    have := (h.slots i).present hu (by omega)
    omega
  have hlive := h.live_of_neg hp
  refine .bind (Q := fun _ s' => s'.Inv none ∧ s'.live i = []) (.modify ⟨?_, hlive⟩) ?_
  · exact h.keep rfl id rfl (Nat.sub_le _ _) rfl
  rintro _ s1 ⟨h1, hlive1⟩
  refine .get (.ite (fun hb1 => ?_) fun _ => .pure h1)
  exact .bind (startService_inv h1 hlive1 hb1 a) fun _ _ h2 => .pure h2

theorem periodSlot_inv (now : Int) (a : SlotNr → StartAns) : Keeps (periodSlot now a i) s := by
  refine .get (.ite (fun _ => .pure h) fun hu => .ite (fun hb => ?_) fun _ => .ite (fun _ => ?_) fun _ => ?_)
  · exact waitBackoff_inv h (by simpa using hu) hb _
  · exact .modify (h.exits _ _)
  · refine .ite (fun _ => .ite (fun _ => .ite (fun _ => ?_) fun _ => .pure h) fun _ => ?_) fun _ => .pure h
    · refine .bind (Q := fun _ s' => s'.Inv none) (.modify (h.keep rfl id rfl le_rfl rfl)) fun _ s1 h1 => ?_
      exact .modify (h1.exits _ _)
    · exact .ite (fun _ => .modify (h.keep rfl id rfl le_rfl rfl)) fun _ => .pure h

theorem doPeriod_inv (now : Int) (a : SlotNr → StartAns) : Keeps (doPeriod now a) s :=
  .forM (fun _ _ h => periodSlot_inv h now a) h

end

/-! ## Runs -/

/-- `RS_UP` finds an unused slot, and no slot is started that counts periods of backoff. -/
def RequestOk (s : State) : Request → Prop
  | .up _ _ _ => ∃ i ∈ s.unused, (s.rproc i).backoff = 0
  | .start _ _ => ∀ i ∈ s.freeSlot, (s.rproc i).backoff = 0
  | .restart q _ => ∀ i ∈ q.slot s, (s.rproc i).pid < 0 → (s.rproc i).backoff = 0
  | _ => True

def StepOk (s : State) : Op → Prop
  | .request euid r => euid = 0 → RequestOk s r
  | .signals (some ws) _ => AllOk (fun s w => (waitRound w s).map Prod.snd) RoundOk ws s
  | _ => True

instance (s : State) (r : Request) : Decidable (RequestOk s r) :=
  match r with
  | .up _ _ _ => Option.decidableExistsMem s.unused
  | .start _ _ => Option.decidableForallMem s.freeSlot
  | .restart q _ => Option.decidableForallMem (q.slot s)
  | .down _ _ | .refresh _ _ | .shutdown => isTrue trivial

instance (s : State) (o : Op) : Decidable (StepOk s o) :=
  match o with
  | .request euid r => inferInstanceAs (Decidable (euid = 0 → RequestOk s r))
  | .signals (some ws) _ => AllOk.decidable _ _ ws s
  | .signals none _ | .period _ _ | .heartbeat _ _ | .event _ => isTrue trivial

/-- A request keeps one instance of each service. -/
theorem request_inv (h : s.Inv none) {r : Request} (hok : RequestOk s r) : Keeps r.prog s := by
  cases r with
  | up copy q a =>
    obtain ⟨i, hi, hb⟩ := hok
    have hunused : (s.rproc i).flags = {} := by simpa using find?_some hi
    have hslot : s.upSlot = i := by
      rw [upSlot, Option.mem_def.mp hi]
      rfl
    have hready : s.Ready s.upSlot := by
      rw [hslot]
      exact ⟨h, by rw [hunused], hb⟩
    exact doUp_inv hready copy q a
  | start q a => exact doStart_inv h hok q a
  | down q uptime => exact doDown_inv h q uptime
  | refresh q uptime => exact doRefresh_inv h q uptime
  | restart q a => exact doRestart_inv h hok a
  | shutdown =>
    exact .set (.pure ⟨h.pids, h.pos, h.owner, h.slots, h.starts⟩)

/-- So does every step of the server. -/
theorem op_inv (h : s.Inv none) {o : Op} (hok : StepOk s o) : Keeps o.prog s := by
  cases o with
  | request euid r =>
    exact .ite (fun _ => .pure h) fun he => .bind (request_inv h (hok (not_not.mp he))) fun _ _ h' => .pure h'
  | signals chld term =>
    have hexit : Keeps (onSigchld chld) s := by
      cases chld with
      | none => exact .pure h
      | some ws => exact doExit_inv h hok
    refine .bind hexit fun _ s1 h1 => .modify ?_
    split
    · exact ⟨h1.pids, h1.pos, h1.owner, h1.slots, h1.starts⟩
    · exact h1
  | period now a => exact doPeriod_inv h now a
  | heartbeat who timestamp =>
    refine .get ?_
    cases s.rprocPtr who with
    | none => exact .pure h
    | some i => exact .modify (h.keep rfl id rfl le_rfl rfl)
  | event e => exact childEvent_inv h e

/-- In every run whose rounds meet the condition, each slot has at most one live process, and each service was started
when its slot had none. -/
theorem oneInstance_of_run {s : State} {os : List Op} (hok : AllOk State.step StepOk os {})
    (hr : run State.step os {} = some s) :
    (∀ i, (s.live i).length ≤ 1) ∧ ∀ e ∈ s.starts, e.live = [] := by
  have hstart : State.Inv none {} :=
    ⟨nodup_nil, fun _ h => (nomatch h), fun _ h => (nomatch h), fun _ => .of_backoff rfl, fun _ h => (nomatch h)⟩
  have hstep : ∀ s o s', s.Inv none → StepOk s o → State.step s o = some s' → s'.Inv none := by
    intro s o s' h ho hs
    obtain ⟨⟨u, t⟩, ht, rfl⟩ := Option.map_eq_some_iff.mp hs
    exact op_inv h ho u t ht
  have h : s.Inv none := run_invariant hstep hstart hok hr
  exact ⟨h.live_length, h.starts⟩

/-! ## Samples -/

def sampleAns (pid : Int) : StartAns := { fork := .ok (pid, pid) }

/-- A service with the label `name` is started. -/
def startOne (name : Char) (pid : Int) : Op :=
  .request 0 (.start (.ok { cmdLen := 2, cmd := .ok ['/', name] }) (sampleAns pid))

/-- A process is killed by a signal, and the server waits for it. -/
def crashed (pid next : Int) : List Op :=
  [.event (.exits pid (.signaled 11)), .signals (some [.child pid (sampleAns next) (.error EIO)]) false]

/-- A request names the service by its label. -/
def labelOf (name : Char) : LabelReq := { len := 1, label := .ok [name] }

/-- A period passes, and a service that is started gets `pid`. -/
def nextPeriod (pid : Int) : Op := .period 0 fun _ => sampleAns pid

/-- The service `a` crashes twice, and waits for two periods. -/
def crashedTwice : List Op := [startOne 'a' 100, startOne 'b' 101] ++ crashed 100 102 ++ crashed 102 103

theorem oneInstance_of_run_waiting : ∃ s, run State.step (crashedTwice ++ [nextPeriod 103, nextPeriod 104]) {} =
    some s ∧ s.live 0 = [104] ∧ (∀ i, (s.live i).length ≤ 1) ∧ ∀ e ∈ s.starts, e.live = [] := by
  obtain ⟨s, hr, hs⟩ : ∃ s, run State.step (crashedTwice ++ [nextPeriod 103, nextPeriod 104]) {} = some s ∧
      s.live 0 = [104] := by
    decide +kernel
  exact ⟨s, hr, hs, oneInstance_of_run (by decide +kernel) hr⟩

/-- (1) A service that waits is restarted. (2) A service that waits is stopped, and its slot is taken by another one.
(3) A service that waits is to be refreshed when the last child exits. (4) `RS_UP` is called when the table is full. -/
theorem oneInstance_fails :
    (∃ s, run State.step (crashedTwice ++ [.request 0 (.restart (labelOf 'a') (sampleAns 103)), nextPeriod 104,
    nextPeriod 105]) {} = some s ∧ s.live 0 = [103, 105]) ∧
    (∃ s, run State.step (crashedTwice ++ [.request 0 (.down (labelOf 'a') 0), startOne 'c' 103, nextPeriod 104,
    nextPeriod 105]) {} = some s ∧ s.live 0 = [103, 105]) ∧
    (∃ s, run State.step (crashedTwice ++ [.request 0 (.refresh (labelOf 'a') 0), .request 0 (.down (labelOf 'b') 0),
        .event (.exits 101 (.exited 0)),
        .signals (some [.child 101 (sampleAns 103) (.error EIO),
        .noChild (.exited 0) (sampleAns 103) (.error EIO)]) false,
        nextPeriod 104, nextPeriod 105]) {} = some s ∧ s.live 0 = [103, 105]) ∧
    ∃ s, run State.step ((List.range 33).map fun n =>
        .request 0 (.up false { cmdLen := 2, cmd := .ok ['/', 'a'] } (sampleAns (100 + n)))) {} = some s ∧
      s.live 31 = [131, 132] := by
  refine ⟨?_, ?_, ?_, ?_⟩ <;> decide +kernel

end Minix.Rs
