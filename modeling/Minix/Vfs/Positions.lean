import Minix.Vfs.Seek

/-!
# Seeks are exact, and positions do not make VFS panic

`seekSpec` says what a seek is for, with integers.

- `doSeek_eq_seekSpec`: the seeks compute it, unless the sum wraps and they do not notice;
- `seeks_of_run`: in every run in which seeks leave files that are no special files below `2 ^ 32` they are exact, and
  VFS does not panic;
- `seeks_panic`: after `llseek` to `2 ^ 32` other calls make VFS panic, and `llseek` wraps from the last position to the
  first.
-/

namespace Minix.Vfs.Seek

open Lib Option

/-! ## What a seek is for -/

namespace Offset

/-- The offset, as a number. -/
def toInt : Offset → Int
  | long offset => offset.toInt
  | longer lo hi => lo.toNat + 2 ^ 32 * hi.toInt

/-- The positions that the answer has space for. -/
def limit : Offset → Int
  | long _ => 2 ^ 32
  | longer _ _ => 2 ^ 64

/-- The sum does not wrap, or the check for overflow notices it. -/
def Sees (pos : U64) : Offset → Prop
  | long offset => pos.value + (long offset).toInt < 2 ^ 64
  | longer lo hi => pos.value + (longer lo hi).toInt < 2 ^ 64 ∨ hi ≠ 0

instance (pos : U64) : ∀ o : Offset, Decidable (o.Sees pos)
  | long _ => inferInstanceAs (Decidable (_ < _))
  | longer _ _ => inferInstanceAs (Decidable (_ ∨ _))

end Offset

/-- The position is set to the sum of the start position and the offset, if there are such positions. -/
def State.seekSpec (s : State) (p : ProcRef) (lsFd : Int) (whence : Whence) (offset : Offset) (inhibread : Int) :
    State × Out :=
  match s.getFilp p lsFd with
  | .error errCode => (s, { ret := errCode })
  | .ok x =>
    if (s.node x).pipe = true then (s, { ret := ESPIPE })
    else
      match s.seekBase x whence with
      | none => (s, { ret := EINVAL })
      | some pos =>
        let sum : Int := pos.value + offset.toInt
        if 0 ≤ sum ∧ sum < offset.limit then
          if sum ≠ (s.filp x).pos.value ∧ inhibread ≠ OK then (s, { ret := inhibread })
          else (s.setPos x (.ofInt 32 sum),
            { ret := OK, replyL1 := BitVec.ofInt 32 sum, replyL2 := BitVec.ofInt 32 (sum / 2 ^ 32) })
        else (s, { ret := EINVAL })

namespace Offset

variable {pos : U64} {n : Int} {o : Offset}

/-- A position is what its value says. -/
theorem eq_ofInt {x : U64} (h : (x.value : Int) = n) : x = .ofInt 32 n := by
  have hlt := x.value_lt
  apply DWord.ext_value
  have : ((DWord.ofInt 32 n).value : Int) = n := DWord.value_ofInt (by omega) (by omega)
  omega

theorem newpos_long {offset : BitVec 32} (h : (long offset).Sees pos) :
    (long offset).newpos pos = if 0 ≤ pos.value + offset.toInt ∧ pos.value + offset.toInt < 2 ^ 32 then
      .ok (.ofInt 32 (pos.value + offset.toInt)) else .error EINVAL := by
  have hsum : pos.value + offset.toInt < 2 ^ 64 := h
  have hcond := BitVec.toInt_eq_toNat_cond offset
  -- the value of the new position, before it is checked
  obtain ⟨x, hx, hval⟩ : ∃ x : U64, (long offset).newpos pos = (if x.hi ≠ 0 then .error EINVAL else .ok x) ∧
      (x.value : Int) = (pos.value + offset.toInt) % (2 ^ 32 * 2 ^ 32) := by
    by_cases h0 : 0 ≤ offset.toInt
    · refine ⟨pos.addWord offset, by simp only [newpos, if_pos h0], ?_⟩
      rw [DWord.value_addWord]
      split at hcond <;> omega
    · refine ⟨pos.subWord (-offset), by simp only [newpos, if_neg h0], ?_⟩
      have hneg : (-offset).toNat = 2 ^ 32 - offset.toNat := by
        rw [BitVec.toNat_neg, Nat.mod_eq_of_lt (by split at hcond <;> omega)]
      rw [DWord.value_subWord, hneg]
      split at hcond <;> omega
  rw [hx]
  by_cases hfit : 0 ≤ pos.value + offset.toInt ∧ pos.value + offset.toInt < 2 ^ 32
  · have hx0 : x.hi = 0 := DWord.hi_eq_zero_iff.mpr (by omega)
    rw [if_pos hfit, if_neg (not_not.mpr hx0), eq_ofInt (show (x.value : Int) = pos.value + offset.toInt by omega)]
  · have hx0 : x.hi ≠ 0 := fun h0 => by
      have := DWord.hi_eq_zero_iff.mp h0
      split at hcond <;> omega
    rw [if_neg hfit, if_pos hx0]

theorem newpos_longer {lo hi : BitVec 32} (h : (longer lo hi).Sees pos) :
    (longer lo hi).newpos pos =
      if 0 ≤ pos.value + (longer lo hi).toInt ∧ pos.value + (longer lo hi).toInt < 2 ^ 64 then
        .ok (.ofInt 32 (pos.value + (longer lo hi).toInt)) else .error EINVAL := by
  have hpos : pos.value < 2 ^ 32 * 2 ^ 32 := pos.value_lt
  have hcond := BitVec.toInt_eq_toNat_cond hi
  have hoff : (longer lo hi).toInt = lo.toNat + 2 ^ 32 * hi.toInt := rfl
  have hval : (((pos.add ⟨lo, hi⟩).value : Nat) : Int) = (pos.value + (longer lo hi).toInt) % (2 ^ 32 * 2 ^ 32) := by
    have harg : (⟨lo, hi⟩ : U64).value = lo.toNat + 2 ^ 32 * hi.toNat := rfl
    rw [DWord.value_add, hoff, harg]
    split at hcond <;> omega
  have hsees : pos.value + (longer lo hi).toInt < 2 ^ 64 ∨ hi.toInt ≠ 0 := by
    rcases h with h | h
    · exact .inl h
    · exact .inr fun h0 => h (BitVec.eq_of_toInt_eq h0)
  simp only [newpos, DWord.before_iff]
  generalize (longer lo hi).toInt = off at *
  by_cases hfit : 0 ≤ pos.value + off ∧ pos.value + off < 2 ^ 64
  · rw [if_pos hfit, if_neg (by omega), if_neg (by omega),
      eq_ofInt (show ((pos.add ⟨lo, hi⟩).value : Int) = pos.value + off by omega)]
  · rw [if_neg hfit]
    by_cases hup : 0 < hi.toInt
    · rw [if_pos ⟨hup, by omega⟩]
    · rw [if_neg fun h => hup h.1, if_pos ⟨by omega, by omega⟩]

/-- **Seeks are exact** if the check for overflow notices every sum that wraps. -/
theorem newpos_eq (h : o.Sees pos) :
    o.newpos pos = if 0 ≤ pos.value + o.toInt ∧ pos.value + o.toInt < o.limit then .ok (.ofInt 32 (pos.value + o.toInt))
      else .error EINVAL := by
  cases o with
  | long offset => exact newpos_long h
  | longer lo hi => exact newpos_longer h

theorem value_ofInt (h0 : 0 ≤ n) (hn : n < o.limit) : ((DWord.ofInt 32 n).value : Int) = n := by
  apply DWord.value_ofInt h0
  cases o with
  | long offset => exact Int.lt_trans hn (show (2 : Int) ^ 32 < _ by decide)
  | longer lo hi => exact hn

theorem reply_ofInt (h0 : 0 ≤ n) (hn : n < o.limit) :
    o.reply (.ofInt 32 n) = { ret := OK, replyL1 := BitVec.ofInt 32 n, replyL2 := BitVec.ofInt 32 (n / 2 ^ 32) } := by
  cases o with
  | long offset =>
    have hdiv : n / 2 ^ 32 = 0 := Int.ediv_eq_zero_of_lt h0 hn
    rw [hdiv]
    rfl
  | longer lo hi => rfl

end Offset

namespace State

variable {s s' : State} {p : ProcRef} {x : FilpRef}

/-- The condition for a seek to notice every overflow. -/
def Sees (s : State) (p : ProcRef) (lsFd : Int) (whence : Whence) (offset : Offset) : Prop :=
  ∀ x pos, s.getFilp p lsFd = .ok x → (s.node x).pipe = false → s.seekBase x whence = some pos → offset.Sees pos

/-- **The seeks do what they are for**, if they notice an overflow. -/
theorem doSeek_eq_seekSpec {lsFd : Int} {whence : Whence} {offset : Offset} (h : s.Sees p lsFd whence offset)
    (inhibread : Int) :
    s.doSeek p lsFd whence offset inhibread = s.seekSpec p lsFd whence offset inhibread := by
  unfold doSeek seekSpec
  cases hx : s.getFilp p lsFd with
  | error e => rfl
  | ok x =>
    dsimp only
    by_cases hpipe : (s.node x).pipe = true
    · rw [if_pos hpipe, if_pos hpipe]
    · rw [if_neg hpipe, if_neg hpipe]
      cases hpos : s.seekBase x whence with
      | none => rfl
      | some pos =>
        dsimp only
        rw [Offset.newpos_eq (h x pos hx (Bool.eq_false_of_not_eq_true hpipe) hpos)]
        by_cases hfit : 0 ≤ pos.value + offset.toInt ∧ pos.value + offset.toInt < offset.limit
        · have hne : DWord.ofInt 32 (pos.value + offset.toInt) ≠ (s.filp x).pos ↔
              pos.value + offset.toInt ≠ (s.filp x).pos.value := by
            have hval := Offset.value_ofInt hfit.1 hfit.2
            refine not_congr ⟨fun h => ?_, fun h => ?_⟩
            · rw [← h, hval]
            · exact (Offset.eq_ofInt h.symm).symm
          rw [if_pos hfit, if_pos hfit]
          dsimp only
          rw [Offset.reply_ofInt hfit.1 hfit.2]
          simp only [hne]
        · rw [if_neg hfit, if_neg hfit]

/-! ## No call makes VFS panic -/

end State

/-- A character or block special file. -/
def Vnode.Special (vp : Vnode) : Prop := vp.type = .charSpecial ∨ vp.type = .blockSpecial

instance (vp : Vnode) : Decidable vp.Special := inferInstanceAs (Decidable (_ ∨ _))

/-- What the calls rely on for a file. -/
structure Vnode.Sound (vp : Vnode) (pos : U64) : Prop where
  /-- Only special files have positions that do not fit in one word. -/
  low : ¬ vp.Special → pos.value < 2 ^ 32
  /-- The position of a reader in a pipe is an `off_t`. -/
  pipe : vp.pipe = true → vp.rdPos.toNat < 2 ^ 31
  /-- Special files have a device. -/
  dev : vp.Special → vp.sdev ≠ none

namespace State

variable {s s' : State} {p : ProcRef} {x : FilpRef} {position : U64} {fd : Int}

structure Sound (s : State) : Prop where
  file : ∀ p fd x, (s.fproc p).filp fd = some x → (s.node x).Sound (s.filp x).pos
  /-- A write to a pipe that is not complete is not forgotten. -/
  partly : ∀ p, (s.fproc p).cumIoPartial ≠ 0 → (s.fproc p).suspended = true

/-- The condition on a seek: an overflow is noticed, and a file that is no special file is left below `2 ^ 32`. -/
def SeekOk (s : State) (p : ProcRef) (lsFd : Int) (whence : Whence) (offset : Offset) : Prop :=
  ∀ x pos, s.getFilp p lsFd = .ok x → (s.node x).pipe = false → s.seekBase x whence = some pos →
    offset.Sees pos ∧ (¬ (s.node x).Special → pos.value + offset.toInt < 2 ^ 32 ∨ offset.limit = 2 ^ 32)

/-- The condition on a transfer. -/
structure RwOk (s : State) (p : ProcRef) (fd : Int) (ans : IoAns) : Prop where
  /-- A process that waits for an answer makes no call. -/
  runs : (s.fproc p).suspended = false
  /-- The process manager does not use its old calls. -/
  seg : p = pmProc → segFlag fd = false
  /-- The position in a pipe that a file server answers is an `off_t`. -/
  pipe : ∀ x a, s.getFilp p fd = .ok x → (s.node x).pipe = true → ans.fs = .ok a → a.1.toNat < 2 ^ 31

def StepOk (s : State) : Op → Prop
  | .lseek p lsFd whence lo _ => s.SeekOk p lsFd whence (.long lo)
  | .llseek p lsFd whence lo high _ => s.SeekOk p lsFd whence (.longer lo high)
  | .readWrite p _ fd _ ans => s.RwOk p fd ans
  | .getdents p fd _ ans => ∀ x, s.getFilp p fd = .ok x → 0 < ans.1 → (s.filp x).pos.value + ans.2.toNat < 2 ^ 32
  | .lock _ _ _ _ _ => True
  | .freesp _ _ _ _ => True

instance (s : State) (p : ProcRef) (lsFd : Int) (whence : Whence) (offset : Offset) :
    Decidable (s.SeekOk p lsFd whence offset) :=
  decidable_of_iff (∀ x, s.getFilp p lsFd = .ok x → (s.node x).pipe = false → ∀ pos, s.seekBase x whence = some pos →
      offset.Sees pos ∧ (¬ (s.node x).Special → pos.value + offset.toInt < 2 ^ 32 ∨ offset.limit = 2 ^ 32))
    ⟨fun h x pos hx hp => h x hx hp pos, fun h x hx hp pos => h x pos hx hp⟩

instance (s : State) (p : ProcRef) (fd : Int) (ans : IoAns) : Decidable (s.RwOk p fd ans) :=
  decidable_of_iff ((s.fproc p).suspended = false ∧ (p = pmProc → segFlag fd = false) ∧
      ∀ x, s.getFilp p fd = .ok x → (s.node x).pipe = true → ∀ a, ans.fs = .ok a → a.1.toNat < 2 ^ 31)
    ⟨fun h => ⟨h.1, h.2.1, fun x a hx hp => h.2.2 x hx hp a⟩,
      fun h => ⟨h.runs, h.seg, fun x hx hp a => h.pipe x a hx hp⟩⟩

instance (s : State) : ∀ o, Decidable (s.StepOk o)
  | .lseek _ _ _ _ _ => inferInstanceAs (Decidable (s.SeekOk _ _ _ _))
  | .llseek _ _ _ _ _ _ => inferInstanceAs (Decidable (s.SeekOk _ _ _ _))
  | .readWrite _ _ _ _ _ => inferInstanceAs (Decidable (s.RwOk _ _ _))
  | .getdents p fd _ ans => inferInstanceAs (Decidable (∀ x, s.getFilp p fd = .ok x → 0 < ans.1 → _ < _))
  | .lock _ _ _ _ _ => isTrue trivial
  | .freesp _ _ _ _ => isTrue trivial

theorem exists_of_getFilp {fild : Int} (h : s.getFilp p fild = .ok x) : ∃ fd, (s.fproc p).filp fd = some x := by
  unfold getFilp at h
  split at h
  · dsimp only at h
    split at h
    next y hy =>
      cases h
      exact ⟨_, hy⟩
    next => cases h
  · cases h

theorem Sound.file_of_getFilp (h : s.Sound) {fild : Int} (hx : s.getFilp p fild = .ok x) :
    (s.node x).Sound (s.filp x).pos := by
  obtain ⟨fd, hfd⟩ := exists_of_getFilp hx
  exact h.file p fd x hfd

theorem Sound.setPos (h : s.Sound) {pos : U64} (hpos : ¬ (s.node x).Special → pos.value < 2 ^ 32) :
    (s.setPos x pos).Sound := by
  refine ⟨fun p fd y hy => ?_, h.partly⟩
  have hold := h.file p fd y hy
  have hnode : (s.setPos x pos).node y = s.node y := by
    unfold State.node State.setPos
    by_cases hxy : y = x
    · subst hxy
      simp
    · simp [hxy]
  rw [hnode]
  refine ⟨fun hs => ?_, hold.pipe, hold.dev⟩
  unfold State.setPos
  by_cases hxy : y = x
  · subst hxy
    simpa using hpos hs
  · simpa [hxy] using hold.low hs

theorem Sound.modVnode (h : s.Sound) {v : VnodeRef} {vp : Vnode} (htype : vp.type = (s.vnode v).type)
    (hpipe : vp.pipe = (s.vnode v).pipe) (hdev : vp.sdev = (s.vnode v).sdev)
    (hrd : (s.vnode v).pipe = true → vp.rdPos.toNat < 2 ^ 31) : (s.modVnode v fun _ => vp).Sound := by
  refine ⟨fun p fd x hx => ?_, h.partly⟩
  have hold := h.file p fd x hx
  change ((s.modVnode v fun _ => vp).node x).Sound (s.filp x).pos
  by_cases hv : (s.filp x).vno = v
  · have hnode : (s.modVnode v fun _ => vp).node x = vp := by
      simp [State.node, State.modVnode, hv]
    have hnode' : s.node x = s.vnode v := congrArg s.vnode hv
    rw [hnode]
    rw [hnode'] at hold
    have hspecial : vp.Special ↔ (s.vnode v).Special := by
      unfold Vnode.Special
      rw [htype]
    refine ⟨fun hs => hold.low (mt hspecial.mpr hs), fun hp => hrd (hpipe ▸ hp), fun hs => ?_⟩
    rw [hdev]
    exact hold.dev (hspecial.mp hs)
  · have hnode : (s.modVnode v fun _ => vp).node x = s.node x := by
      simp [State.node, State.modVnode, hv]
    rw [hnode]
    exact hold

theorem Sound.modFproc (h : s.Sound) {f : Fproc → Fproc} (hfilp : (f (s.fproc p)).filp = (s.fproc p).filp)
    (hpart : (f (s.fproc p)).cumIoPartial ≠ 0 → (f (s.fproc p)).suspended = true) : (s.modFproc p f).Sound := by
  have hcol : ∀ q, (s.modFproc p f).fproc q = if q = p then f (s.fproc p) else s.fproc q := fun q => by
    unfold State.modFproc
    by_cases hq : q = p
    · subst hq
      simp
    · simp [hq]
  refine ⟨fun q fd x hx => h.file q fd x ?_, fun q hq => ?_⟩
  · rw [hcol] at hx
    split at hx
    next hqp => rwa [hqp, ← hfilp]
    next => exact hx
  · rw [hcol] at hq ⊢
    split at hq <;> rename_i hqp
    · rw [if_pos hqp]
      exact hpart hq
    · rw [if_neg hqp]
      exact h.partly q hq

theorem Sound.suspendIf (h : s.Sound) (p : ProcRef) (r : Int) : (s.suspendIf p r).Sound := by
  refine h.modFproc rfl fun hne => ?_
  rw [h.partly p hne]
  rfl

/-- A call that does not panic, and keeps what the calls rely on. -/
def Fine (r : Option (State × Out)) : Prop := ∃ r', r = some r' ∧ r'.1.Sound

theorem Sound.fine (h : s.Sound) {out : Out} : Fine (some (s, out)) := ⟨_, rfl, h⟩

/-! ## Each call -/

theorem Sound.doSeek (h : s.Sound) {lsFd : Int} {whence : Whence} {offset : Offset}
    (hok : s.SeekOk p lsFd whence offset)
    (inhibread : Int) : (s.doSeek p lsFd whence offset inhibread).1.Sound := by
  rw [doSeek_eq_seekSpec fun x pos hx hp hpos => (hok x pos hx hp hpos).1]
  unfold seekSpec
  cases hx : s.getFilp p lsFd with
  | error e => exact h
  | ok x =>
    dsimp only
    split
    · exact h
    next hpipe =>
      cases hpos : s.seekBase x whence with
      | none => exact h
      | some pos =>
        dsimp only
        split
        next hfit =>
          split
          · exact h
          · have hlow := (hok x pos hx (Bool.eq_false_of_not_eq_true hpipe) hpos).2
            apply h.setPos
            intro hs
            have hval := Offset.value_ofInt hfit.1 hfit.2
            have hlim := hlow hs
            omega
        · exact h

/-- A request at a low position is answered with a low position. -/
theorem newPosition_eq (h : position.value < 2 ^ 32) (fs : Except Int (BitVec 32 × BitVec 32)) :
    ∃ position' r, newPosition position fs = some (position', r) ∧ position'.value < 2 ^ 32 ∧
      (position' = position ∨ ∃ a, fs = .ok a ∧ position'.value = a.1.toNat) := by
  have hhi : ¬ position.hi ≠ 0 := not_not.mpr (DWord.hi_eq_zero_iff.mpr h)
  cases fs with
  | error r => exact ⟨position, r, by simp only [newPosition, reqReadwrite, if_neg hhi]; rfl, h, .inl rfl⟩
  | ok a =>
    refine ⟨.ofWord a.1, a.2.toNat, by simp only [newPosition, reqReadwrite, if_neg hhi]; rfl, ?_, .inr ⟨a, rfl, ?_⟩⟩
    · rw [DWord.value_ofWord]
      exact a.1.isLt
    · rw [DWord.value_ofWord]

/-- Nothing but the size and the positions of a file is changed. -/
structure Grows (vp vp' : Vnode) : Prop where
  type : vp'.type = vp.type
  pipe : vp'.pipe = vp.pipe
  sdev : vp'.sdev = vp.sdev

theorem grow_eq (h : position.value < 2 ^ 32) (vp : Vnode) :
    ∃ vp', vp.grow position = some vp' ∧ Grows vp vp' ∧ vp'.rdPos = vp.rdPos := by
  unfold Vnode.grow
  split
  · rw [if_neg (not_not.mpr (DWord.hi_eq_zero_iff.mpr h))]
    exact ⟨_, rfl, ⟨rfl, rfl, rfl⟩, rfl⟩
  · exact ⟨_, rfl, ⟨rfl, rfl, rfl⟩, rfl⟩

theorem transferred_eq (h : position.value < 2 ^ 32) (vp : Vnode) (rw : Rw) :
    ∃ vp', vp.transferred rw position = some vp' ∧ Grows vp vp' ∧ vp'.rdPos = vp.rdPos := by
  unfold Vnode.transferred
  split
  · exact grow_eq h vp
  · exact ⟨_, rfl, ⟨rfl, rfl, rfl⟩, rfl⟩

theorem Sound.rwRegular (h : s.Sound) (hx : s.getFilp p fd = .ok x) (hs : ¬ (s.node x).Special) (rw : Rw)
    (nbytes : Int) (ans : IoAns) : Fine (s.rwRegular rw x nbytes ans) := by
  have hfile := h.file_of_getFilp hx
  have hlow : (if rw = .writing ∧ (s.filp x).append = true then DWord.ofWord (s.vnode (s.filp x).vno).size
      else (s.filp x).pos).value < 2 ^ 32 := by
    split
    · rw [DWord.value_ofWord]
      exact BitVec.isLt _
    · exact hfile.low hs
  obtain ⟨position', r, hnew, hlow', -⟩ := newPosition_eq hlow ans.fs
  obtain ⟨vp, hvp, hgrows, hrd⟩ := transferred_eq hlow' (s.vnode (s.filp x).vno) rw
  unfold State.rwRegular
  simp only [hnew, hvp, bind_eq_bind, bind_some]
  refine ⟨_, rfl, Sound.setPos ?_ fun _ => hlow'⟩
  exact h.modVnode hgrows.type hgrows.pipe hgrows.sdev fun hp => hrd ▸ hfile.pipe hp

theorem Sound.rwChar (h : s.Sound) (hs : (s.node x).Special) (p : ProcRef) (nbytes : Int) (ans : IoAns) :
    (s.rwChar p x nbytes ans).1.Sound := by
  unfold State.rwChar
  split
  · exact h.setPos fun hn => absurd hs hn
  · exact Sound.suspendIf (h.setPos fun hn => absurd hs hn) p _

theorem Sound.rwBlock (h : s.Sound) (hs : (s.node x).Special) (nbytes : Int) (ans : IoAns) :
    (s.rwBlock x nbytes ans).1.Sound := by
  unfold State.rwBlock
  split <;> exact h.setPos fun hn => absurd hs hn

/-- Nothing in a pipe is too large. -/
theorem pipeCheck_eq (s : State) (v : VnodeRef) (rw : Rw) (nonblock : Bool) (bytes : Int) (n : BitVec 32) :
    ∃ r, s.pipeCheck v rw nonblock bytes (.ofWord n) = some r := by
  have hhi : ¬ (DWord.ofWord n).hi ≠ 0 := not_not.mpr rfl
  unfold pipeCheck
  rw [if_neg hhi]
  cases rw with
  | reading =>
    dsimp only
    split
    · split <;> exact ⟨_, rfl⟩
    · exact ⟨_, rfl⟩
  | writing =>
    dsimp only
    split
    · exact ⟨_, rfl⟩
    · split
      · split
        · split <;> exact ⟨_, rfl⟩
        · split <;> exact ⟨_, rfl⟩
      · exact ⟨_, rfl⟩

theorem pipeSize_eq {n : BitVec 32} {rw : Rw} (hn : rw = .reading → n.toNat < 2 ^ 31) (vp : Vnode) (size : Int) :
    ∃ r, pipeSize vp rw size (.ofWord n) = some r := by
  cases rw with
  | reading =>
    unfold pipeSize
    dsimp only
    split
    · rw [DWord.value_ofWord, if_neg (Nat.not_le_of_lt (hn rfl))]
      exact ⟨_, rfl⟩
    · exact ⟨_, rfl⟩
  | writing => exact ⟨_, rfl⟩

theorem pipeMoved_eq (h : position.value < 2 ^ 32) {vp : Vnode} {rw : Rw} (hrd : vp.rdPos.toNat < 2 ^ 31)
    (hpos : rw = .reading → position.value < 2 ^ 31) :
    ∃ vp', pipeMoved vp rw position = some vp' ∧ Grows vp vp' ∧ vp'.rdPos.toNat < 2 ^ 31 := by
  cases rw with
  | reading =>
    unfold pipeMoved
    dsimp only
    split
    · refine ⟨_, rfl, ⟨rfl, rfl, rfl⟩, ?_⟩
      rw [← DWord.value_mod, Nat.mod_eq_of_lt h]
      exact hpos rfl
    · exact ⟨_, rfl, ⟨rfl, rfl, rfl⟩, show (0 : BitVec 32).toNat < 2 ^ 31 by decide⟩
  | writing =>
    obtain ⟨vp', hvp, hgrows, heq⟩ := grow_eq h vp
    refine ⟨{ vp' with wrPos := position.lo }, by simp only [pipeMoved, hvp]; rfl,
      ⟨hgrows.type, hgrows.pipe, hgrows.sdev⟩, ?_⟩
    exact heq ▸ hrd

theorem Sound.rwPipe (h : s.Sound) {ans : IoAns} (hok : s.RwOk p fd ans) (hx : s.getFilp p fd = .ok x)
    (hp : (s.node x).pipe = true) (rw : Rw) (reqSize : Int) :
    Fine (s.rwPipe p rw x reqSize ans) := by
  have hrd : (s.vnode (s.filp x).vno).rdPos.toNat < 2 ^ 31 := (h.file_of_getFilp hx).pipe hp
  obtain ⟨n, hn⟩ : ∃ n, (s.vnode (s.filp x).vno).pipePos rw = n := ⟨_, rfl⟩
  have hnrd : rw = .reading → n.toNat < 2 ^ 31 := by
    rintro rfl
    exact hn ▸ hrd
  obtain ⟨r, hr⟩ := pipeCheck_eq s (s.filp x).vno rw (s.filp x).nonblock reqSize n
  unfold State.rwPipe
  simp only [hn, hr, bind_eq_bind, bind_some]
  split
  · exact (h.suspendIf p r).fine
  · have hlow : (DWord.ofWord n).value < 2 ^ 32 := by
      rw [DWord.value_ofWord]
      exact n.isLt
    obtain ⟨size, hsize⟩ := pipeSize_eq hnrd (s.vnode (s.filp x).vno) r
    obtain ⟨position', r', hnew, hlow', hans⟩ := newPosition_eq hlow ans.fs
    have hpos' : rw = .reading → position'.value < 2 ^ 31 := fun hrw => by
      rcases hans with rfl | ⟨a, ha, hv⟩
      · rw [DWord.value_ofWord]
        exact hnrd hrw
      · rw [hv]
        exact hok.pipe x a hx hp ha
    obtain ⟨vp, hvp, hgrows, hrd'⟩ := pipeMoved_eq hlow' hrd hpos'
    have hvnode := h.modVnode hgrows.type hgrows.pipe hgrows.sdev fun _ => hrd'
    simp only [hsize, hnew, hvp, bind_some]
    split
    · exact hvnode.fine
    · split
      · refine Sound.fine (hvnode.modFproc rfl ?_)
        exact fun _ => rfl
      · refine Sound.fine (hvnode.modFproc rfl ?_)
        exact fun hne => absurd rfl hne

theorem Sound.readWrite (h : s.Sound) {ans : IoAns} (hok : s.RwOk p fd ans) (rw : Rw) (nbytes : Int) :
    Fine (s.readWrite p rw fd nbytes ans) := by
  have hpart : (s.fproc p).cumIoPartial = 0 := by
    by_contra hne
    exact Bool.false_ne_true (hok.runs.symm.trans (h.partly p hne))
  have hseg : ¬ (p = pmProc ∧ segFlag fd = true) := fun hp => Bool.false_ne_true ((hok.seg hp.1).symm.trans hp.2)
  unfold State.readWrite
  rw [if_neg hseg]
  split
  · exact h.fine
  · cases hx : s.getFilp p fd with
    | error e => exact h.fine
    | ok x =>
      have hdev := (h.file_of_getFilp hx).dev
      dsimp only
      split
      · exact h.fine
      split
      · exact h.fine
      split
      next hp =>
        rw [if_neg (not_not.mpr hpart)]
        exact h.rwPipe hok hx hp rw nbytes
      next =>
        split
        next ht =>
          rw [if_neg (hdev (.inl ht))]
          exact ⟨_, rfl, h.rwChar (.inl ht) p nbytes ans⟩
        next ht =>
          rw [if_neg (hdev (.inr ht))]
          exact ⟨_, rfl, h.rwBlock (.inr ht) nbytes ans⟩
        next hc hb => exact h.rwRegular hx (fun hs => hs.elim hc hb) rw nbytes ans

theorem Sound.doGetdents (h : s.Sound) {ans : Int × BitVec 32}
    (hok : ∀ x, s.getFilp p fd = .ok x → 0 < ans.1 → (s.filp x).pos.value + ans.2.toNat < 2 ^ 32) (nbytes : Int) :
    Fine (s.doGetdents p fd nbytes ans) := by
  unfold State.doGetdents
  cases hx : s.getFilp p fd with
  | error e => exact h.fine
  | ok x =>
    dsimp only
    split
    · exact h.fine
    split
    · exact h.fine
    next hdir =>
      have hs : ¬ (s.node x).Special := by
        unfold Vnode.Special
        rw [not_not.mp hdir]
        decide
      have hlow := (h.file_of_getFilp hx).low hs
      rw [if_neg (not_not.mpr (DWord.hi_eq_zero_iff.mpr hlow))]
      split
      next hpos =>
        have hsum := hok x hx hpos
        refine ⟨_, rfl, h.setPos fun _ => ?_⟩
        rw [DWord.value_addWord, Nat.mod_eq_of_lt (by omega)]
        exact hsum
      next => exact h.fine

/-- The position of a regular file is not too high for locks. -/
theorem lockQuery_eq {pos : Nat} (f : LockFilp) (hpos : f.regular = true → pos < 2 ^ 32) (pid : Nat) (size : Int)
    (req : LockReq)
    (fl : Flock) : ∃ r, lockQuery pid f pos size req fl = some r := by
  unfold lockQuery
  split
  · exact ⟨_, rfl⟩
  split
  · exact ⟨_, rfl⟩
  split
  · exact ⟨_, rfl⟩
  next hreg =>
    have hlow : ¬ pos / 2 ^ 32 ≠ 0 := not_not.mpr (Nat.div_eq_of_lt (hpos (not_not.mp hreg)))
    split
    · exact ⟨_, rfl⟩
    split
    · exact ⟨_, rfl⟩
    obtain ⟨base, hbase⟩ : ∃ base, fl.base pos size = some base := by
      unfold Flock.base
      rw [if_neg hlow]
      split <;> exact ⟨_, rfl⟩
    simp only [hbase, bind_eq_bind, bind_some]
    split <;> exact ⟨_, rfl⟩

theorem Sound.regular (h : s.Sound) (hx : s.getFilp p fd = .ok x) (hr : (s.node x).type = .regular) :
    (s.filp x).pos.value < 2 ^ 32 := by
  refine (h.file_of_getFilp hx).low ?_
  unfold Vnode.Special
  rw [hr]
  decide

theorem Sound.lockOp (h : s.Sound) (p : ProcRef) (fd : Int) (req : LockReq) (fl : Option Flock) (ans : LockRet) :
    Fine (s.lockOp p fd req fl ans) := by
  unfold State.lockOp
  cases hx : s.getFilp p fd with
  | error e => exact h.fine
  | ok x =>
    cases fl with
    | none => exact h.fine
    | some fl =>
      have hlow : (s.lockFilp x).regular = true → (s.filp x).pos.value < 2 ^ 32 := fun hr =>
        h.regular hx (of_decide_eq_true hr)
      obtain ⟨r, hr⟩ := lockQuery_eq (s.lockFilp x) hlow p.val (s.node x).size.toInt req fl
      simp only [hr, bind_eq_bind, bind_some]
      split
      · exact h.fine
      · exact (h.suspendIf p _).fine

theorem Sound.freesp (h : s.Sound) (p : ProcRef) (fd : Int) (fl : Except Int Flock) (ans : Int) :
    Fine (s.freesp p fd fl ans) := by
  unfold State.freesp
  cases hx : s.getFilp p fd with
  | error e => exact h.fine
  | ok x =>
    dsimp only
    split
    · exact h.fine
    next hreg =>
      have hlow := h.regular hx (not_not.mp hreg)
      split
      · exact h.fine
      cases fl with
      | error r => exact h.fine
      | ok fl =>
        obtain ⟨base, hbase⟩ : ∃ base, s.freespBase x fl = some base := by
          unfold freespBase
          rw [if_neg (not_not.mpr (DWord.hi_eq_zero_iff.mpr hlow))]
          split <;> exact ⟨_, rfl⟩
        simp only [hbase, bind_eq_bind, bind_some]
        split <;> exact h.fine

theorem Sound.exec (h : s.Sound) {o : Op} (hok : s.StepOk o) : Fine (s.exec o) := by
  cases o with
  | lseek p lsFd whence lo inhibread => exact ⟨_, rfl, h.doSeek hok inhibread⟩
  | llseek p lsFd whence lo high inhibread => exact ⟨_, rfl, h.doSeek hok inhibread⟩
  | readWrite p rw fd nbytes ans => exact h.readWrite hok rw nbytes
  | getdents p fd nbytes ans => exact h.doGetdents hok nbytes
  | lock p fd req fl ans => exact h.lockOp p fd req fl ans
  | freesp p fd fl ans => exact h.freesp p fd fl ans

/-- A request does not crash, and keeps the positions sound. -/
theorem Sound.step (h : s.Sound) {o : Op} (hok : s.StepOk o) : ∃ s', s.step o = some s' ∧ s'.Sound := by
  obtain ⟨r, hr, hs⟩ := h.exec hok
  exact ⟨r.1, by rw [State.step, hr]; rfl, hs⟩

/-- **Seeks are exact, and VFS does not panic**, in every run in which seeks notice an overflow and leave all but
special files below `2 ^ 32`. -/
theorem seeks_of_run {os : List Op} (h : s.Sound) (hok : AllOk step StepOk os s) :
    ∃ k, run step os s = some k ∧ (∀ o, k.StepOk o → ∃ k', k.step o = some k') ∧
      (∀ p lsFd whence lo inhibread, k.SeekOk p lsFd whence (.long lo) →
        k.doLseek p lsFd whence lo inhibread = k.seekSpec p lsFd whence (.long lo) inhibread) ∧
      ∀ p lsFd whence lo high inhibread, k.SeekOk p lsFd whence (.longer lo high) →
        k.doLlseek p lsFd whence lo high inhibread = k.seekSpec p lsFd whence (.longer lo high) inhibread := by
  obtain ⟨k, hk, hsound⟩ := run_total (fun _ _ h => h.step) h hok
  have hseek : ∀ {p lsFd whence offset}, k.SeekOk p lsFd whence offset → ∀ inhibread,
      k.doSeek p lsFd whence offset inhibread = k.seekSpec p lsFd whence offset inhibread := fun hok =>
    doSeek_eq_seekSpec fun x pos hx hp hpos => (hok x pos hx hp hpos).1
  refine ⟨k, hk, fun o ho => ?_, fun _ _ _ _ inhibread ho => hseek ho inhibread,
    fun _ _ _ _ _ inhibread ho => hseek ho inhibread⟩
  obtain ⟨k', hk', -⟩ := hsound.step ho
  exact ⟨k', hk'⟩

end State

/-! ## Runs on one file -/

/-- A process has one open file. -/
def oneFile (type : FileType) : State where
  vnode _ := { type, size := 1000, sdev := some 1 }
  filp _ := { count := 1, rBit := true, wBit := true }
  fproc p := { filp := fun fd => if p = 10 ∧ fd = 0 then some 0 else none }

theorem oneFile_sound (type : FileType) : (oneFile type).Sound := by
  refine ⟨fun p fd x _ => ⟨fun _ => ?_, fun h => ?_, fun _ h => ?_⟩, fun p h => absurd rfl h⟩
  · exact show (⟨0, 0⟩ : U64).value < 2 ^ 32 by decide
  · cases h
  · cases h

/-- A seek to the end, a write behind it, and seeks back from there and beyond the start. -/
def backAndForth : List Op :=
  [.lseek 10 0 .seekEnd 24 OK, .readWrite 10 .writing 0 100 { fs := .ok (1124, 100) },
    .llseek 10 0 .seekCur (-124) (-1) OK,
    .lseek 10 0 .seekCur (-1001) OK, .readWrite 10 .reading 0 50 { fs := .ok (1050, 50) }]

/-- The positions are right, and VFS does not panic. -/
theorem seeks_of_run_backAndForth : ∃ k, run State.step backAndForth (oneFile .regular) = some k ∧
    (k.filp 0).pos = ⟨1050, 0⟩ ∧ (k.vnode 0).size = 1124 ∧ ∀ o, k.StepOk o → ∃ k', k.step o = some k' := by
  obtain ⟨k, hk, hnext, -⟩ := State.seeks_of_run (oneFile_sound .regular)
    (show AllOk State.step State.StepOk backAndForth (oneFile .regular) by decide +kernel)
  obtain ⟨k', hk', hpos⟩ : ∃ k, run State.step backAndForth (oneFile .regular) = some k ∧
      (k.filp 0).pos = ⟨1050, 0⟩ ∧ (k.vnode 0).size = 1124 := by decide +kernel
  cases hk.symm.trans hk'
  exact ⟨k, hk, hpos.1, hpos.2, hnext⟩

/-- A lock or a part of a file from the position on. -/
def fromHere : Flock := ⟨.lock .wr, .seekCur, 0, 1, 0⟩

/-- From the last position, `llseek` and `lseek` by one byte go to the first. -/
def lastPosition : List Op :=
  [.llseek 10 0 .seekSet (-1) 0x7FFFFFFF OK, .llseek 10 0 .seekCur (-1) 0x7FFFFFFF OK, .llseek 10 0 .seekCur 1 0 OK]

/-- `llseek` to `2 ^ 32` is exact, but a read, a write, a lock and `F_FREESP` make VFS panic then, and `getdents` for a
directory. And seeks from the last position wrap. -/
theorem seeks_panic :
    (∃ k, run State.step [.llseek 10 0 .seekSet 0 1 OK] (oneFile .regular) = some k ∧ (k.filp 0).pos.value = 2 ^ 32 ∧
      k.step (.readWrite 10 .reading 0 1 {}) = none ∧ k.step (.readWrite 10 .writing 0 1 {}) = none ∧
      k.step (.lock 10 0 .setlk (some fromHere) .OK) = none ∧ k.step (.freesp 10 0 (.ok fromHere) OK) = none) ∧
    (∃ k, run State.step [.llseek 10 0 .seekSet 0 1 OK] (oneFile .directory) = some k ∧
      k.step (.getdents 10 0 1024 (0, 0)) = none) ∧
    ∃ k, run State.step lastPosition (oneFile .regular) = some k ∧ (k.filp 0).pos.value = 2 ^ 64 - 1 ∧
      (k.doLlseek 10 0 .seekCur 1 0 OK).2.ret = OK ∧ ((k.doLlseek 10 0 .seekCur 1 0 OK).1.filp 0).pos.value = 0 ∧
      (k.doLseek 10 0 .seekCur 1 OK).2.ret = OK ∧ ((k.doLseek 10 0 .seekCur 1 OK).1.filp 0).pos.value = 0 := by
  refine ⟨?_, ?_, ?_⟩ <;> decide +kernel

end Minix.Vfs.Seek
