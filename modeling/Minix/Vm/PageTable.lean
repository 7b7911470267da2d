import Mathlib

/-!
# Page tables

`pt_ptalloc` and `pt_writemap` of `vm/i386/pagetable.c`. A page table has a directory, and for each of its entries that
is in use a table with an entry for each page. `none` stands for a panic, and for the use of a table that is not there.

`ptWritemap_spec`: a range of pages is mapped as a whole or not at all, and the translations of other pages do not
change, if and only if the tables that the first loop does not look at are there. If the range ends at the top of the
address space then `finalpde` is `0`, so that no table is allocated (`ptWritemap_top`).
-/

namespace Minix.Vm

open Function Option

/-- A page table, `pt_t`. -/
structure PageTable where
  ptDir : Nat → BitVec 32
  ptPt : Nat → Option (Nat → BitVec 32)

def VM_PRESENT : BitVec 32 := 0x001

def VM_WRITE : BitVec 32 := 0x002

def VM_USER : BitVec 32 := 0x004

def VM_ACC : BitVec 32 := 0x020

def VM_DIRTY : BitVec 32 := 0x040

def VM_BIGPAGE : BitVec 32 := 0x080

def VM_GLOBAL : BitVec 32 := 0x100

def VM_ADDR_MASK : BitVec 32 := 0xFFFFF000

def PTF_ALLFLAGS : BitVec 32 := VM_WRITE ||| VM_PRESENT ||| VM_USER ||| VM_GLOBAL

/-- The directory entry and the table entry of an address. -/
def vmPde (v : Nat) : Nat := v / 4194304

def vmPte (v : Nat) : Nat := v / 4096 % 1024

def PageTable.present (pt : PageTable) (pde : Nat) : Bool := pt.ptDir pde &&& VM_PRESENT != 0

def PageTable.big (pt : PageTable) (pde : Nat) : Bool := pt.ptDir pde &&& VM_BIGPAGE != 0

/-- What `pt_writemap` is asked to do. Only sanity checks look at `WMF_OVERWRITE`. -/
structure Wmf where
  writeFlagsOnly : Bool := false
  free : Bool := false
  verify : Bool := false

inductive WritemapResult | ok | enomem | efault
  deriving DecidableEq

/-- `pt_ptalloc`, if `page` is what `vm_allocpage` finds. -/
def ptPtalloc (pt : PageTable) (pde : Nat) (flags : BitVec 32) (page : Option (BitVec 32)) :
    WritemapResult × PageTable :=
  match page with
  | none => (.enomem, { pt with ptPt := update pt.ptPt pde none })
  | some ptPhys =>
    (.ok, { ptDir := update pt.ptDir pde (ptPhys &&& VM_ADDR_MASK ||| flags ||| VM_PRESENT ||| VM_USER ||| VM_WRITE),
            ptPt := update pt.ptPt pde (some fun _ => 0) })

/-- The tables of `n` directory entries from `pde` on are allocated if they are missing. -/
def checkTables (flags : BitVec 32) (verify : Bool) (alloc : Nat → Option (BitVec 32)) :
    Nat → Nat → PageTable → Option (WritemapResult × PageTable)
  | 0, _, pt => some (.ok, pt)
  | n + 1, pdecheck, pt =>
    if pt.big pdecheck then none
    else if pt.present pdecheck then checkTables flags verify alloc n (pdecheck + 1) pt
    else if verify then some (.efault, pt)
    else
      let (r, pt) := ptPtalloc pt pdecheck flags (alloc pdecheck)
      if r ≠ .ok then some (r, pt) else checkTables flags verify alloc n (pdecheck + 1) pt

/-- The entries of `n` pages from `v` on are written. The last result are the pages for `FREE_MEM`. -/
def writeEntries (flags : BitVec 32) (wmf : Wmf) :
    Nat → Nat → BitVec 32 → PageTable → List (BitVec 32) → Option (WritemapResult × PageTable × List (BitVec 32))
  | 0, _, _, pt, freed => some (.ok, pt, freed)
  | n + 1, v, physaddr, pt, freed => do
    let table ← pt.ptPt (vmPde v)
    let old := table (vmPte v)
    let physaddr := if wmf.writeFlagsOnly || wmf.free then old &&& VM_ADDR_MASK else physaddr
    let freed := if wmf.free then freed ++ [physaddr] else freed
    let entry := physaddr &&& VM_ADDR_MASK ||| flags
    if wmf.verify then
      if old &&& ~~~(VM_ACC ||| VM_DIRTY) ≠ entry then return (.efault, pt, freed)
      else writeEntries flags wmf n ((v + 4096) % 2 ^ 32) (physaddr + 4096) pt freed
    else
      let pt := { pt with ptPt := update pt.ptPt (vmPde v) (some (update table (vmPte v) entry)) }
      writeEntries flags wmf n ((v + 4096) % 2 ^ 32) (physaddr + 4096) pt freed

def ptWritemap (pt : PageTable) (v : Nat) (physaddr : BitVec 32) (bytes : Nat) (flags : BitVec 32) (wmf : Wmf)
    (alloc : Nat → Option (BitVec 32)) : Option (WritemapResult × PageTable × List (BitVec 32)) := do
  let pages := bytes / 4096
  let finalpde := vmPde ((v + 4096 * pages) % 2 ^ 32)
  let (r, pt) ← checkTables flags wmf.verify alloc (finalpde + 1 - vmPde v) (vmPde v) pt
  if r ≠ .ok then return (r, pt, [])
  writeEntries flags wmf pages v physaddr pt []

namespace PageTable

variable {pt pt' : PageTable} {flags : BitVec 32} {v w d : Nat}

/-- The entry of the page of an address, which is empty if the directory entry is not present. -/
def entry (pt : PageTable) (w : Nat) : BitVec 32 :=
  if pt.present (vmPde w) then (pt.ptPt (vmPde w)).elim 0 fun t => t (vmPte w) else 0

/-- What the processor finds for an address: a directory entry or a table entry, with the page and its flags. -/
def translate (pt : PageTable) (w : Nat) : Option (BitVec 32) :=
  if pt.present (vmPde w) ∧ pt.big (vmPde w) then some (pt.ptDir (vmPde w))
  else if pt.entry w &&& VM_PRESENT = 0 then none else some (pt.entry w)

theorem translate_congr (hd : pt'.ptDir (vmPde w) = pt.ptDir (vmPde w)) (he : pt'.entry w = pt.entry w) :
    pt'.translate w = pt.translate w := by
  simp [translate, present, big, hd, he]

/-- The directory entry has a table. -/
structure Tabled (pt : PageTable) (d : Nat) : Prop where
  present : pt.present d
  small : ¬ pt.big d
  table : ∃ t, pt.ptPt d = some t

/-- The directory entry has a table, or is empty. -/
def Ready (pt : PageTable) (d : Nat) : Prop := ¬ pt.big d ∧ (pt.present d → ∃ t, pt.ptPt d = some t)

/-! ## The tables -/

/-- What is found in the page table is as before, and so are the directory entries and tables but for those in `p`. -/
structure Kept (p : Nat → Prop) (pt pt' : PageTable) : Prop where
  translate : ∀ w, pt'.translate w = pt.translate w
  entry : ∀ w, pt'.entry w = pt.entry w
  dir : ∀ k, ¬ p k → pt'.ptDir k = pt.ptDir k
  table : ∀ k, ¬ p k → pt'.ptPt k = pt.ptPt k

theorem Kept.refl (p : Nat → Prop) (pt : PageTable) : Kept p pt pt :=
  ⟨fun _ => rfl, fun _ => rfl, fun _ _ => rfl, fun _ _ => rfl⟩

theorem Kept.trans {p q : Nat → Prop} {pt'' : PageTable} (h : Kept p pt pt') (h' : Kept q pt' pt'') :
    Kept (fun k => p k ∨ q k) pt pt'' where
  translate w := (h'.translate w).trans (h.translate w)
  entry w := (h'.entry w).trans (h.entry w)
  dir k hk := (h'.dir k fun hq => hk (.inr hq)).trans (h.dir k fun hp => hk (.inl hp))
  table k hk := (h'.table k fun hq => hk (.inr hq)).trans (h.table k fun hp => hk (.inl hp))

theorem Kept.mono {p q : Nat → Prop} (h : Kept p pt pt') (hpq : ∀ k, p k → q k) : Kept q pt pt' :=
  ⟨h.translate, h.entry, fun k hk => h.dir k fun hp => hk (hpq k hp), fun k hk => h.table k fun hp => hk (hpq k hp)⟩

theorem ptPtalloc_kept (hd : ¬ pt.present d) (hflags : flags &&& VM_BIGPAGE = 0) (page : Option (BitVec 32)) :
    Kept (· = d) pt (ptPtalloc pt d flags page).2 ∧
    ((ptPtalloc pt d flags page).1 = .ok → (ptPtalloc pt d flags page).2.Tabled d) := by
  have hold {w : Nat} (hw : vmPde w = d) : pt.translate w = none ∧ pt.entry w = 0 := by
    subst hw
    simp [translate, entry, hd]
  -- at `d` there is nothing to be found before and after
  have hkept {pt' : PageTable} (hdir : ∀ k, k ≠ d → pt'.ptDir k = pt.ptDir k)
      (htable : ∀ k, k ≠ d → pt'.ptPt k = pt.ptPt k)
      (hnew : ∀ w, vmPde w = d → pt'.translate w = none ∧ pt'.entry w = 0) : Kept (· = d) pt pt' := by
    have hboth (w : Nat) : pt'.translate w = pt.translate w ∧ pt'.entry w = pt.entry w := by
      by_cases hw : vmPde w = d
      · rw [(hold hw).1, (hold hw).2]
        exact hnew w hw
      · simp [translate, entry, present, big, hdir _ hw, htable _ hw]
    exact ⟨fun w => (hboth w).1, fun w => (hboth w).2, hdir, htable⟩
  cases page with
  | none =>
    refine ⟨hkept (fun _ _ => rfl) (fun k hk => update_of_ne hk _ _) fun w hw => ?_, nofun⟩
    subst hw
    have hd' : ¬ (ptPtalloc pt (vmPde w) flags none).2.present (vmPde w) := hd
    simp [translate, entry, hd']
  | some ptPhys =>
    have htabled : (ptPtalloc pt d flags (some ptPhys)).2.Tabled d := by
      refine ⟨?_, ?_, _, update_self _ _ _⟩
      · have hne : (ptPhys &&& VM_ADDR_MASK ||| flags ||| VM_PRESENT ||| VM_USER ||| VM_WRITE) &&& VM_PRESENT ≠ 0 := by
          intro h0
          have := congrArg (fun x : BitVec 32 => x.getLsbD 0) h0
          simp [VM_PRESENT] at this
        simpa [present, ptPtalloc] using hne
      · have h0 : (ptPhys &&& VM_ADDR_MASK ||| flags ||| VM_PRESENT ||| VM_USER ||| VM_WRITE) &&& VM_BIGPAGE = 0 := by
          simp only [BitVec.and_or_distrib_right, BitVec.and_assoc, hflags]
          simp [VM_ADDR_MASK, VM_BIGPAGE, VM_PRESENT, VM_USER, VM_WRITE]
        simpa [big, ptPtalloc] using h0
    refine ⟨hkept (fun k hk => update_of_ne hk _ _) (fun k hk => update_of_ne hk _ _) fun w hw => ?_, fun _ => htabled⟩
    subst hw
    have he : (ptPtalloc pt (vmPde w) flags (some ptPhys)).2.entry w = 0 := by simp [entry, ptPtalloc]
    exact ⟨by simp [translate, htabled.small, he], he⟩

theorem Tabled.of_kept {p : Nat → Prop} (h : Kept p pt pt') (hd : ¬ p d) (ht : pt.Tabled d) : pt'.Tabled d := by
  refine ⟨?_, ?_, ?_⟩
  · rw [PageTable.present, h.dir d hd]
    exact ht.present
  · rw [PageTable.big, h.dir d hd]
    exact ht.small
  · rw [h.table d hd]
    exact ht.table

/-- The first loop finds or allocates all tables, if none is missing that cannot be allocated. -/
theorem checkTables_spec (hflags : flags &&& VM_BIGPAGE = 0) (verify : Bool) (alloc : Nat → Option (BitVec 32)) :
    ∀ (n d : Nat) (pt : PageTable), (∀ k, d ≤ k → k < d + n → pt.Ready k) →
    ∃ r pt', checkTables flags verify alloc n d pt = some (r, pt') ∧ Kept (fun k => d ≤ k ∧ k < d + n) pt pt' ∧
      (r = .ok → ∀ k, d ≤ k → k < d + n → pt'.Tabled k) ∧
      (r = .ok ↔ ∀ k, d ≤ k → k < d + n → pt.present k ∨ (verify = false ∧ alloc k ≠ none)) ∧ (verify = true → pt' = pt)
  | 0, d, pt, _ => by
    refine ⟨.ok, pt, rfl, .refl _ pt, fun _ k h1 h2 => by omega,
      ⟨fun _ k h1 h2 => by omega, fun _ => rfl⟩, fun _ => rfl⟩
  | n + 1, d, pt, hr => by
    obtain ⟨hbig, htable⟩ := hr d (by omega) (by omega)
    have hrest {pt1 : PageTable} (h : Kept (· = d) pt pt1) (ht : pt1.Tabled d)
        (hd : pt.present d ∨ (verify = false ∧ alloc d ≠ none)) (hv : verify = true → pt1 = pt) :
        ∃ r pt', checkTables flags verify alloc n (d + 1) pt1 = some (r, pt') ∧
          Kept (fun k => d ≤ k ∧ k < d + (n + 1)) pt pt' ∧ (r = .ok → ∀ k, d ≤ k → k < d + (n + 1) → pt'.Tabled k) ∧
          (r = .ok ↔ ∀ k, d ≤ k → k < d + (n + 1) → pt.present k ∨ (verify = false ∧ alloc k ≠ none)) ∧
          (verify = true → pt' = pt) := by
      obtain ⟨r, pt', he, hkept, hok, hiff, hver⟩ :=
        checkTables_spec hflags verify alloc n (d + 1) pt1 fun k h1 h2 => by
        have hk : k ≠ d := by omega
        obtain ⟨hb, ht⟩ := hr k (by omega) (by omega)
        refine ⟨by rwa [big, h.dir k hk], fun hp => ?_⟩
        rw [h.table k hk]
        exact ht (by rwa [present, h.dir k hk] at hp)
      refine ⟨r, pt', he, (h.trans hkept).mono fun k hk => by omega, fun h k h1 h2 => ?_, hiff.trans ?_, fun hx =>
        (hver hx).trans (hv hx)⟩
      · by_cases hk : k = d
        · rw [hk]
          exact ht.of_kept hkept (by omega)
        · exact hok h k (by omega) (by omega)
      · have hsame {k : Nat} (hk : k ≠ d) : pt1.present k = pt.present k := by rw [present, present, h.dir k hk]
        constructor
        · intro hall k h1 h2
          by_cases hk : k = d
          · rw [hk]
            exact hd
          · rw [← hsame hk]
            exact hall k (by omega) (by omega)
        · intro hall k h1 h2
          rw [hsame (by omega)]
          exact hall k (by omega) (by omega)
    have hstop {r : WritemapResult} (hne : r ≠ .ok) (hd : ¬ (pt.present d ∨ (verify = false ∧ alloc d ≠ none))) :
        r = .ok ↔ ∀ k, d ≤ k → k < d + (n + 1) → pt.present k ∨ (verify = false ∧ alloc k ≠ none) :=
      iff_of_false hne fun hall => hd (hall d (by omega) (by omega))
    rw [checkTables, if_neg hbig]
    by_cases hp : pt.present d
    · rw [if_pos hp]
      exact hrest (.refl _ pt) ⟨hp, hbig, htable hp⟩ (.inl hp) fun _ => rfl
    · rw [if_neg hp]
      split
      next hver => exact ⟨.efault, pt, rfl, .refl _ pt, nofun, hstop nofun (by simp [hp, hver]), fun _ => rfl⟩
      next hver =>
        obtain ⟨hkept, hok⟩ := ptPtalloc_kept hp hflags (alloc d)
        have hres : (ptPtalloc pt d flags (alloc d)).1 = .ok ↔ alloc d ≠ none := by
          cases halloc : alloc d with
          | none => exact iff_of_false nofun (not_not.mpr rfl)
          | some page => exact iff_of_true rfl nofun
        generalize ptPtalloc pt d flags (alloc d) = x at hkept hok hres
        obtain ⟨r, pt1⟩ := x
        dsimp only at hkept hok hres ⊢
        split
        next hne =>
          refine ⟨r, pt1, rfl, hkept.mono fun k hk => by omega, fun h => absurd h hne, hstop hne ?_,
            fun h => absurd h hver⟩
          rintro (h | ⟨-, h⟩)
          · exact hp h
          · exact hne (hres.mpr h)
        next heq =>
          have heq := not_not.mp heq
          exact hrest hkept (hok heq) (.inr ⟨by simpa using hver, hres.mp heq⟩) fun h => absurd h hver

/-! ## The entries -/

/-- The entry that is found, or written, for a page with the entry `old`. -/
def Maps (wmf : Wmf) (flags physaddr old new : BitVec 32) : Prop :=
  (if wmf.verify then new &&& ~~~(VM_ACC ||| VM_DIRTY) else new) =
    (if wmf.writeFlagsOnly || wmf.free then old else physaddr) &&& VM_ADDR_MASK ||| flags

theorem entry_update {t : Nat → BitVec 32} (ht : pt.ptPt (vmPde v) = some t) (hp : pt.present (vmPde v))
    (x : BitVec 32) (w : Nat) :
    { pt with ptPt := update pt.ptPt (vmPde v) (some (update t (vmPte v) x)) }.entry w =
      if w / 4096 = v / 4096 then x else pt.entry w := by
  have hiff : w / 4096 = v / 4096 ↔ vmPde w = vmPde v ∧ vmPte w = vmPte v := by
    unfold vmPde vmPte
    omega
  have hp : ¬ pt.ptDir (vmPde v) &&& VM_PRESENT = 0#32 := by simpa [present] using hp
  simp only [hiff, entry, present]
  by_cases hd : vmPde w = vmPde v
  · by_cases he : vmPte w = vmPte v
    · simp [hd, he, hp]
    · simp [hd, he, hp, ht]
  · simp [hd]

/-- What the loop over `n` pages from `v` on does. -/
structure Written (flags : BitVec 32) (wmf : Wmf) (n v : Nat) (physaddr : BitVec 32) (pt : PageTable)
    (r : WritemapResult)
    (pt' : PageTable) : Prop where
  dir : pt'.ptDir = pt.ptDir
  failed : r ≠ .ok → wmf.verify = true
  verified : wmf.verify = true → pt' = pt
  other : ∀ w, w < v ∨ v + 4096 * n ≤ w → pt'.entry w = pt.entry w
  maps : r = .ok → ∀ i < n, Maps wmf flags (physaddr + BitVec.ofNat 32 (4096 * i)) (pt.entry (v + 4096 * i))
    (pt'.entry (v + 4096 * i))

/-- If entries are verified, then those of the first `i` pages are as expected. -/
def Expected (flags : BitVec 32) (wmf : Wmf) (v : Nat) (physaddr : BitVec 32) (pt : PageTable) (i : Nat) : Prop :=
  wmf.verify = true → ∀ j < i,
    Maps wmf flags (physaddr + BitVec.ofNat 32 (4096 * j)) (pt.entry (v + 4096 * j)) (pt.entry (v + 4096 * j))

/-- The address after the last page is not used. -/
theorem writeEntries_mod {n v : Nat} (h : v + 4096 * (n + 1) ≤ 2 ^ 32) (flags physaddr : BitVec 32) (wmf : Wmf)
    (pt : PageTable)
    (freed : List (BitVec 32)) : writeEntries flags wmf n ((v + 4096) % 2 ^ 32) physaddr pt freed =
      writeEntries flags wmf n (v + 4096) physaddr pt freed := by
  cases n with
  | zero => rw [writeEntries, writeEntries]
  | succ n => rw [Nat.mod_eq_of_lt (Nat.lt_of_lt_of_le (by omega) h)]

theorem Maps.next {wmf : Wmf} {physaddr phys old : BitVec 32}
    (hphys : (if (wmf.writeFlagsOnly || wmf.free) = true then old &&& VM_ADDR_MASK else physaddr) = phys) (i : Nat)
    (x y : BitVec 32) : Maps wmf flags (phys + 4096 + BitVec.ofNat 32 (4096 * i)) x y ↔
      Maps wmf flags (physaddr + BitVec.ofNat 32 (4096 * (i + 1))) x y := by
  have hadd : physaddr + BitVec.ofNat 32 (4096 * (i + 1)) = physaddr + 4096 + BitVec.ofNat 32 (4096 * i) := by
    rw [BitVec.add_assoc, Nat.mul_succ, Nat.add_comm, BitVec.ofNat_add]
    rfl
  by_cases hold : (wmf.writeFlagsOnly || wmf.free) = true
  · simp only [Maps, hold, if_true]
  · rw [hadd, ← hphys, if_neg hold]

theorem add_next (v i : Nat) : v + 4096 * (i + 1) = v + 4096 + 4096 * i := by omega

/-- After the first page is as expected. -/
theorem Expected.next {wmf : Wmf} {physaddr phys : BitVec 32}
    (hphys : (if (wmf.writeFlagsOnly || wmf.free) = true then pt.entry v &&& VM_ADDR_MASK else physaddr) = phys)
    (hfirst : wmf.verify = true → Maps wmf flags physaddr (pt.entry v) (pt.entry v)) (i : Nat) :
    Expected flags wmf (v + 4096) (phys + 4096) pt i ↔ Expected flags wmf v physaddr pt (i + 1) := by
  constructor
  · intro h hver j hj
    cases j with
    | zero => simpa using hfirst hver
    | succ j =>
      rw [add_next]
      exact (Maps.next hphys j _ _).mp (h hver j (by omega))
  · intro h hver j hj
    have := h hver (j + 1) (by omega)
    rw [add_next] at this
    exact (Maps.next hphys j _ _).mpr this

theorem and_mask_of_phys {old physaddr phys : BitVec 32} {c : Prop} [Decidable c]
    (h : (if c then old &&& VM_ADDR_MASK else physaddr) = phys) :
    phys &&& VM_ADDR_MASK = (if c then old else physaddr) &&& VM_ADDR_MASK := by
  rw [← h]
  split
  · rw [BitVec.and_assoc, BitVec.and_self]
  · rfl

/-- The second loop writes all the entries, if the tables are there. -/
theorem writeEntries_spec (flags : BitVec 32) (wmf : Wmf) : ∀ (n v : Nat) (physaddr : BitVec 32) (pt : PageTable)
    (freed : List (BitVec 32)), 4096 ∣ v → v + 4096 * n ≤ 2 ^ 32 →
    (∀ i < n, Expected flags wmf v physaddr pt i → pt.Tabled (vmPde (v + 4096 * i))) →
    ∃ r pt' freed', writeEntries flags wmf n v physaddr pt freed = some (r, pt', freed') ∧
    Written flags wmf n v physaddr pt r pt'
  | 0, _, _, pt, freed, _, _, _ => ⟨.ok, pt, freed, rfl, rfl, nofun, fun _ => rfl, fun _ _ => rfl,
    fun _ i hi => by omega⟩
  | n + 1, v, physaddr, pt, freed, hv, hend, ht => by
    obtain ⟨hp, -, t, htab⟩ := ht 0 (by omega) fun _ j hj => absurd hj (Nat.not_lt_zero j)
    rw [Nat.mul_zero, Nat.add_zero] at hp htab
    have hold : pt.entry v = t (vmPte v) := by simp [entry, hp, htab]
    rw [writeEntries, htab]
    simp only [bind_eq_bind, bind_some, ← hold, writeEntries_mod hend]
    generalize hphys : (if (wmf.writeFlagsOnly || wmf.free) = true then pt.entry v &&& VM_ADDR_MASK else physaddr) =
        phys
    generalize (if wmf.free = true then freed ++ [phys] else freed) = freed
    have hentry := and_mask_of_phys hphys
    -- the entry of the first page is found or written, then come the others
    have hrest {pt1 : PageTable} (hdir : pt1.ptDir = pt.ptDir) (hver : wmf.verify = true → pt1 = pt)
        (htable : ∀ d, (∃ t, pt.ptPt d = some t) → ∃ t, pt1.ptPt d = some t)
        (hother : ∀ w, w / 4096 ≠ v / 4096 → pt1.entry w = pt.entry w)
          (hmaps : Maps wmf flags physaddr (pt.entry v) (pt1.entry v)) :
        ∃ r pt' freed', writeEntries flags wmf n (v + 4096) (phys + 4096) pt1 freed = some (r, pt', freed') ∧
          Written flags wmf (n + 1) v physaddr pt r pt' := by
      have hexp (i : Nat) (h : Expected flags wmf (v + 4096) (phys + 4096) pt1 i) :
          Expected flags wmf v physaddr pt (i + 1) := by
        intro hx
        rw [hver hx] at h hmaps
        exact (Expected.next hphys (fun _ => hmaps) i).mp h hx
      obtain ⟨r, pt', freed', he, h⟩ := writeEntries_spec flags wmf n (v + 4096) (phys + 4096) pt1 freed (by omega)
        (by omega) fun i hi h => by
        obtain ⟨h3, h4, h5⟩ := ht (i + 1) (by omega) (hexp i h)
        rw [add_next] at h3 h4 h5
        exact ⟨by rwa [present, hdir], by rwa [big, hdir], htable _ h5⟩
      refine ⟨r, pt', freed', he, h.dir.trans hdir, h.failed, fun hv => (h.verified hv).trans (hver hv), fun w hw => ?_,
        fun hr i hi => ?_⟩
      · rw [h.other w (by omega), hother w (by omega)]
      · cases i with
        | zero =>
          rw [Nat.mul_zero, Nat.add_zero, h.other v (by omega)]
          simpa using hmaps
        | succ i =>
          have hi := h.maps hr i (by omega)
          rw [hother (v + 4096 + 4096 * i) (by omega)] at hi
          rw [add_next]
          exact (Maps.next hphys i _ _).mp hi
    split
    next hver =>
      split
      · exact ⟨.efault, pt, freed, rfl, rfl, fun _ => hver, fun _ => rfl, fun _ _ => rfl, nofun⟩
      next he =>
        refine hrest rfl (fun _ => rfl) (fun _ h => h) (fun _ _ => rfl) ?_
        unfold Maps
        rw [if_pos hver, ← hentry]
        exact not_not.mp he
    next hver =>
      have hset := entry_update htab hp (phys &&& VM_ADDR_MASK ||| flags)
      refine hrest rfl (fun h => absurd h hver) (fun d h => ?_) (fun w hw => by rw [hset, if_neg hw]) ?_
      · by_cases hd : d = vmPde v
        · exact ⟨_, by rw [hd]; exact update_self ..⟩
        · obtain ⟨t, h⟩ := h
          exact ⟨t, (update_of_ne hd _ _).trans h⟩
      · unfold Maps
        rw [if_neg hver, hset, if_pos rfl, hentry]

/-- The second loop uses a table that is not there. -/
theorem writeEntries_none (flags : BitVec 32) (wmf : Wmf) : ∀ (n v : Nat) (physaddr : BitVec 32) (pt : PageTable)
    (freed : List (BitVec 32)), v + 4096 * n ≤ 2 ^ 32 → (∀ d t, pt.ptPt d = some t → pt.present d) → ∀ i < n,
    Expected flags wmf v physaddr pt i → pt.ptPt (vmPde (v + 4096 * i)) = none →
    writeEntries flags wmf n v physaddr pt freed = none
  | n + 1, v, physaddr, pt, freed, hend, hpres, i, hi, hexp, hnone => by
    rw [writeEntries]
    cases htab : pt.ptPt (vmPde v) with
    | none => rfl
    | some t =>
      cases i with
      | zero =>
        rw [Nat.mul_zero, Nat.add_zero, htab] at hnone
        cases hnone
      | succ i =>
        have hp := hpres _ t htab
        have hold : pt.entry v = t (vmPte v) := by simp [entry, hp, htab]
        simp only [bind_eq_bind, bind_some, ← hold, writeEntries_mod hend]
        generalize hphys : (if (wmf.writeFlagsOnly || wmf.free) = true then pt.entry v &&& VM_ADDR_MASK else physaddr) =
            phys
        generalize (if wmf.free = true then freed ++ [phys] else freed) = freed
        have hfirst (hver : wmf.verify = true) : Maps wmf flags physaddr (pt.entry v) (pt.entry v) := by
          simpa using hexp hver 0 (Nat.succ_pos i)
        have hentry := and_mask_of_phys hphys
        rw [add_next] at hnone
        split
        next hver =>
          have hmaps := hfirst hver
          rw [Maps, if_pos hver, ← hentry] at hmaps
          rw [if_neg (not_not.mpr hmaps)]
          exact writeEntries_none flags wmf n (v + 4096) (phys + 4096) pt freed (by omega) hpres i (by omega)
            ((Expected.next hphys hfirst i).mpr hexp) hnone
        next hver =>
          have hne : vmPde (v + 4096 + 4096 * i) ≠ vmPde v := fun h => by rw [h, htab] at hnone; cases hnone
          refine writeEntries_none flags wmf n (v + 4096) (phys + 4096) _ freed (by omega)
            (fun d t' ht' => ?_) i (by omega)
            (fun h => absurd h hver) ((update_of_ne hne _ _).trans hnone)
          by_cases hd : d = vmPde v
          · rw [hd]
            exact hp
          · exact hpres d t' ((update_of_ne hd _ _).symm.trans ht')

/-! ## A call -/

/-- There is a table for exactly the directory entries that are for one. -/
def Wf (pt : PageTable) : Prop := ∀ d, (∃ t, pt.ptPt d = some t) ↔ pt.present d ∧ ¬ pt.big d

/-- The first loop looks at the directory entry. -/
def Checked (v bytes d : Nat) : Prop := vmPde v ≤ d ∧ d ≤ vmPde ((v + bytes) % 2 ^ 32)

/-- The second loop comes to page `i`: the first loop does not fail, and the entries before are as expected. -/
structure Reached (pt : PageTable) (v bytes : Nat) (physaddr flags : BitVec 32) (wmf : Wmf)
    (alloc : Nat → Option (BitVec 32))
    (i : Nat) : Prop where
  tables : ∀ d, Checked v bytes d → pt.present d ∨ (wmf.verify = false ∧ alloc d ≠ none)
  entries : Expected flags wmf v physaddr pt i

/-- The pages of the range are mapped, or nothing changes. -/
def Mapped (pt : PageTable) (v bytes : Nat) (physaddr flags : BitVec 32) (wmf : Wmf) (r : WritemapResult)
    (pt' : PageTable) : Prop :=
  (r = .ok → (∀ i < bytes / 4096, pt'.present (vmPde (v + 4096 * i)) ∧ ¬ pt'.big (vmPde (v + 4096 * i)) ∧
      Maps wmf flags (physaddr + BitVec.ofNat 32 (4096 * i)) (pt.entry (v + 4096 * i)) (pt'.entry (v + 4096 * i))) ∧
    ∀ w, w < v ∨ v + bytes ≤ w → pt'.translate w = pt.translate w) ∧
  (r ≠ .ok → ∀ w, pt'.translate w = pt.translate w)

theorem Written.mapped {n : Nat} {physaddr : BitVec 32} {wmf : Wmf} {r : WritemapResult} {p : Nat → Prop}
    {pt1 : PageTable}
    (hkept : Kept p pt pt1) (h : Written flags wmf n v physaddr pt1 r pt')
    (ht : r = .ok → ∀ i < n, pt1.Tabled (vmPde (v + 4096 * i))) : Mapped pt v (4096 * n) physaddr flags wmf r pt' := by
  refine ⟨fun hr => ⟨fun i hi => ?_, fun w hw => ?_⟩, fun hr w => ?_⟩
  · rw [Nat.mul_div_cancel_left n (by decide)] at hi
    obtain ⟨h1, h2, -⟩ := ht hr i hi
    rw [← hkept.entry]
    exact ⟨by rwa [present, h.dir], by rwa [big, h.dir], h.maps hr i hi⟩
  · exact (translate_congr (by rw [h.dir]) (h.other w hw)).trans (hkept.translate w)
  · rw [h.verified (h.failed hr)]
    exact hkept.translate w

/-- If all entries were found as expected then the loop came to all pages. -/
theorem Written.expected {n : Nat} {physaddr : BitVec 32} {wmf : Wmf}
    (h : Written flags wmf n v physaddr pt .ok pt') {i : Nat}
    (hi : i < n) : Expected flags wmf v physaddr pt i := by
  intro hver j hj
  have := h.maps rfl j (by omega)
  rwa [h.verified hver] at this

/-- `pt_writemap`: the pages of the range are mapped, or nothing changes, if and only if the tables that the first loop
does not look at are there, for the pages that the second loop comes to. -/
theorem ptWritemap_spec {bytes : Nat} (hwf : pt.Wf) (hv : 4096 ∣ v) (hb : 4096 ∣ bytes) (hend : v + bytes ≤ 2 ^ 32)
    (hflags : flags &&& ~~~PTF_ALLFLAGS = 0) (hsmall : ∀ d, Checked v bytes d → ¬ pt.big d)
    (physaddr : BitVec 32) (wmf : Wmf)
    (alloc : Nat → Option (BitVec 32)) :
    (∃ r pt' freed, ptWritemap pt v physaddr bytes flags wmf alloc = some (r, pt', freed) ∧
      Mapped pt v bytes physaddr flags wmf r pt') ↔
    ∀ i < bytes / 4096, Reached pt v bytes physaddr flags wmf alloc i →
      Checked v bytes (vmPde (v + 4096 * i)) ∨ pt.Tabled (vmPde (v + 4096 * i)) := by
  obtain ⟨n, rfl⟩ := hb
  have hbig : flags &&& VM_BIGPAGE = 0 :=
    calc flags &&& VM_BIGPAGE = flags &&& ~~~PTF_ALLFLAGS &&& VM_BIGPAGE := by rw [BitVec.and_assoc]; rfl
      _ = 0 := by rw [hflags]; rfl
  have hrange (d : Nat) : Checked v (4096 * n) d ↔
      vmPde v ≤ d ∧ d < vmPde v + (vmPde ((v + 4096 * n) % 2 ^ 32) + 1 - vmPde v) := by
    unfold Checked
    omega
  obtain ⟨r, pt1, he, hkept, hok, hiff, hver⟩ := checkTables_spec hbig wmf.verify alloc
    (vmPde ((v + 4096 * n) % 2 ^ 32) + 1 - vmPde v) (vmPde v) pt fun k h1 h2 =>
      have hk := hsmall k ((hrange k).mpr ⟨h1, h2⟩)
      ⟨hk, fun hp => (hwf k).mpr ⟨hp, hk⟩⟩
  have hreached {i : Nat} : Reached pt v (4096 * n) physaddr flags wmf alloc i ↔ r = .ok ∧
      Expected flags wmf v physaddr pt i := by
    rw [hiff]
    exact ⟨fun h => ⟨fun k h1 h2 => h.tables k ((hrange k).mpr ⟨h1, h2⟩), h.entries⟩,
      fun h => ⟨fun k hk => h.1 k ((hrange k).mp hk).1 ((hrange k).mp hk).2, h.2⟩⟩
  have hexp {i : Nat} : Expected flags wmf v physaddr pt1 i ↔ Expected flags wmf v physaddr pt i := by
    unfold Expected
    exact forall_congr' fun hx => by rw [hver hx]
  have hcall : ptWritemap pt v physaddr (4096 * n) flags wmf alloc =
      if r ≠ .ok then some (r, pt1, []) else writeEntries flags wmf n v physaddr pt1 [] := by
    unfold ptWritemap
    dsimp only
    rw [Nat.mul_div_cancel_left n (by decide), he]
    rfl
  rw [hcall, Nat.mul_div_cancel_left n (by decide)]
  by_cases hr : r = .ok
  · rw [if_neg (not_not.mpr hr)]
    constructor
    · rintro ⟨r', pt', freed, hw, -⟩ i hi hre
      by_contra hno
      obtain ⟨hno, hnt⟩ := not_or.mp hno
      have htab : pt1.ptPt (vmPde (v + 4096 * i)) = none := by
        rw [hkept.table _ fun h => hno ((hrange _).mpr h)]
        refine eq_none_iff_forall_ne_some.mpr fun t ht => hnt ?_
        obtain ⟨h1, h2⟩ := (hwf _).mp ⟨t, ht⟩
        exact ⟨h1, h2, t, ht⟩
      have hpres (d : Nat) (t : Nat → BitVec 32) (ht : pt1.ptPt d = some t) : pt1.present d := by
        by_cases hd : vmPde v ≤ d ∧ d < vmPde v + (vmPde ((v + 4096 * n) % 2 ^ 32) + 1 - vmPde v)
        · exact (hok hr d hd.1 hd.2).present
        · rw [hkept.table d hd] at ht
          rw [present, hkept.dir d hd]
          exact ((hwf d).mp ⟨t, ht⟩).1
      rw [writeEntries_none flags wmf n v physaddr pt1 [] hend hpres i hi (hexp.mpr (hreached.mp hre).2) htab] at hw
      cases hw
    · intro hcond
      have htabled (i : Nat) (hi : i < n) (h : Expected flags wmf v physaddr pt1 i) :
          pt1.Tabled (vmPde (v + 4096 * i)) := by
        by_cases hd : Checked v (4096 * n) (vmPde (v + 4096 * i))
        · exact hok hr _ ((hrange _).mp hd).1 ((hrange _).mp hd).2
        · exact ((hcond i hi (hreached.mpr ⟨hr, hexp.mp h⟩)).resolve_left hd).of_kept hkept fun h =>
            hd ((hrange _).mpr h)
      obtain ⟨r', pt', freed, hw, h⟩ := writeEntries_spec flags wmf n v physaddr pt1 [] hv hend htabled
      refine ⟨r', pt', freed, hw, h.mapped hkept fun hr' i hi => htabled i hi ?_⟩
      subst hr'
      exact h.expected hi
  · rw [if_pos hr]
    refine iff_of_true ⟨r, pt1, [], rfl, fun h => absurd h hr, fun _ => hkept.translate⟩ fun i _ h => ?_
    exact absurd (hreached.mp h).1 hr

/-- A page table without entries. -/
def blank : PageTable := ⟨fun _ => 0, fun _ => none⟩

theorem blank_wf : blank.Wf := fun d => iff_of_false nofun fun h => by simp [present, blank] at h

/-- Two pages, at the border of two tables. -/
theorem ptWritemap_border : ∃ pt' freed, ptWritemap blank 0x3FF000 0x5000 8192 7 {}
    (fun d => some (BitVec.ofNat 32 (4096 * d))) =
    some (.ok, pt', freed) ∧ pt'.entry 0x3FF000 = 0x5007 ∧ pt'.entry 0x400000 = 0x6007 ∧
    pt'.translate 0x401000 = none := by
  obtain ⟨r, pt', freed, he, hok, -⟩ :=
    (@ptWritemap_spec blank 7 0x3FF000 8192 blank_wf (by decide) (by decide) (by decide) (by decide)
    (fun d _ => by simp [big, blank]) 0x5000 {} fun d => some (BitVec.ofNat 32 (4096 * d))).mpr fun i hi _ => .inl (by
      have hi : i < 2 := hi
      unfold Checked vmPde
      omega)
  have hr : r = .ok := by
    have h : (ptWritemap blank 0x3FF000 0x5000 8192 7 {} fun d => some (BitVec.ofNat 32 (4096 * d))).map (·.1) =
        some .ok := by decide +kernel
    rw [he] at h
    exact some.inj h
  obtain ⟨hin, hout⟩ := hok hr
  exact ⟨pt', freed, hr ▸ he, (hin 0 (by decide)).2.2, (hin 1 (by decide)).2.2, hout 0x401000 (by decide)⟩

/-- The last page of the address space: its table is not allocated. -/
theorem ptWritemap_top : blank.Wf ∧ ptWritemap blank 0xFFFFF000 0x5000 4096 7 {}
    (fun d => some (BitVec.ofNat 32 (4096 * d))) = none :=
  ⟨blank_wf, rfl⟩

end PageTable

end Minix.Vm
