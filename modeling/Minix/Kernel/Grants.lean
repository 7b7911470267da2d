import Minix.Kernel.Copy
import Minix.Kernel.Effects

/-!
# Grants

`verify_grant` and `safecopy` (`kernel/system/do_safecopy.c`). A process gives access to parts of its memory by entries
of its grant table. An indirect grant passes on access that the process itself has been granted, and a magic grant,
which only the file system may give, is for the memory of another process.

* `Backed` says what a successful `verify_grant` must be backed by: a chain of at most `MAX_INDIRECT_DEPTH` indirect
  grants, and a grant for the whole range at its end.
* `verifyGrant_backed`: it is, if and only if the range does not extend beyond the end of the address space in a magic
  grant that is reached.
* `verifyGrant_wraps`: otherwise the address that is returned may be outside of the granted range.
-/

namespace Minix.Kernel

open Minix.Lib

def ELOOP : Int := -40

/-- `MAX_INDIRECT_DEPTH`. -/
def maxIndirectDepth : Nat := 5

/-- `MEM_TOP`. -/
def memTop : Addr := 0xFFFFFFFF#32

def CPF_READ : BitVec 32 := 0x000001#32

def CPF_WRITE : BitVec 32 := 0x000002#32

def CPF_USED : BitVec 32 := 0x000100#32

def CPF_DIRECT : BitVec 32 := 0x000200#32

def CPF_INDIRECT : BitVec 32 := 0x000400#32

def CPF_MAGIC : BitVec 32 := 0x000800#32

def CPF_VALID : BitVec 32 := 0x001000#32

/-- `cp_grant_t`: the flags, and the words of the union. -/
structure CpGrant where
  cpFlags : BitVec 32
  cpU : Fin 4 → BitVec 32

/-- `sizeof(cp_grant_t)`. -/
def grantSize : Addr := 36

namespace CpGrant

variable (g : CpGrant)

/-- A bit of `cp_flags`. -/
def has (flag : BitVec 32) : Bool := g.cpFlags &&& flag ≠ 0

/-- `cp_u.cp_direct`. -/
def directWhoTo : Endpoint := (g.cpU 0).toInt

def directStart : Addr := g.cpU 1

def directLen : Addr := g.cpU 2

/-- `cp_u.cp_indirect`. -/
def indirectWhoTo : Endpoint := (g.cpU 0).toInt

def indirectWhoFrom : Endpoint := (g.cpU 1).toInt

def indirectGrant : Int := (g.cpU 2).toInt

/-- `cp_u.cp_magic`. -/
def magicWhoFrom : Endpoint := (g.cpU 0).toInt

def magicWhoTo : Endpoint := (g.cpU 1).toInt

def magicStart : Addr := g.cpU 2

def magicLen : Addr := g.cpU 3

/-- The entry at an address. -/
def read (mem : Addr → BitVec 8) (a : Addr) : CpGrant :=
  ⟨word mem a, fun i => word mem (a + BitVec.ofNat 32 (4 + 4 * i))⟩

end CpGrant

namespace Machine

variable (m : Machine) {grant : Int} {g : CpGrant} {asker : Endpoint} {whoP : Slot} {bytes offset : Addr}

/-- The privilege structure of a process. -/
def resOf (p : Slot) : PrivRes := m.res (m.vm.kernel.proc p).pPriv

/-- `HASGRANTTABLE`. -/
def hasGrantTable (p : Slot) : Bool := !m.vm.kernel.rtsIsset p .noPriv && 0 < (m.resOf p).sGrantTable

/-- The address of an entry of the grant table. -/
def grantAddr (p : Slot) (grant : Int) : Addr :=
  BitVec.ofNat 32 (m.resOf p).sGrantTable + grantSize * BitVec.ofInt 32 grant

/-- A round of the loop of `verify_grant`, up to the check for an indirect grant: the entry of the grant table. -/
def lookupGrant (whoP : Slot) (granter : Endpoint) (grant : Int) : Except Int CpGrant × Machine :=
  match m.vm.kernel.isokendpt granter with
  | none => (.error EINVAL, m)
  | some p =>
    if ¬ grant > -1 then (.error EINVAL, m)
    else if !m.hasGrantTable p then (.error EPERM, m)
    else if (m.resOf p).sGrantEntries ≤ grant then (.error EPERM, m)
    else
      match m.copyIn whoP ⟨granter, .d, m.grantAddr p grant⟩ grantSize with
      | (.error _, m) => (.error EPERM, m)
      | (.ok (a, lin), m) =>
        let g := CpGrant.read (m.byte (space a)) lin
        if g.cpFlags &&& (CPF_USED ||| CPF_VALID) ≠ CPF_USED ||| CPF_VALID then (.error EPERM, m) else (.ok g, m)

/-- The loop of `verify_grant`, with the number of indirect grants that may still be followed: the last granter and
grantee, and the grant. -/
def verifyLoop (whoP : Slot) : Nat → Machine → (granter grantee : Endpoint) → (grant : Int) →
    Except Int (Endpoint × Endpoint × CpGrant) × Machine
  | depth, m, granter, grantee, grant =>
    match m.lookupGrant whoP granter grant with
    | (.error r, m) => (.error r, m)
    | (.ok g, m) =>
      if g.has CPF_INDIRECT then
        match depth with
        | 0 => (.error ELOOP, m)
        | depth + 1 =>
          if g.indirectWhoTo ≠ grantee ∧ grantee ≠ ANY then (.error EPERM, m)
          else verifyLoop whoP depth m g.indirectWhoFrom granter g.indirectGrant
      else (.ok (granter, grantee, g), m)

/-- The rest of `verify_grant`, for the grant at the end of the chain: `offset_result` and `e_granter`. -/
def checkGrant (granter grantee : Endpoint) (g : CpGrant) (bytes : Addr) (access : BitVec 32) (offsetIn : Addr) :
    Except Int (Addr × Endpoint) :=
  if g.cpFlags &&& access ≠ access then .error EPERM
  else if g.has CPF_DIRECT then
    if memTop - g.directLen < g.directStart - 1 then .error EPERM
    else if g.directWhoTo ≠ grantee ∧ grantee ≠ ANY then .error EPERM
    else if offsetIn + bytes < offsetIn ∨ offsetIn + bytes > g.directLen then .error EPERM
    else .ok (g.directStart + offsetIn, granter)
  else if g.has CPF_MAGIC then
    if granter ≠ procNr VFS then .error EPERM
    else if g.magicWhoTo ≠ grantee ∧ grantee ≠ ANY then .error EPERM
    else if offsetIn + bytes < offsetIn ∨ offsetIn + bytes > g.magicLen then .error EPERM
    else .ok (g.magicStart + offsetIn, g.magicWhoFrom)
  else .error EPERM

/-- `verify_grant(granter, grantee, grant, bytes, access, offset_in, offset_result, e_granter)` in a kernel call of
`whoP`. -/
def verifyGrant (whoP : Slot) (granter grantee : Endpoint) (grant : Int) (bytes : Addr) (access : BitVec 32)
    (offsetIn : Addr) : Except Int (Addr × Endpoint) × Machine :=
  match verifyLoop whoP maxIndirectDepth m granter grantee grant with
  | (.error r, m) => (.error r, m)
  | (.ok (granter, grantee, g), m) => (checkGrant granter grantee g bytes access offsetIn, m)

/-- `safecopy(granter, grantee, grantid, src_seg, dst_seg, bytes, g_offset, addr, access)`. -/
def safecopy (whoP : Slot) (granter grantee : Endpoint) (grantid : Int) (srcSeg dstSeg : Seg)
    (bytes gOffset addr : Addr)
    (access : BitVec 32) : Int × Machine :=
  match m.vm.kernel.isokendpt granter with
  | none => (EINVAL, m)
  | some p =>
    if !m.hasGrantTable p then (EPERM, m)
    else
      match m.verifyGrant whoP granter grantee grantid bytes access gOffset with
      | (.error r, m) => (r, m)
      | (.ok (vOffset, newGranter), m) =>
        if access &&& CPF_READ ≠ 0 then
          m.virtualCopy whoP true ⟨newGranter, srcSeg, vOffset⟩ ⟨grantee, dstSeg, addr⟩ bytes
        else m.virtualCopy whoP true ⟨grantee, srcSeg, addr⟩ ⟨newGranter, dstSeg, vOffset⟩ bytes

/-! ## Grants that back an access -/

/-- The process with endpoint `e`. -/
def Owner (e : Endpoint) (p : Slot) : Prop := procAddr (endpointP e) = some p ∧ (m.vm.kernel.proc p).pEndpoint = e

/-- An entry of the grant table of `p`. -/
def entry (p : Slot) (grant : Int) : CpGrant :=
  CpGrant.read (m.byte (space p)) (m.umapLocal p .d (m.grantAddr p grant) grantSize)

/-- The entry `grant` of the table of `granter` is within the table, used and valid. -/
structure Holds (granter : Endpoint) (grant : Int) (g : CpGrant) : Prop where
  owner : ∃ p, m.Owner granter p ∧ grant < (m.resOf p).sGrantEntries ∧ m.entry p grant = g
  nonneg : 0 ≤ grant
  used : g.has CPF_USED = true
  valid : g.has CPF_VALID = true

/-- A grant to `whoTo` is for `asker`. One who asks as `ANY` may use all grants. -/
def Addressed (whoTo asker : Endpoint) : Prop := whoTo = asker ∨ asker = ANY

/-- Following `n` indirect grants, from what `asker` asks of `granter`. -/
inductive Indirects : Nat → (asker granter : Endpoint) → (grant : Int) → (asker' granter' : Endpoint) →
    (grant' : Int) → Prop
  | none (asker granter : Endpoint) (grant : Int) : Indirects 0 asker granter grant asker granter grant
  | next {n : Nat} {asker granter : Endpoint} {grant : Int} {g : CpGrant} {asker' granter' : Endpoint} {grant' : Int}
      (hg : m.Holds granter grant g) (hi : g.has CPF_INDIRECT = true) (ha : Addressed g.indirectWhoTo asker)
      (hn : Indirects n granter g.indirectWhoFrom g.indirectGrant asker' granter' grant') :
      Indirects (n + 1) asker granter grant asker' granter' grant'

/-- The range `offset .. offset + bytes` of a grant of `len` bytes at `start` lies within the grant and within the
address space. The first byte is at `result`. -/
structure InRange (start len offset bytes result : Addr) : Prop where
  space : start.toNat + offset.toNat + bytes.toNat ≤ 2 ^ 32
  range : offset.toNat + bytes.toNat ≤ len.toNat
  result : result.toNat = (start.toNat + offset.toNat) % 2 ^ 32

/-- The grant `g` of `granter` lets `asker` access the range, which is at `result` in the memory of `eGranter`. -/
def Allows (granter asker : Endpoint) (g : CpGrant) (bytes : Addr) (access : BitVec 32) (offset result : Addr)
    (eGranter : Endpoint) : Prop :=
  g.cpFlags &&& access = access ∧
    ((g.has CPF_DIRECT = true ∧ Addressed g.directWhoTo asker ∧ eGranter = granter ∧
        InRange g.directStart g.directLen offset bytes result) ∨
      (g.has CPF_MAGIC = true ∧ granter = procNr VFS ∧ Addressed g.magicWhoTo asker ∧ eGranter = g.magicWhoFrom ∧
        InRange g.magicStart g.magicLen offset bytes result))

/-- `g` is the grant at the end of the chain. -/
def Reaches (granter grantee : Endpoint) (grant : Int) (asker' granter' : Endpoint) (g : CpGrant) : Prop :=
  ∃ n grant', n ≤ maxIndirectDepth ∧ m.Indirects n grantee granter grant asker' granter' grant' ∧
    m.Holds granter' grant' g ∧
    g.has CPF_INDIRECT = false

/-- An access is backed by grants. -/
def Backed (granter grantee : Endpoint) (grant : Int) (bytes : Addr) (access : BitVec 32) (offset result : Addr)
    (eGranter : Endpoint) : Prop :=
  ∃ asker' granter' g, m.Reaches granter grantee grant asker' granter' g ∧
    Allows granter' asker' g bytes access offset result eGranter

/-- If the grant at the end of the chain is a magic grant, then the range in it ends within the address space. -/
def MagicFits (granter grantee : Endpoint) (grant : Int) (bytes offset : Addr) : Prop :=
  ∀ asker' granter' g, m.Reaches granter grantee grant asker' granter' g → g.has CPF_DIRECT = false →
    g.magicStart.toNat + offset.toNat + bytes.toNat ≤ 2 ^ 32

variable {m} {m' : Machine}

/-! ## The chain -/

variable {granter : Endpoint}

theorem Holds.of_keeps (hk : m.Keeps m') (hb : m'.byte = m.byte)
    (h : m'.Holds granter grant g) : m.Holds granter grant g := by
  have hres : ∀ p, m'.resOf p = m.resOf p := fun p => by rw [resOf, resOf, hk.res, hk.priv]
  obtain ⟨⟨p, ho, hlt, he⟩, h0, hu, hv⟩ := h
  refine ⟨⟨p, ⟨ho.1, (hk.endpoint p).symm.trans ho.2⟩, by rwa [← hres], ?_⟩, h0, hu, hv⟩
  rw [← he, entry, entry, grantAddr, grantAddr, hres, hk.umapLocal, hb]

theorem Indirects.of_keeps (hk : m.Keeps m') (hb : m'.byte = m.byte) {n : Nat} {asker' granter' : Endpoint}
    {grant' : Int} (h : m'.Indirects n asker granter grant asker' granter' grant') :
    m.Indirects n asker granter grant asker' granter' grant' := by
  induction h with
  | none => exact .none ..
  | next hg hi ha _ ih => exact .next (hg.of_keeps hk hb) hi ha ih

/-- A process has at most one entry with a number. -/
theorem Holds.unique {g' : CpGrant} (h : m.Holds granter grant g) (h' : m.Holds granter grant g') : g = g' := by
  obtain ⟨p, ⟨hp, -⟩, -, rfl⟩ := h.owner
  obtain ⟨q, ⟨hq, -⟩, -, rfl⟩ := h'.owner
  rw [hp] at hq
  rw [Option.some_inj.mp hq]

/-- The chain is determined by what is asked. -/
theorem Indirects.unique {n n' : Nat} {asker₁ granter₁ asker₂ granter₂ : Endpoint} {grant₁ grant₂ : Int}
    {g₁ g₂ : CpGrant}
    (h : m.Indirects n asker granter grant asker₁ granter₁ grant₁) (hg : m.Holds granter₁ grant₁ g₁)
    (hi : g₁.has CPF_INDIRECT = false) (h' : m.Indirects n' asker granter grant asker₂ granter₂ grant₂)
    (hg' : m.Holds granter₂ grant₂ g₂) (hi' : g₂.has CPF_INDIRECT = false) : g₁ = g₂ := by
  induction h generalizing n' with
  | none =>
    cases h' with
    | none => exact hg.unique hg'
    | next hx hxi _ _ =>
      rw [← hg.unique hx, hi] at hxi
      cases hxi
  | next hx hxi _ _ ih =>
    cases h' with
    | none =>
      rw [← hg'.unique hx, hi'] at hxi
      cases hxi
    | next hy _ _ hrest =>
      obtain rfl := hx.unique hy
      exact ih hg hrest

theorem Reaches.unique {grantee asker₁ granter₁ asker₂ granter₂ : Endpoint} {g₁ g₂ : CpGrant}
    (h : m.Reaches granter grantee grant asker₁ granter₁ g₁) (h' : m.Reaches granter grantee grant asker₂ granter₂ g₂) :
    g₁ = g₂ := by
  obtain ⟨n, grant₁, -, hc, hg, hi⟩ := h
  obtain ⟨n', grant₂, -, hc', hg', hi'⟩ := h'
  exact hc.unique hg hi hc' hg' hi'

theorem has_of_both (h : g.cpFlags &&& (CPF_USED ||| CPF_VALID) = CPF_USED ||| CPF_VALID) :
    g.has CPF_USED = true ∧ g.has CPF_VALID = true := by
  have hone : ∀ f : BitVec 32, (CPF_USED ||| CPF_VALID) &&& f = f → f ≠ 0 → g.has f = true := by
    intro f hf h0
    have : g.cpFlags &&& f = f := by
      calc g.cpFlags &&& f = g.cpFlags &&& ((CPF_USED ||| CPF_VALID) &&& f) := by rw [hf]
        _ = (CPF_USED ||| CPF_VALID) &&& f := by rw [← BitVec.and_assoc, h]
        _ = f := hf
    simpa [CpGrant.has, this] using h0
  exact ⟨hone _ (by decide) (by decide), hone _ (by decide) (by decide)⟩

theorem owner_of_isokendpt {e : Endpoint} {p : Slot} (h : m.vm.kernel.isokendpt e = some p) : m.Owner e p := by
  obtain ⟨h1, -, h2⟩ := State.isokendpt_iff.mp h
  exact ⟨h1, h2⟩

theorem addressed_of_not {whoTo : Endpoint} (h : ¬ (whoTo ≠ asker ∧ asker ≠ ANY)) : Addressed whoTo asker := by
  unfold Addressed
  tauto

theorem lookupGrant_ok
    (h : m.lookupGrant whoP granter grant = (.ok g, m')) : m.Holds granter grant g ∧ m.Keeps m' ∧ m'.byte = m.byte := by
  unfold lookupGrant at h
  split at h
  · cases h
  next p hp =>
  split at h
  · cases h
  next h1 =>
  split at h
  · cases h
  split at h
  · cases h
  next h3 =>
  split at h
  · cases h
  next a lin m1 hin =>
  obtain ⟨hk, hb⟩ := copyIn_keeps whoP ⟨granter, .d, m.grantAddr p grant⟩ grantSize
  rw [hin] at hk hb
  obtain ⟨hok, hlin, -⟩ := umap_ok (copyIn_ok hin)
  cases hp.symm.trans hok
  dsimp only at h hlin hb
  have hentry : CpGrant.read (m1.byte (space p)) lin = m.entry p grant := by rw [entry, hlin, hb]
  rw [hentry] at h
  split at h
  · cases h
  next h4 =>
  cases h
  have hboth := has_of_both (not_not.mp h4)
  exact ⟨⟨⟨p, owner_of_isokendpt hp, by omega, rfl⟩, by omega, hboth.1, hboth.2⟩, hk, hb⟩

theorem verifyLoop_round {depth : Nat} {grantee : Endpoint}
    {x : Endpoint × Endpoint × CpGrant} (h : verifyLoop whoP depth m granter grantee grant = (.ok x, m')) :
    ∃ g m1, m.Holds granter grant g ∧ m.Keeps m1 ∧ m1.byte = m.byte ∧
      ((g.has CPF_INDIRECT = false ∧ x = (granter, grantee, g)) ∨
        (g.has CPF_INDIRECT = true ∧ Addressed g.indirectWhoTo grantee ∧ ∃ depth', depth = depth' + 1 ∧
          verifyLoop whoP depth' m1 g.indirectWhoFrom granter g.indirectGrant = (.ok x, m'))) := by
  unfold verifyLoop at h
  split at h
  · cases h
  next g m1 hg =>
  obtain ⟨hholds, hk, hb⟩ := lookupGrant_ok hg
  refine ⟨g, m1, hholds, hk, hb, ?_⟩
  split at h
  · next hi =>
    split at h
    · cases h
    · next depth' =>
      split at h
      · cases h
      · next hto => exact .inr ⟨hi, addressed_of_not hto, depth', rfl, h⟩
  · next hi =>
    cases h
    exact .inl ⟨by simpa using hi, rfl⟩

theorem verifyLoop_ok {depth : Nat} {grantee granter' asker' : Endpoint}
    (h : verifyLoop whoP depth m granter grantee grant = (.ok (granter', asker', g), m')) :
    ∃ n grant', n ≤ depth ∧ m.Indirects n grantee granter grant asker' granter' grant' ∧ m.Holds granter' grant' g ∧
      g.has CPF_INDIRECT = false := by
  induction depth generalizing m granter grantee grant with
  | zero =>
    obtain ⟨g1, m1, hg, -, -, ⟨hi, hx⟩ | ⟨-, -, depth', hf, -⟩⟩ := verifyLoop_round h
    · cases hx
      exact ⟨0, grant, le_refl 0, .none .., hg, hi⟩
    · cases hf
  | succ depth ih =>
    obtain ⟨g1, m1, hg, hk, hb, ⟨hi, hx⟩ | ⟨hi, ha, depth', hf, hrec⟩⟩ := verifyLoop_round h
    · cases hx
      exact ⟨0, grant, Nat.zero_le _, .none .., hg, hi⟩
    · cases hf
      obtain ⟨n, grant', hn, hchain, hlast, hd⟩ := ih hrec
      exact ⟨n + 1, grant', Nat.succ_le_succ hn, .next hg hi ha (hchain.of_keeps hk hb), hlast.of_keeps hk hb, hd⟩

/-- A direct grant that ends beyond the address space is refused. -/
theorem inRange_direct {start len : Addr} (h1 : ¬ memTop - len < start - 1)
    (h2 : ¬ (offset + bytes < offset ∨ offset + bytes > len)) : InRange start len offset bytes (start + offset) := by
  unfold memTop at h1
  refine ⟨?_, ?_, BitVec.toNat_add start offset⟩
  · bv_omega
  · bv_omega

theorem inRange_magic {start len : Addr} (h1 : start.toNat + offset.toNat + bytes.toNat ≤ 2 ^ 32)
    (h2 : ¬ (offset + bytes < offset ∨ offset + bytes > len)) : InRange start len offset bytes (start + offset) := by
  refine ⟨h1, ?_, BitVec.toNat_add ..⟩
  bv_omega

theorem checkGrant_ok {access : BitVec 32} {result : Addr}
    {eGranter : Endpoint} (h : checkGrant granter asker g bytes access offset = .ok (result, eGranter))
    (hfit : g.has CPF_DIRECT = false → g.magicStart.toNat + offset.toNat + bytes.toNat ≤ 2 ^ 32) :
    Allows granter asker g bytes access offset result eGranter := by
  unfold checkGrant at h
  split_ifs at h with hacc hd hwrap hto hrange hm hfs hto hrange
  · cases h
    exact ⟨not_not.mp hacc, .inl ⟨hd, addressed_of_not hto, rfl, inRange_direct hwrap hrange⟩⟩
  · cases h
    have hvfs := not_not.mp hfs
    exact ⟨not_not.mp hacc, .inr ⟨hm, hvfs, addressed_of_not hto, rfl,
      inRange_magic (hfit (by simpa using hd)) hrange⟩⟩

/-- **Grants are sound**: if `verify_grant` succeeds, then the access is backed by grants, if and only if the range fits
into the address space where the grant is a magic one. -/
theorem verifyGrant_backed (whoP : Slot) {granter grantee : Endpoint} {grant : Int} {bytes : Addr} {access : BitVec 32}
    {offsetIn result : Addr} {eGranter : Endpoint}
    (h : m.verifyGrant whoP granter grantee grant bytes access offsetIn = (.ok (result, eGranter), m')) :
    m.Backed granter grantee grant bytes access offsetIn result eGranter ↔
      m.MagicFits granter grantee grant bytes offsetIn := by
  constructor
  · rintro ⟨asker₁, granter₁, g₁, hr, -, hallow⟩ asker' granter' g hg hd
    obtain rfl := hr.unique hg
    rcases hallow with ⟨hdirect, -⟩ | ⟨-, -, -, -, hin⟩
    · rw [hd] at hdirect
      cases hdirect
    · exact hin.space
  · intro hfit
    unfold verifyGrant at h
    split at h
    · cases h
    next granter' asker' g m₁ hloop =>
    obtain ⟨n, grant', hn, hchain, hlast, hi⟩ := verifyLoop_ok hloop
    have hreach : m.Reaches granter grantee grant asker' granter' g := ⟨n, grant', hn, hchain, hlast, hi⟩
    have hcheck : checkGrant granter' asker' g bytes access offsetIn = .ok (result, eGranter) := congrArg Prod.fst h
    exact ⟨asker', granter', g, hreach, checkGrant_ok hcheck (hfit asker' granter' g hreach)⟩

/-! ## What is kept -/

theorem Holds.eq_entry {p : Slot} (h : m.Holds (procNr p) grant g) :
    g = m.entry p grant ∧ 0 ≤ grant ∧ grant < (m.resOf p).sGrantEntries := by
  obtain ⟨q, ⟨hq, -⟩, hlt, he⟩ := h.owner
  have hp : endpointP (procNr p) = procNr p := by
    have := endpointP_endpoint (le_refl 0) p
    rwa [endpoint, zero_mul, zero_add] at this
  rw [hp, procAddr_procNr] at hq
  cases hq
  exact ⟨he.symm, h.nonneg, hlt⟩

end Machine

/-! ## Two machines -/

/-- Memory that has the words `l` at `base`, and is zero elsewhere. -/
def wordsAt (base : Addr) (l : List (BitVec 32)) : Addr → BitVec 8 := fun a =>
  let i := (a - base).toNat
  BitVec.setWidth 8 ((l.getD (i / 4) 0) >>> (8 * (i % 4)))

/-- The word for an endpoint. -/
def endpointWord (p : Slot) : BitVec 32 := BitVec.ofInt 32 (procNr p)

/-- Six processes with the given memory. All of it is mapped, and all have a grant table of one entry at `0x1000`. -/
def grantMachine (byte : Slot → Addr → BitVec 8) : Machine where
  vm :=
    { kernel := sixState
      vmrestart := none
      nextrestart := fun _ => none
      vmresult := fun _ => OK
      reqmsg := fun _ => {}
      phase := fun _ => .idle }
  res _ := { sGrantTable := 0x1000, sGrantEntries := 1 }
  memmap _ _ := ⟨0, 0, 0x100000⟩
  byte := byte
  readable _ _ := true
  writable _ _ := true
  vec := 0x1000

theorem grantMachine_holds {byte : Slot → Addr → BitVec 8} {p : Slot} {grant : Int} {g : CpGrant}
    (h : (grantMachine byte).Holds (procNr p) grant g) : grant = 0 ∧ g = (grantMachine byte).entry p 0 := by
  obtain ⟨he, h0, h1⟩ := h.eq_entry
  have h1 : grant < 1 := h1
  obtain rfl : grant = 0 := by omega
  exact ⟨rfl, he⟩

/-- VFS grants RS to read 256 bytes of INIT, and RS passes the grant on to PM. -/
def passedOn : Machine := grantMachine fun p =>
  if p = VFS then
    wordsAt 0x1000 [CPF_USED ||| CPF_VALID ||| CPF_MAGIC ||| CPF_READ, endpointWord INIT, endpointWord RS,
      0x2000, 0x100]
  else if p = RS then
    wordsAt 0x1000 [CPF_USED ||| CPF_VALID ||| CPF_INDIRECT, endpointWord PM, endpointWord VFS, 0]
  else fun _ => 0

/-- PM may read a part of the memory of INIT. -/
theorem verifyGrant_backed_passedOn : ∃ m',
    passedOn.verifyGrant PM (procNr RS) (procNr PM) 0 0x10 CPF_READ 0x80 = (.ok (0x2080, procNr INIT), m') ∧
      passedOn.Backed (procNr RS) (procNr PM) 0 0x10 CPF_READ 0x80 0x2080 (procNr INIT) := by
  have h : (passedOn.verifyGrant PM (procNr RS) (procNr PM) 0 0x10 CPF_READ 0x80).1.toOption =
      some (0x2080, procNr INIT) := by decide +kernel
  have hfit : passedOn.MagicFits (procNr RS) (procNr PM) 0 0x10 0x80 := by
    have hrs : (passedOn.entry RS 0).has CPF_INDIRECT = true ∧ (passedOn.entry RS 0).indirectWhoFrom = procNr VFS := by
      decide +kernel
    have hvfs : (passedOn.entry VFS 0).has CPF_INDIRECT = false ∧ (passedOn.entry VFS 0).magicStart = 0x2000 := by
      decide +kernel
    rintro asker' granter' g ⟨n, grant', -, hchain, hg, hi⟩ -
    cases hchain with
    | none =>
        exact absurd (hi.symm.trans ((congrArg (CpGrant.has · _) (grantMachine_holds hg).2).trans hrs.1)) (by decide)
    | next hx _ _ hrest =>
      rw [(congrArg CpGrant.indirectWhoFrom (grantMachine_holds hx).2).trans hrs.2] at hrest
      cases hrest with
      | none =>
        rw [(congrArg CpGrant.magicStart (grantMachine_holds hg).2).trans hvfs.2]
        decide
      | next hy hyi _ _ =>
        exact absurd (hyi.symm.trans ((congrArg (CpGrant.has · _) (grantMachine_holds hy).2).trans hvfs.1)) (by decide)
  cases hv : passedOn.verifyGrant PM (procNr RS) (procNr PM) 0 0x10 CPF_READ 0x80 with
  | mk r m' =>
    rw [hv] at h
    cases r with
    | error e => cases h
    | ok x =>
      cases h
      exact ⟨m', rfl, (Machine.verifyGrant_backed PM hv).mpr hfit⟩

/-- VFS grants RS to read 512 bytes of INIT from `0xFFFFFF00` on. -/
def overTheTop : Machine := grantMachine fun p =>
  if p = VFS then
    wordsAt 0x1000 [CPF_USED ||| CPF_VALID ||| CPF_MAGIC ||| CPF_READ, endpointWord INIT, endpointWord RS,
      0xFFFFFF00, 0x200]
  else fun _ => 0

/-- RS may read at address `0x80`, which is not in the range of the grant. -/
theorem verifyGrant_wraps :
    (overTheTop.verifyGrant RS (procNr VFS) (procNr RS) 0 0x10 CPF_READ 0x180).1.toOption = some (0x80, procNr INIT) ∧
      (overTheTop.entry VFS 0).magicStart = 0xFFFFFF00 ∧ (overTheTop.entry VFS 0).magicLen = 0x200 ∧
      ¬ overTheTop.Backed (procNr VFS) (procNr RS) 0 0x10 CPF_READ 0x180 0x80 (procNr INIT) := by
  refine ⟨by decide +kernel, by decide +kernel, by decide +kernel, ?_⟩
  rintro ⟨asker, granter, g, ⟨n, grant, -, hchain, hg, -⟩, -, hend⟩
  cases hchain with
  | none =>
    obtain rfl := (grantMachine_holds hg).2
    rcases hend with ⟨hd, -⟩ | ⟨-, -, -, -, hr⟩
    · revert hd
      decide +kernel
    · have := hr.space
      revert this
      decide +kernel
  | next hg hi _ _ =>
    rw [(grantMachine_holds hg).2] at hi
    revert hi
    decide +kernel

end Minix.Kernel
