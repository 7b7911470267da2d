import Minix.Lib.Run
import Minix.Lib.Spans

/-!
# The allocator of physical memory

`alloc_mem`, `free_mem`, `alloc_pages` and `free_pages` of `vm/alloc.c`. Memory is counted in clicks, which are pages.
In paged mode the free pages are a tree of ranges, which is a list of spans in the order of their addresses here; else
they are the list of holes. `none` stands for a panic.
-/

namespace Minix.Vm

open Lib

/-- What `alloc_mem` returns if there is no memory. -/
def NO_MEM : Nat := 0

/-- 16 MB and 1 MB, in pages. -/
def boundary16 : Nat := 4096

def boundary1 : Nat := 256

/-- 64 KB, in clicks. -/
def alignClicks : Nat := 16

/-- `_NR_HOLES`. -/
def nrHoles : Nat := 200

/-- The flags that decide where memory is allocated. -/
structure Paf where
  align64k : Bool := false
  lower16mb : Bool := false
  lower1mb : Bool := false
  deriving DecidableEq

/-! ## The tree of ranges -/

/-- `addr_search(&addravl, key, AVL_EQUAL)`. -/
def addrSearch (ranges : List Span) (key : Nat) : Option Span := ranges.find? fun pr => pr.base = key

def addrRemove (ranges : List Span) (key : Nat) : List Span := ranges.filter fun pr => pr.base ≠ key

def addrInsert (ranges : List Span) (pr : Span) : List Span :=
  ranges.takeWhile (fun p => p.base < pr.base) ++ pr :: ranges.dropWhile (fun p => p.base < pr.base)

/-- The node before the one with a key. -/
def addrDecr (ranges : List Span) (key : Nat) : Option Span := (ranges.takeWhile fun p => p.base < key).getLast?

/-- The node with a key is changed in place. -/
def addrUse (ranges : List Span) (key : Nat) (f : Span → Span) : List Span :=
  ranges.map fun pr => if pr.base = key then f pr else pr

/-- A block that ends at an address is below the limits. -/
def Paf.Below (f : Paf) (top : Nat) : Prop := (f.lower16mb = true → top ≤ boundary16) ∧
    (f.lower1mb = true → top ≤ boundary1)

instance (f : Paf) (top : Nat) : Decidable (f.Below top) := inferInstanceAs (Decidable (_ ∧ _))

/-- The tree is walked from its least node if the memory has to be low, and else from its greatest. -/
def Paf.walk (f : Paf) (ranges : List Span) : List Span := if f.lower16mb || f.lower1mb then ranges else ranges.reverse

/-- `alloc_pages(pages, memflags)`: the tree, and the first page. -/
def allocPages (ranges : List Span) (pages : Nat) (f : Paf) : List Span × Nat :=
  match (f.walk ranges).find? fun pr => pages ≤ pr.len with
  | none => (ranges, NO_MEM)
  | some pr =>
    if ¬ f.Below (pr.base + pages) then (ranges, NO_MEM)
    else
      -- the allocated chunk is off the end
      let mem := pr.base + pr.len - pages
      if pr.len = pages then (addrRemove ranges pr.base, mem)
      else (addrUse ranges pr.base fun pr => { pr with len := pr.len - pages }, mem)

/-- Where a new node comes from: there is one in the slabs, or a page is allocated for them, or there is none. -/
inductive Slab
  | spare
  | page
  | fails
  deriving DecidableEq

/-- `SLABALLOC(pr)`: the tree, and the page that was allocated. -/
def slabAlloc (ranges : List Span) : Slab → Option (List Span × Option Nat)
  | .spare => some (ranges, none)
  | .page =>
    let (ranges, mem) := allocPages ranges 1 {}
    if mem = NO_MEM then none else some (ranges, some mem)
  | .fails => none

/-- A node is merged with its lower neighbour. -/
def mergeLower (ranges : List Span) (pr : Span) : List Span :=
  match addrDecr ranges pr.base with
  | none => ranges
  | some p =>
    if p.stop = pr.base then
      addrRemove (addrUse ranges p.base fun p => { p with len := p.len + pr.len }) pr.base
    else ranges

/-- `free_pages(pageno, npages)`. -/
def freePages (ranges : List Span) (pageno npages : Nat) (slab : Slab) : Option (List Span × Option Nat) :=
  match addrSearch ranges (pageno + npages) with
  | some pr =>
    let pr' : Span := ⟨pr.base - npages, pr.len + npages⟩
    some (mergeLower (addrUse ranges pr.base fun _ => pr') pr', none)
  | none => do
    let (ranges, page) ← slabAlloc ranges slab
    let pr : Span := ⟨pageno, npages⟩
    some (mergeLower (addrInsert ranges pr) pr, page)

/-! ## The list of holes -/

/-- The first hole that is big enough loses a piece, or is deleted. -/
def biteOff (clicks : Nat) : List Span → Option (List Span × Nat)
  | [] => none
  | hp :: holes =>
    if clicks ≤ hp.len then
      some (if hp.len - clicks = 0 then holes else ⟨hp.base + clicks, hp.len - clicks⟩ :: holes, hp.base)
    else (biteOff clicks holes).map fun (holes, mem) => (hp :: holes, mem)

/-- A hole absorbs its successor. -/
def absorb : List Span → List Span
  | hp :: next :: holes => if hp.stop = next.base then ⟨hp.base, hp.len + next.len⟩ :: holes else hp :: next :: holes
  | holes => holes

/-- `merge(hp)`, for the list that starts with `hp`. -/
def merge : List Span → List Span
  | hp :: next :: holes =>
    if hp.stop = next.base then absorb (⟨hp.base, hp.len + next.len⟩ :: holes) else hp :: absorb (next :: holes)
  | holes => holes

/-- A hole is inserted after all those with lower addresses, the last of which is `prev`. -/
def insertAfter (new prev : Span) : List Span → List Span
  | [] => merge [prev, new]
  | hp :: holes => if hp.base < new.base then prev :: insertAfter new hp holes else merge (prev :: new :: hp :: holes)

/-- `free_mem` for holes. Every slot of the table is in the list of holes or in that of free slots. -/
def freeHole (holes : List Span) (base clicks : Nat) : Option (List Span) :=
  let new : Span := ⟨base, clicks⟩
  if nrHoles ≤ holes.length then none
  else
    match holes with
    | [] => some (merge [new])
    | hp :: holes => some (if base ≤ hp.base then merge (new :: hp :: holes) else insertAfter new hp holes)

/-- The free memory. -/
structure Mem where
  /-- `vm_paged`. -/
  paged : Bool
  ranges : List Span
  holes : List Span
  /-- The pages that the slabs have, of those that were allocated for nodes of the tree. -/
  slabs : List Nat := []
  deriving DecidableEq

namespace Mem

/-- The spans of free clicks. -/
def spans (m : Mem) : List Span := if m.paged then m.ranges else m.holes

/-- `free_mem(base, clicks)`. -/
def freeMem (m : Mem) (base clicks : Nat) (slab : Slab) : Option Mem :=
  if clicks = 0 then some m
  else if m.paged = true then (freePages m.ranges base clicks slab).map fun (ranges, page) =>
    { m with ranges, slabs := page.toList ++ m.slabs }
  else (freeHole m.holes base clicks).map fun holes => { m with holes }

/-- The memory is taken from the tree or from the holes. -/
def take (m : Mem) (clicks : Nat) (f : Paf) : Mem × Nat :=
  if m.paged = true then
    let (ranges, mem) := allocPages m.ranges clicks f
    ({ m with ranges }, mem)
  else
    match biteOff clicks m.holes with
    | none => (m, NO_MEM)
    | some (holes, mem) => ({ m with holes }, mem)

/-- `alloc_mem(clicks, memflags)`. A block that is aligned is cut out of a bigger one, and the part before it is freed.
-/
def allocMem (m : Mem) (clicks : Nat) (f : Paf) (slab : Slab) : Option (Mem × Nat) :=
  let (m', mem) := m.take (if f.align64k then (clicks + alignClicks) % 2 ^ 32 else clicks) f
  if mem = NO_MEM then some (m', mem)
  else if f.align64k = true ∧ 0 < mem % alignClicks then do
    let e := alignClicks - mem % alignClicks
    let m'' ← m'.freeMem mem e slab
    some (m'', mem + e)
  else some (m', mem)

end Mem

end Minix.Vm
