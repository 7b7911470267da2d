import Minix.Lib.DList

/-!
# The buffer cache of the MINIX file server

The functions of `cache.c` on the buffer table: `getBlock`, `putBlock`, `rwBlock`, `invalidate`, `flushall`,
`rwScattered`, `rmLru` and the initial table of `bufPool`. A block device is a function from block numbers to contents,
and its transfers succeed.

* Every buffer is a number below `n` (`NR_BUFS`), every field of `struct buf` a function of it, and a pointer to a
  buffer an `Option`. `none` as the result of a function is a panic, or a loop over a cyclic list that never ends.
* The content of a block is of an arbitrary type `α`: no function of the cache looks into it.
-/

namespace Minix.Mfs

open Minix.Lib Function

/-- `NO_DEV`. -/
def noDev : Nat := 0

/-- `NO_BLOCK`. -/
def noBlock : Nat := 0

/-- `DEV_RAM`. -/
def devRam : Nat := 0x0100

/-- `NR_IOREQS`. -/
def nrIoreqs : Nat := 64

/-- `WRITE_IMMED`. -/
def writeImmed : Nat := 0o100

/-- `ONE_SHOT`. -/
def oneShot : Nat := 0o200

/-- `PARTIAL_DATA_BLOCK`. -/
def partialDataBlock : Nat := 6

/-- The third parameter of `get_block`. -/
inductive OnlySearch
  | normal
  | noRead
  | prefetch
  deriving DecidableEq

/-- `READING` or `WRITING`. -/
inductive RwFlag
  | reading
  | writing
  deriving DecidableEq

/-- The buffer table, and the block devices. -/
structure Cache (n : Nat) (α : Type) where
  bNext : Fin n → Option (Fin n)
  bPrev : Fin n → Option (Fin n)
  bHash : Fin n → Option (Fin n)
  bBlocknr : Fin n → Nat
  bDev : Fin n → Nat
  bDirt : Fin n → Bool
  /-- A `char` in the source. -/
  bCount : Fin n → Nat
  bBytes : Fin n → Nat
  bData : Fin n → α
  bufHash : Nat → Option (Fin n)
  front : Option (Fin n)
  rear : Option (Fin n)
  bufsInUse : Int
  fsBlockSize : Nat
  disk : Nat → Nat → α

namespace Cache

variable {n : Nat} {α : Type} (c : Cache n α)

/-- `BUFHASH`. -/
def hash (n b : Nat) : Nat := b % n

/-- Remove a block from its LRU chain. -/
def rmLru (i : Fin n) : Cache n α :=
  { c with
    bufsInUse := c.bufsInUse + 1
    bNext := (Loc.ofNode (c.bPrev i)).setNext c.bNext (c.bNext i)
    front := (Loc.ofNode (c.bPrev i)).setHead c.front (c.bNext i)
    bPrev := (Loc.ofNode (c.bNext i)).setNext c.bPrev (c.bPrev i)
    rear := (Loc.ofNode (c.bNext i)).setHead c.rear (c.bPrev i) }

/-- Store a block on a device. -/
def setDisk (dev b : Nat) (x : α) : Cache n α :=
  { c with disk := update c.disk dev (update (c.disk dev) b x) }

/-- Read or write a disk block. -/
def rwBlock (i : Fin n) (rwFlag : RwFlag) : Cache n α :=
  let c :=
    if c.bDev i = noDev then c
    else
      match rwFlag with
      | .reading => { c with bData := update c.bData i (c.disk (c.bDev i) (c.bBlocknr i)) }
      | .writing => c.setDisk (c.bDev i) (c.bBlocknr i) (c.bData i)
  { c with bDirt := update c.bDirt i false }

/-- The block goes on the front of the LRU chain. -/
def pushFront (i : Fin n) : Cache n α :=
  { c with
    bPrev := (Loc.ofNode c.front).setNext (update c.bPrev i none) (some i)
    bNext := update c.bNext i c.front
    rear := (Loc.ofNode c.front).setHead c.rear (some i)
    front := some i }

/-- The block goes on the rear of the LRU chain. -/
def pushRear (i : Fin n) : Cache n α :=
  { c with
    bPrev := update c.bPrev i c.rear
    bNext := (Loc.ofNode c.rear).setNext (update c.bNext i none) (some i)
    front := (Loc.ofNode c.rear).setHead c.front (some i)
    rear := some i }

/-- There is one use fewer now. -/
def dropUse (i : Fin n) : Cache n α :=
  { c with bCount := update c.bCount i ((c.bCount i + 255) % 256) }

/-- Put a block back on the LRU chain: on the front if it is not likely to be needed again shortly. -/
def relink (i : Fin n) (blockType : Nat) : Cache n α :=
  let c := { c with bufsInUse := c.bufsInUse - 1 }
  if c.bDev i = devRam ∨ blockType &&& oneShot ≠ 0 then c.pushFront i else c.pushRear i

/-- Return a block to the list of available blocks. -/
def putBlock (i : Fin n) (blockType : Nat) : Cache n α :=
  let c := c.dropUse i
  if c.bCount i ≠ 0 then c
  else
    let c := c.relink i blockType
    if blockType &&& writeImmed ≠ 0 ∧ c.bDirt i = true ∧ c.bDev i ≠ noDev then c.rwBlock i .writing else c

/-! ## Scattered transfers -/

section Sorting

variable {β : Type} (key : β → Nat)

/-- Exchange two elements of an array. -/
def swap (q : List β) (i j : Nat) : List β :=
  match q[i]?, q[j]? with
  | some x, some y => (q.set i y).set j x
  | _, _ => q

/-- The innermost loop of the sort, with `i` as in the source plus `gap`. It makes at most as many rounds as the fuel.
-/
def siftDown (gap : Nat) : Nat → Nat → List β → List β
  | 0, _, q => q
  | fuel + 1, i, q =>
    if i < gap then q
    else
      match q[i - gap]?, q[i]? with
      | some x, some y => if key x > key y then siftDown gap fuel (i - gap) (swap q (i - gap) i) else q
      | _, _ => q

/-- One pass of the sort. -/
def sortPass (gap : Nat) (q : List β) : List β :=
  (List.range' gap (q.length - gap)).foldl (fun q j => siftDown key gap (j + 1) j q) q

/-- The first gap: `do gap = 3 * gap + 1 while (gap <= bufqsize)`. -/
def firstGap (size : Nat) : Nat → Nat → Nat
  | 0, gap => gap
  | fuel + 1, gap => if 3 * gap + 1 ≤ size then firstGap size fuel (3 * gap + 1) else 3 * gap + 1

/-- `while (gap != 1)`, with a pass for each gap. -/
def sortLoop : Nat → Nat → List β → List β
  | 0, _, q => q
  | fuel + 1, gap, q => if gap = 1 then q else sortLoop fuel (gap / 3) (sortPass key (gap / 3) q)

/-- The Shell sort of `rw_scattered`. -/
def shellSort (q : List β) : List β :=
  let gap := firstGap q.length (q.length + 1) 1
  sortLoop key gap gap q

end Sorting

/-- How many buffers of the queue go into one transfer: blocks with consecutive numbers from `b` on. -/
def runLength (b : Nat) : Nat → List (Fin n) → Nat
  | _, [] => 0
  | j, i :: q => if j < nrIoreqs ∧ c.bBlocknr i = b + j then runLength b (j + 1) q + 1 else 0

/-- A vectored write of the buffers to consecutive blocks from `b` on. -/
def scatter (dev : Nat) : Nat → List (Fin n) → Cache n α → Cache n α
  | _, [], c => c
  | b, i :: q, c => scatter dev (b + 1) q (c.setDisk dev b (c.bData i))

/-- A vectored read of consecutive blocks from `b` on into the buffers. -/
def gather (dev : Nat) : Nat → List (Fin n) → Cache n α → Cache n α
  | _, [], c => c
  | b, i :: q, c => gather dev (b + 1) q { c with bData := update c.bData i (c.disk dev b) }

/-- Harvest the results of a write. -/
def markClean (q : List (Fin n)) : Cache n α :=
  q.foldl (fun c i => { c with bDirt := update c.bDirt i false }) c

/-- Harvest the results of a read. -/
def validate (dev : Nat) (q : List (Fin n)) : Cache n α :=
  q.foldl (fun c i => { c with bDev := update c.bDev i dev }.putBlock i partialDataBlock) c

/-- Release the buffers that are not read. -/
def release (q : List (Fin n)) : Cache n α := q.foldl (fun c i => c.putBlock i partialDataBlock) c

/-- Write a sorted queue, one run of consecutive blocks after the other. Every round takes at least one buffer from the
queue, so that the fuel of `rwScattered` is enough. -/
def writeRuns (dev : Nat) : Nat → List (Fin n) → Cache n α → Cache n α
  | 0, _, c => c
  | _ + 1, [], c => c
  | fuel + 1, i :: q, c =>
    let j := c.runLength (c.bBlocknr i) 0 (i :: q)
    writeRuns dev fuel ((i :: q).drop j)
      ((scatter dev (c.bBlocknr i) ((i :: q).take j) c).markClean ((i :: q).take j))

/-- Read the first run of a sorted queue and release the rest. -/
def readRun (dev : Nat) : List (Fin n) → Cache n α
  | [] => c
  | i :: q =>
    let j := c.runLength (c.bBlocknr i) 0 (i :: q)
    ((gather dev (c.bBlocknr i) ((i :: q).take j) c).validate dev ((i :: q).take j)).release ((i :: q).drop j)

/-- Read or write scattered data from a device. -/
def rwScattered (dev : Nat) (bufq : List (Fin n)) (rwFlag : RwFlag) : Cache n α :=
  let bufq := shellSort c.bBlocknr bufq
  match rwFlag with
  | .reading => c.readRun dev bufq
  | .writing => writeRuns dev bufq.length bufq c

/-- Flush all dirty blocks for one device. -/
def flushall (dev : Nat) : Cache n α :=
  c.rwScattered dev ((List.finRange n).filter fun i => c.bDirt i && c.bDev i == dev) .writing

/-- Remove all the blocks belonging to some device from the cache. -/
def invalidate (device : Nat) : Cache n α :=
  { c with bDev := fun i => if c.bDev i = device then noDev else c.bDev i }

/-! ## Getting a block -/

/-- The search of the hash chain. The loop visits at most `n` buffers unless the chain is cyclic. -/
def searchHash (dev block : Nat) : Option (Option (Fin n)) :=
  let head := c.bufHash (hash n block)
  (scan head c.bHash (fun i => c.bBlocknr i == block && c.bDev i == dev) (n + 1) .head).map (·.get head c.bHash)

/-- The oldest block, given memory for its data if it has none. `contig` is the result of `alloc_contig`: the memory
with the content it happens to have. Without memory the oldest block that has some is taken. -/
def takeOldest (contig : Option α) : Option (Fin n × Cache n α) := do
  let i ← c.front
  if c.bBytes i < c.fsBlockSize then
    match contig with
    | some x =>
      some (i, { c with bBytes := update c.bBytes i c.fsBlockSize, bData := update c.bData i x })
    | none => do
      let x ← scan c.front c.bNext (fun j => ¬ c.bBytes j < c.fsBlockSize) (n + 1) .head
      let j ← x.get c.front c.bNext
      some (j, c)
  else some (i, c)

/-- Remove a block from its hash chain. The loop of the source dereferences the head of the chain. -/
def unhash (i : Fin n) : Option (Cache n α) := do
  let h := hash n (c.bBlocknr i)
  let x ← scan (c.bufHash h) c.bHash (· == i) (n + 1) .head
  match x.get (c.bufHash h) c.bHash, c.bufHash h with
  | some _, _ =>
    some { c with
      bufHash := update c.bufHash h (x.setHead (c.bufHash h) (c.bHash i))
      bHash := x.setNext c.bHash (c.bHash i) }
  | none, some _ => some c
  | none, none => none

/-- Fill in a block's parameters and add it to the hash chain where it goes. -/
def claim (i : Fin n) (dev block : Nat) : Cache n α :=
  { c with
    bDev := update c.bDev i dev
    bBlocknr := update c.bBlocknr i block
    bCount := update c.bCount i ((c.bCount i + 1) % 256)
    bHash := update c.bHash i (c.bufHash (hash n block))
    bufHash := update c.bufHash (hash n block) (some i) }

/-- If the block taken is dirty, make it clean by writing it to the disk, with all other dirty blocks of its device. -/
def evict (i : Fin n) : Cache n α := if c.bDev i ≠ noDev ∧ c.bDirt i = true then c.flushall (c.bDev i) else c

/-- Go get the requested block unless searching or prefetching. -/
def fill (i : Fin n) (dev : Nat) (onlySearch : OnlySearch) : Cache n α :=
  if dev = noDev then c
  else
    match onlySearch with
    | .prefetch => { c with bDev := update c.bDev i noDev }
    | .normal => c.rwBlock i .reading
    | .noRead => c

/-- The block is in the cache. -/
def hit (i : Fin n) : Cache n α :=
  let c := if c.bCount i = 0 then c.rmLru i else c
  { c with bCount := update c.bCount i ((c.bCount i + 1) % 256) }

/-- The block is not in the cache: take the oldest one. -/
def miss (dev block : Nat) (onlySearch : OnlySearch) (contig : Option α) : Option (Fin n × Cache n α) := do
  let (i, c) ← c.takeOldest contig
  let c ← (c.rmLru i).unhash i
  some (i, ((c.evict i).claim i dev block).fill i dev onlySearch)

/-- Check to see if the requested block is in the block cache; if not, evict some other block and fetch it. -/
def getBlock (dev block : Nat) (onlySearch : OnlySearch) (contig : Option α) : Option (Fin n × Cache n α) :=
  if dev = noDev then c.miss dev block onlySearch contig
  else do
    match ← c.searchHash dev block with
    | some i => some (i, c.hit i)
    | none => c.miss dev block onlySearch contig

/-- The buffer pool after `buf_pool` on a table whose memory is all zero. -/
def bufPool (disk : Nat → Nat → α) (data : Fin n → α) (fsBlockSize : Nat) : Cache n α where
  bNext i := if h : i.val + 1 < n then some ⟨i.val + 1, h⟩ else none
  bPrev i := if 0 < i.val then some ⟨i.val - 1, by omega⟩ else none
  bHash i := if h : i.val + 1 < n then some ⟨i.val + 1, h⟩ else none
  bBlocknr _ := noBlock
  bDev _ := noDev
  bDirt _ := false
  bCount _ := 0
  bBytes _ := 0
  bData := data
  bufHash h := if h = 0 then if h : 0 < n then some ⟨0, h⟩ else none else none
  front := if h : 0 < n then some ⟨0, h⟩ else none
  rear := if h : 0 < n then some ⟨n - 1, by omega⟩ else none
  bufsInUse := 0
  fsBlockSize := fsBlockSize
  disk := disk

end Cache

end Minix.Mfs
