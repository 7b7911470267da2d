import Minix.Lib.Gapped
import Minix.Lib.Run

/-!
# Reassembly of IP datagrams

`reassemble`, `merge_frags` and `find_ass_ent` (`inet/generic/ip_read.c`), for packets that have passed `ip_frag_chk`. A
chain of packets linked by `acc_ext_link` is a list. The functions fail where an assertion fails.

`Progress` is the abstract model: for every datagram in progress, the positions of its payload that have arrived.
-/

namespace Minix.Inet

open Minix.Lib

/-! ## Packets -/

/-- The fields of the header that reassembly uses. `ih_flags_fragoff` is split into the flag `IH_MORE_FRAGS` and the
offset. -/
structure IpHdr where
  ihl : Nat
  length : Nat
  id : Nat
  mf : Bool
  fragoff : Nat
  proto : Nat
  src : Nat
  dst : Nat
  deriving DecidableEq

structure Packet where
  hdr : IpHdr
  data : List UInt8
  deriving DecidableEq

namespace Packet

def hdrLen (p : Packet) : Nat := p.hdr.ihl * 4

def dataLen (p : Packet) : Nat := p.hdr.length - p.hdrLen

def offset (p : Packet) : Nat := p.hdr.fragoff * 8

/-- The end of the data. -/
def stop (p : Packet) : Nat := p.offset + p.dataLen

/-- `bf_bufsize(pack)`. -/
def bufsize (p : Packet) : Nat := p.hdrLen + p.data.length

/-- What `merge_frags` asserts of both its arguments. -/
def Checked (p : Packet) : Prop := 20 ≤ p.bufsize ∧ p.hdrLen + p.dataLen = p.bufsize

instance (p : Packet) : Decidable p.Checked := inferInstanceAs (Decidable (_ ∧ _))

/-- The end of `second` is appended to `first`. -/
def append (first second : Packet) : Packet :=
  let cut := (second.data.drop (first.stop - second.offset)).take (second.stop - first.stop)
  { hdr :=
      { first.hdr with
        mf := if second.hdr.mf = false then false else first.hdr.mf
        length := (first.hdrLen + (first.dataLen + (second.stop - first.stop))) % 65536 }
    data := first.data ++ cut }

end Packet

/-- `merge_frags(first, second)`, where `rest` follows `second`: the packet that is returned, and what follows it. -/
def mergeFrags (first second : Packet) (rest : List Packet) : Option (Packet × List Packet) :=
  if ¬first.Checked ∨ ¬second.Checked ∨ second.offset < first.offset then none
  else if first.stop < second.offset then some (first, second :: rest)
  else if second.stop ≤ first.stop then some (second, rest)
  else if first.hdrLen + (first.dataLen + (second.stop - first.stop)) ≠ (first.append second).bufsize then none
  else some (first.append second, rest)

/-- A packet is merged into a list that is not empty. What the first merge has linked behind `curr` is lost in the
second one. -/
def insertFrag (frags : List Packet) (pack : Packet) : Option (List Packet) :=
  let before := frags.takeWhile fun q => q.offset ≤ pack.offset
  match before.getLast?, frags.dropWhile fun q => q.offset ≤ pack.offset with
  | none, [] => none
  | none, next :: rest => (mergeFrags pack next rest).map fun x => x.1 :: x.2
  | some curr, [] => (mergeFrags curr pack []).map fun x => before.dropLast ++ x.1 :: x.2
  | some curr, next :: rest =>
    (mergeFrags curr pack []).bind fun x => (mergeFrags x.1 next rest).map fun y => before.dropLast ++ y.1 :: y.2

/-! ## The table -/

/-- What identifies a datagram. -/
structure Key where
  port : Nat
  id : Nat
  proto : Nat
  src : Nat
  dst : Nat
  deriving DecidableEq

/-- `ip_ass_t`. The key is `none` as long as `ia_port` is null. -/
structure Ass where
  frags : List Packet := []
  minTtl : Nat := 0
  firstTime : Nat := 0
  key : Option Key := none

abbrev AssNr := Fin 3

/-- `ip_ass_table`, and the packets for which `icmp_snd_time_exceeded` was called. -/
structure Table where
  ass : AssNr → Ass := fun _ => {}
  timeExceeded : List Packet := []

def Table.setAss (t : Table) (i : AssNr) (e : Ass) : Table := { t with ass := Function.update t.ass i e }

/-- The loop of `find_ass_ent`: the entry with the key, or the oldest one. -/
def searchAss (t : Table) (k : Key) : List AssNr → Option AssNr → Option AssNr × Bool
  | [], new => (new, false)
  | i :: is, new =>
    if (t.ass i).frags = [] ∧ (t.ass i).firstTime ≠ 0 then searchAss t k is new
    else if (t.ass i).key = some k then (some i, true)
    else
      match new with
      | none => searchAss t k is (some i)
      | some j => searchAss t k is (if (t.ass i).firstTime < (t.ass j).firstTime then some i else some j)

section

-- the ticks in a second, and `broadcast_dst` for a port and an address
variable (hz : Nat) (broadcast : Nat → Nat → Bool)

/-- The first fragment of an entry that is given up is sent back, unless it was broadcast. -/
def dropFrags (t : Table) (port : Nat) (e : Ass) : Table :=
  match e.frags, e.key with
  | p :: _, some k => if broadcast port k.dst = true then t else { t with timeExceeded := t.timeExceeded ++ [p] }
  | _, _ => t

/-- `find_ass_ent(ip_port, id, proto, src, dst)`. -/
def findAssEnt (t : Table) (now : Nat) (k : Key) : Option (AssNr × Table) :=
  match searchAss t k (List.finRange 3) none with
  | (none, _) => none
  | (some i, true) => some (i, t)
  | (some i, false) =>
    some (i, (dropFrags broadcast t k.port (t.ass i)).setAss i
      { frags := [], minTtl := 255, firstTime := now, key := some k })

/-- A datagram is complete: it is handed up, unless that took too long. -/
def complete (t : Table) (now port : Nat) (i : AssNr) (pack : Packet) : Table × Option Packet :=
  let e := t.ass i
  let t := t.setAss i { e with frags := [], firstTime := 0 }
  if e.minTtl * hz + e.firstTime < now then
    if broadcast port pack.hdr.dst = true then (t, none)
      else ({ t with timeExceeded := t.timeExceeded ++ [pack] }, none)
  else (t, some pack)

/-- `reassemble(ip_port, pack, pack_hdr)`. -/
def reassemble (t : Table) (now port : Nat) (pack : Packet) : Option (Table × Option Packet) :=
  (findAssEnt broadcast t now ⟨port, pack.hdr.id, pack.hdr.proto, pack.hdr.src, pack.hdr.dst⟩).bind fun x =>
    let e := x.2.ass x.1
    if e.frags = [] then some (x.2.setAss x.1 { e with frags := [pack] }, none)
    else
      (insertFrag e.frags pack).bind fun frags =>
        match frags with
        | [] => none
        | head :: rest =>
          let t := x.2.setAss x.1 { e with frags := head :: rest }
          if head.hdr.fragoff = 0 ∧ head.hdr.mf = false then some (complete hz broadcast t now port x.1 head)
          else some (t, none)

end

/-! ## Datagrams and their fragments -/

/-- A datagram: what identifies it, the length of its header in words, and its payload. -/
structure Datagram where
  key : Key
  ihl : Nat
  payload : List UInt8
  min_ihl : 5 ≤ ihl
  nonempty : 0 < payload.length
  fits : ihl * 4 + payload.length ≤ 65535
  deriving DecidableEq

/-- The packet of a whole datagram. -/
def Datagram.packet (d : Datagram) : Packet where
  hdr :=
    { ihl := d.ihl, length := d.ihl * 4 + d.payload.length, id := d.key.id, mf := false, fragoff := 0,
      proto := d.key.proto,
      src := d.key.src, dst := d.key.dst }
  data := d.payload

/-- A part of the payload of a datagram, with a header of its own. The first one has the header of the datagram, the
others may have fewer options. -/
structure Block (d : Datagram) where
  off : Nat
  len : Nat
  ihl : Nat
  pos : 0 < len
  inside : off * 8 + len ≤ d.payload.length
  min_ihl : 5 ≤ ihl
  le_ihl : ihl ≤ d.ihl
  first : off = 0 → ihl = d.ihl

namespace Block

variable {d : Datagram}

def lo (b : Block d) : Nat := b.off * 8

def hi (b : Block d) : Nat := b.off * 8 + b.len

/-- The packet of a fragment. -/
def packet (b : Block d) : Packet where
  hdr :=
    { ihl := b.ihl, length := b.ihl * 4 + b.len, id := d.key.id, mf := decide (b.hi ≠ d.payload.length),
      fragoff := b.off,
      proto := d.key.proto, src := d.key.src, dst := d.key.dst }
  data := (d.payload.drop b.lo).take b.len

end Block

/-! ## The abstract model -/

/-- A datagram in progress: the positions that have arrived, and the time of the first arrival. -/
structure Progress where
  d : Datagram
  got : Finset ℕ
  first : Nat

/-- A fragment arrives that is not the whole datagram. -/
structure Arrival where
  now : Nat
  d : Datagram
  block : Block d
  part : ¬(block.lo = 0 ∧ block.hi = d.payload.length)

/-- The datagram is delivered when its last missing byte arrives. -/
def receive (ps : List Progress) (a : Arrival) : List Progress × Option Datagram :=
  match ps.find? fun p => p.d = a.d with
  | none => (⟨a.d, Finset.Ico a.block.lo a.block.hi, a.now⟩ :: ps, none)
  | some p =>
    let got := p.got ∪ Finset.Ico a.block.lo a.block.hi
    let others := ps.filter fun q => q.d ≠ a.d
    if got = Finset.range a.d.payload.length then (others, some a.d) else (⟨a.d, got, p.first⟩ :: others, none)

/-- The table and the abstract model side by side, with what they have handed up for each arrival. -/
structure Sys where
  table : Table := {}
  progress : List Progress := []
  out : List (Option Packet) := []
  due : List (Option Packet) := []

/-- A fragment arrives. -/
def Sys.step (hz : Nat) (broadcast : Nat → Nat → Bool) (s : Sys) (a : Arrival) : Option Sys :=
  (reassemble hz broadcast s.table a.now a.d.key.port a.block.packet).map fun x =>
    let y := receive s.progress a
    { table := x.1, progress := y.1, out := s.out ++ [x.2], due := s.due ++ [y.2.map Datagram.packet] }

/-- The datagrams in progress have different keys, there are not more than entries, and the reassembly time has not
passed. -/
@[mk_iff]
structure Admissible (hz : Nat) (s : Sys) (a : Arrival) : Prop where
  unique : ∀ p ∈ s.progress, p.d.key = a.d.key → p.d = a.d
  room : (∃ p ∈ s.progress, p.d = a.d) ∨ s.progress.length < 3
  clock : 0 < a.now
  inTime : ∀ p ∈ s.progress, p.d = a.d → a.now ≤ 255 * hz + p.first

instance (hz : Nat) (s : Sys) (a : Arrival) : Decidable (Admissible hz s a) :=
  decidable_of_iff' _ (admissible_iff hz s a)

end Minix.Inet
