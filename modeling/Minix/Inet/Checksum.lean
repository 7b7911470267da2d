import Minix.Inet.Options
import Minix.Lib.OnesComplement

/-!
# The checksum of a TCP segment

`oneC_sum` (`lib/ip/oneC_sum.c`) adds up the words of a part of a packet, which may start at an odd address, and
`tcp_pack_oneCsum` (`inet/generic/tcp_lib.c`) goes through the parts of a segment, which may have odd lengths.

* `SumOf.oneCSum` and `SumOf.sumParts`: a sum is that of the bytes so far, swapped if their number is odd.
* `checksum_of_parts`: the sum does not depend on the parts, and a segment with its complement is accepted.
-/

namespace Minix.Inet

open Minix.Lib List

/-! ## `oneC_sum` -/

/-- A word in memory, the lowest byte first. -/
def word16 (b₀ b₁ : UInt8) : Nat := b₀.toNat + 256 * b₁.toNat

/-- The loop over eight bytes: the sum, and the bytes that are left. -/
def sum8 (sum : Nat) : List UInt8 → Nat × List UInt8
  | b₀ :: b₁ :: b₂ :: b₃ :: b₄ :: b₅ :: b₆ :: b₇ :: data =>
    sum8 ((sum + (word16 b₀ b₁ + word16 b₂ b₃ + word16 b₄ b₅ + word16 b₆ b₇)) % 2 ^ 32) data
  | data => (sum, data)

/-- The loop over two bytes, and the last byte. -/
def sum2 (sum : Nat) : List UInt8 → Nat
  | [] => sum
  | [b] => (sum + word16 b 0) % 2 ^ 32
  | b₀ :: b₁ :: data => sum2 ((sum + word16 b₀ b₁) % 2 ^ 32) data

/-- The byte at an odd address is the second one of a word. -/
def sumFirst (sum : Nat) : List UInt8 → Nat × List UInt8
  | [] => (sum, [])
  | b :: data => ((sum + word16 0 b) % 2 ^ 32, data)

/-- The carries of a sum in 32 bits are added to it. -/
def foldCarry (sum : Nat) : Nat :=
  let sum := (sum &&& 0xffff) + sum >>> 16
  if sum > 0xffff then sum + 1 else sum

/-- `oneC_sum` for the bytes at an address. -/
def oneCSum (prev addr : Nat) (data : List UInt8) : Nat :=
  let first := if addr % 2 = 1 then sumFirst (swapBytes prev) data else (prev, data)
  let rest := sum8 first.1 first.2
  let sum := foldCarry (sum2 rest.1 rest.2)
  (if addr % 2 = 1 then swapBytes sum else sum) % 2 ^ 16

/-! ## `tcp_pack_oneCsum` -/

/-- A part of a packet: `ptr2acc_data` and the bytes there. -/
structure Acc where
  addr : Nat
  data : List UInt8

/-- The bytes of a packet. -/
def contents (pack : List Acc) : List UInt8 := pack.flatMap (·.data)

theorem contents_cons (part : Acc) (pack : List Acc) : contents (part :: pack) = part.data ++ contents pack :=
  flatMap_cons

/-- The length of the segment, `ntohs(ip_hdr->ih_length)-ip_hdr_len` in 16 bits. -/
def tcpLen (hdr : Nat → UInt8) : Nat := ((hdr 2).toNat * 256 + (hdr 3).toNat + (2 ^ 16 - ipHdrLen hdr)) % 2 ^ 16

/-- The bytes of `word_buf`, the pseudo header: the addresses, `IPPROTO_TCP` and the length of the segment. -/
def wordBuf (hdr : Nat → UInt8) : List UInt8 :=
  [hdr 12, hdr 13, hdr 14, hdr 15, hdr 16, hdr 17, hdr 18, hdr 19, 0, 6, .ofNat (tcpLen hdr / 256), .ofNat (tcpLen hdr)]

theorem length_wordBuf (hdr : Nat → UInt8) : (wordBuf hdr).length = 12 := rfl

/-- The loop of `tcp_pack_oneCsum`, and the swap after it. -/
def sumParts (sum : Nat) (odd : Bool) : List Acc → Nat
  | [] => if odd then swapBytes sum else sum
  | part :: pack =>
    if part.data.length = 0 then sumParts sum odd pack
    else
      let sum := oneCSum sum part.addr part.data
      if part.data.length % 2 = 1 then sumParts (swapBytes sum) (!odd) pack else sumParts sum odd pack

/-- `tcp_pack_oneCsum`. -/
def tcpPackOneCsum (hdr : Nat → UInt8) (pack : List Acc) : Nat := sumParts (oneCSum 0 0 (wordBuf hdr)) false pack

/-! ## Sums -/

theorem word16_lt (b0 b1 : UInt8) : word16 b0 b1 < 2 ^ 16 := by
  have h0 := b0.toNat_lt
  have h1 := b1.toNat_lt
  rw [word16]
  omega

theorem sum2_sum8 (sum : Nat) (data : List UInt8) : sum2 (sum8 sum data).1 (sum8 sum data).2 = sum2 sum data := by
  fun_induction sum8 sum data with
  | case1 sum b0 b1 b2 b3 b4 b5 b6 b7 data ih =>
    rw [ih]
    simp only [sum2]
    congr 1
    omega
  | case2 => rfl

/-- As long as 32 bits are enough, the loop adds all the words. -/
theorem sum2_spec (sum : Nat) (data : List UInt8) (h : sum + 65535 * ((data.length + 1) / 2) < 2 ^ 32) :
    sum ≤ sum2 sum data ∧ sum2 sum data < 2 ^ 32 ∧ (sum2 sum data : ZMod 65535) = sum + number data := by
  fun_induction sum2 sum data with
  | case1 sum => simpa [number] using h
  | case2 sum b =>
    have hlt := word16_lt b 0
    have hmod : (sum + word16 b 0) % 2 ^ 32 = sum + word16 b 0 := Nat.mod_eq_of_lt (by simp at h; omega)
    rw [hmod]
    refine ⟨Nat.le_add_right .., by omega, ?_⟩
    simp [word16, number]
  | case3 sum b0 b1 data ih =>
    have hlt := word16_lt b0 b1
    have hmod : (sum + word16 b0 b1) % 2 ^ 32 = sum + word16 b0 b1 := Nat.mod_eq_of_lt (by simp at h; omega)
    rw [hmod] at ih ⊢
    obtain ⟨hle, hlt', heq⟩ := ih (by simp at h; omega)
    refine ⟨by omega, hlt', heq.trans ?_⟩
    rw [number_cons, number_cons, word16]
    push_cast
    linear_combination -(number data : ZMod 65535) * byte_sq

/-- A sum of 16 bits, up to the representation of zero, that is itself not zero. -/
structure SumOf (sum : Nat) (v : ZMod 65535) : Prop where
  lt : sum < 2 ^ 16
  pos : 0 < sum
  eq : (sum : ZMod 65535) = v

namespace SumOf

variable {sum : Nat} {v : ZMod 65535}

theorem swap (h : SumOf sum v) : SumOf (swapBytes sum) (256 * v) :=
  ⟨swapBytes_lt sum, swapBytes_pos h.pos h.lt, h.eq ▸ cast_swapBytes h.lt⟩

theorem foldCarry {t : Nat} (hpos : 0 < t) (hlt : t < 2 ^ 32) : SumOf (foldCarry t % 2 ^ 16) t := by
  have hand : t &&& 0xffff = t % 2 ^ 16 := Nat.and_two_pow_sub_one_eq_mod t 16
  simp only [Inet.foldCarry, hand, Nat.shiftRight_eq_div_pow]
  split
  · exact ⟨by omega, by omega, (cast_eq_of_carry (k := t / 2 ^ 16 + 1) (by omega)).symm⟩
  · exact ⟨by omega, by omega, (cast_eq_of_carry (k := t / 2 ^ 16) (by omega)).symm⟩

theorem loops {data : List UInt8} (hpos : sum = 0 → 0 < sum2 sum data) (hlt : sum < 2 ^ 17)
    (hlen : data.length ≤ 65535) :
    SumOf (Inet.foldCarry (sum2 (sum8 sum data).1 (sum8 sum data).2) % 2 ^ 16) (sum + number data) := by
  obtain ⟨hle, hlt', heq⟩ := sum2_spec sum data (by omega)
  rw [sum2_sum8, ← heq]
  exact foldCarry (by omega) hlt'

/-- The byte at an odd address, added to a sum that is swapped. -/
theorem first (h : SumOf sum v) (data : List UInt8) :
    let rest := sumFirst sum data
    0 < rest.1 ∧ rest.1 < 2 ^ 17 ∧ rest.2.length ≤ data.length ∧
      (256 * (rest.1 + number rest.2) : ZMod 65535) = 256 * v + number data := by
  have hpos := h.pos
  have hlt := h.lt
  cases data with
  | nil =>
    refine ⟨hpos, by simp only [sumFirst]; omega, le_rfl, ?_⟩
    simp [sumFirst, number, h.eq]
  | cons b data =>
    have hb := word16_lt 0 b
    have hmod : (sum + word16 0 b) % 2 ^ 32 = sum + word16 0 b := Nat.mod_eq_of_lt (by omega)
    simp only [sumFirst, hmod]
    refine ⟨by omega, by omega, Nat.le_succ _, ?_⟩
    rw [number_cons, word16]
    push_cast
    rw [h.eq]
    linear_combination (b.toNat : ZMod 65535) * byte_sq

/-- A part is added to the sum, whatever its address. -/
theorem oneCSum (h : SumOf sum v) (addr : Nat) (data : List UInt8) (hlen : data.length ≤ 65535) :
    SumOf (oneCSum sum addr data) (v + number data) := by
  rw [Inet.oneCSum]
  by_cases hodd : addr % 2 = 1
  · simp only [if_pos hodd]
    rw [Nat.mod_eq_of_lt (swapBytes_lt _), ← swapBytes_mod]
    obtain ⟨hpos, hlt, hle, hv⟩ := h.swap.first data
    have hsum := (loops (absurd · hpos.ne') hlt (hle.trans hlen)).swap
    rw [hv] at hsum
    refine ⟨hsum.lt, hsum.pos, hsum.eq.trans ?_⟩
    linear_combination v * byte_sq
  · simp only [if_neg hodd]
    rw [← h.eq]
    exact loops (absurd · h.pos.ne') (h.lt.trans (by decide)) hlen

/-- All the parts: the sum is swapped as long as the number of bytes is odd. -/
theorem sumParts (pack : List Acc) (hlen : (contents pack).length ≤ 65535) (h : SumOf sum v) (odd : Bool) :
    SumOf (sumParts sum odd pack) (256 ^ odd.toNat * (v + number (contents pack))) := by
  induction pack generalizing sum v odd with
  | nil =>
    cases odd with
    | false => simpa [contents, number, Inet.sumParts] using h
    | true => simpa [contents, number, Inet.sumParts] using h.swap
  | cons part pack ih =>
    rw [contents_cons, length_append] at hlen
    have hpart := h.oneCSum part.addr part.data (by omega)
    replace ih {sum : Nat} {v : ZMod 65535} := @ih sum v (by omega)
    rw [contents_cons, number_append]
    push_cast
    rw [byte_pow part.data.length, Inet.sumParts]
    split_ifs with hzero hodd hodd
    · omega
    · rw [eq_nil_of_length_eq_zero hzero]
      simpa [number] using ih h odd
    · have hsum := ih hpart.swap (!odd)
      refine ⟨hsum.lt, hsum.pos, hsum.eq.trans ?_⟩
      cases odd with
      | false =>
        simp only [Bool.not_false, Bool.toNat_true, Bool.toNat_false, pow_one, pow_zero]
        linear_combination (v + number part.data) * byte_sq
      | true =>
        simp only [Bool.not_true, Bool.toNat_true, Bool.toNat_false, pow_one, pow_zero]
        linear_combination -(number (contents pack) : ZMod 65535) * byte_sq
    · have hsum := ih hpart odd
      refine ⟨hsum.lt, hsum.pos, hsum.eq.trans ?_⟩
      ring

/-- The sum of a segment is that of the pseudo header and its bytes. -/
theorem tcpPackOneCsum (hdr : Nat → UInt8) {pack : List Acc} (hlen : (contents pack).length ≤ 65535) :
    SumOf (tcpPackOneCsum hdr pack) (number (wordBuf hdr) + number (contents pack)) := by
  -- the number of the protocol is not zero
  have hpos : 0 < sum2 0 (wordBuf hdr) := by
    have hproto : word16 0 6 = 1536 := by decide
    have hsrc := word16_lt (hdr 12) (hdr 13)
    have hsrc' := word16_lt (hdr 14) (hdr 15)
    have hdst := word16_lt (hdr 16) (hdr 17)
    have hdst' := word16_lt (hdr 18) (hdr 19)
    have hlen := word16_lt (.ofNat (tcpLen hdr / 256)) (.ofNat (tcpLen hdr))
    simp only [wordBuf, sum2, hproto]
    omega
  have hsum := loops (fun _ => hpos) (by decide) (by rw [length_wordBuf]; decide)
  rw [Nat.cast_zero, zero_add] at hsum
  have hparts := hsum.sumParts pack hlen false
  rw [Bool.toNat_false, pow_zero, one_mul] at hparts
  exact hparts

end SumOf

/-- The bytes of `th_chksum` when it is set to the complement of a sum. -/
def chksum (sum : Nat) : List UInt8 := [.ofNat (0xffff - sum), .ofNat ((0xffff - sum) / 256)]

theorem cast_chksum {sum : Nat} (h : sum < 2 ^ 16) : (number (chksum sum) : ZMod 65535) = -sum := by
  have hadd : number (chksum sum) + sum = 0 + 65535 * 1 := by
    simp only [chksum, number_cons, UInt8.toNat_ofNat']
    rw [number, map_nil, Nat.ofDigits_nil]
    omega
  exact eq_neg_of_add_eq_zero_left (by exact_mod_cast cast_eq_of_carry hadd)

/-- The sum of a segment is, in network order and up to the representation of zero, that of RFC 1071 for the pseudo
header and the bytes, however they are divided into parts. With its complement in the field for it, which was zero, the
segment has the sum `0xffff` that `tcp_put_pkt` asks for, in any parts. -/
theorem checksum_of_parts (hdr : Nat → UInt8) (pack : List Acc) (hlen : (contents pack).length ≤ 65535) :
    swapBytes (tcpPackOneCsum hdr pack) ≡ onesSum (wordBuf hdr ++ contents pack) [MOD 65535] ∧
      tcpPackOneCsum hdr pack < 2 ^ 16 ∧
        ∀ before after, before.length = 16 → contents pack = before ++ [0, 0] ++ after → ∀ hdr' pack',
          wordBuf hdr' = wordBuf hdr → contents pack' = before ++ chksum (tcpPackOneCsum hdr pack) ++ after →
            tcpPackOneCsum hdr' pack' = 0xffff := by
  have hsum := SumOf.tcpPackOneCsum hdr hlen
  refine ⟨?_, hsum.lt, fun before after h16 hpack hdr' pack' hbuf hpack' => ?_⟩
  · rw [← ZMod.natCast_eq_natCast_iff, cast_swapBytes hsum.lt, hsum.eq, cast_onesSum,
      cast_number_append (by rw [length_wordBuf])]
  · have hlen' : (contents pack').length = (contents pack).length := by
      rw [hpack', hpack]
      simp [chksum]
    have hsum' := SumOf.tcpPackOneCsum hdr' (hlen'.trans_le hlen)
    have hzero : (tcpPackOneCsum hdr' pack' : ZMod 65535) = 0 := by
      have heven : ∀ field : List UInt8, field.length = 2 → (before ++ field).length % 2 = 0 := by
        intro field hfield
        rw [length_append, h16, hfield]
      have heq := hsum.eq
      rw [hpack, cast_number_append (heven _ rfl), cast_number_append (by rw [h16])] at heq
      rw [hsum'.eq, hbuf, hpack', cast_number_append (heven _ rfl), cast_number_append (by rw [h16]),
        cast_chksum hsum.lt]
      have hfield : number [0, 0] = 0 := by decide
      rw [hfield] at heq
      push_cast at heq
      linear_combination -heq
    have hdvd := (ZMod.natCast_eq_zero_iff _ _).mp hzero
    have hpos := hsum'.pos
    have hlt := hsum'.lt
    omega

/-- A segment in two parts, one of odd length at an odd address. -/
def uneven : List Acc := [⟨1, .replicate 17 0⟩, ⟨0, [0, 7]⟩]

theorem checksum_of_uneven : (contents uneven).length ≤ 65535 ∧
    swapBytes (tcpPackOneCsum (fun _ => 0) uneven) ≡ onesSum (wordBuf (fun _ => 0) ++ contents uneven) [MOD 65535] ∧
      tcpPackOneCsum (fun _ => 0) [⟨0, .replicate 16 0 ++ chksum (tcpPackOneCsum (fun _ => 0) uneven) ++ [7]⟩] =
      0xffff := by
  have hlen : (contents uneven).length ≤ 65535 := by decide
  obtain ⟨hsum, -, hfill⟩ := checksum_of_parts (fun _ => 0) uneven hlen
  exact ⟨hlen, hsum, hfill (.replicate 16 0) [7] rfl rfl _ _ rfl (append_nil _)⟩

end Minix.Inet
