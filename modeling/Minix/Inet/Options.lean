import Minix.Lib.Loop

/-!
# Options in the headers of packets

`tcp_extract_tcpopt` (`inet/generic/tcp_lib.c`) looks for the maximum segment size in the options of a TCP header, and
`ip_chk_hdropt` (`ip_lib.c`) checks those of an IP header for `ip_frag_chk` (`ip_read.c`). Both walk through the options
by lengths that the sender of the packet has chosen. A packet is given by its bytes, those after the header included.

* `chkTurn_forward` and `extractTurn_forward`: a turn moves forward, unless a TCP option has length zero.
* `optionAt_iff`: `tcp_extract_tcpopt` comes to the places at which an option starts.
* `options_parsed`: both functions depend on the header only. `ip_chk_hdropt` ends, and `tcp_extract_tcpopt` ends
  exactly if no option of the TCP header has length zero.
-/

namespace Minix.Inet

open Minix.Lib

/-- `IP_MIN_HDR_SIZE` and `TCP_MIN_HDR_SIZE`. -/
def minHdrSize : Nat := 20

/-- Two packets with the same header. -/
def SameHeader (len : Nat) (hdr hdr' : Nat → UInt8) : Prop := ∀ i < max minHdrSize len, hdr i = hdr' i

/-! ## TCP -/

/-- `TCP_OPT_EOL`. -/
def tcpOptEol : UInt8 := 0

/-- `TCP_OPT_NOP`. -/
def tcpOptNop : UInt8 := 1

/-- `TCP_OPT_MSS`. -/
def tcpOptMss : UInt8 := 2

/-- The length of a TCP header: `(th_data_off & TH_DO_MASK) >> 2`. -/
def tcpHdrLen (hdr : Nat → UInt8) : Nat := ((hdr 12).toNat &&& 0xf0) >>> 2

/-- The variables of `tcp_extract_tcpopt`. -/
structure Extract where
  i : Nat
  mssp : Nat

/-- One turn of the loop of `tcp_extract_tcpopt`. The other options are ignored, known ones or not. -/
def extractTurn (hdr : Nat → UInt8) (hdrLen : Nat) (s : Extract) : Turn Extract Nat :=
  let type := hdr s.i
  let len := (hdr (s.i + 1)).toNat
  if hdrLen ≤ s.i then .done s.mssp
  else if type = tcpOptNop then .again { s with i := s.i + 1 }
  else if type = tcpOptEol then .done s.mssp
  -- no length field
  else if s.i + 2 > hdrLen then .done s.mssp
  -- truncated option
  else if s.i + len > hdrLen then .done s.mssp
  else if type = tcpOptMss ∧ len = 4 then .again ⟨s.i + len, (hdr (s.i + 2)).toNat <<< 8 ||| (hdr (s.i + 3)).toNat⟩
  else .again { s with i := s.i + len }

/-- The value of `*mssp` after `tcp_extract_tcpopt`, with fuel for its loop. -/
def tcpExtractTcpopt (fuel : Nat) (hdr : Nat → UInt8) : Option Nat :=
  if tcpHdrLen hdr = minHdrSize then some 0 else loop (extractTurn hdr (tcpHdrLen hdr)) fuel ⟨minHdrSize, 0⟩

/-- At place `i` there is an option with a length field, and the length is zero. -/
def EmptyAt (hdr : Nat → UInt8) (i : Nat) : Prop :=
  i + 2 ≤ tcpHdrLen hdr ∧ hdr i ≠ tcpOptNop ∧ hdr i ≠ tcpOptEol ∧ hdr (i + 1) = 0

instance (hdr : Nat → UInt8) (i : Nat) : Decidable (EmptyAt hdr i) := inferInstanceAs (Decidable (_ ∧ _))

/-- The places of a TCP header at which an option starts: after the fixed part, after a `NOP`, and after an option with
a length that is within the header. -/
inductive OptionAt (hdr : Nat → UInt8) : Nat → Prop
  | first : OptionAt hdr minHdrSize
  | nop {i : Nat} (h : OptionAt hdr i) (hi : i < tcpHdrLen hdr) (ht : hdr i = tcpOptNop) : OptionAt hdr (i + 1)
  | next {i : Nat} (h : OptionAt hdr i) (hn : hdr i ≠ tcpOptNop) (he : hdr i ≠ tcpOptEol) (h2 : i + 2 ≤ tcpHdrLen hdr)
      (hl : i + (hdr (i + 1)).toNat ≤ tcpHdrLen hdr) : OptionAt hdr (i + (hdr (i + 1)).toNat)

/-- No option of the header has length zero. -/
def NoEmptyOption (hdr : Nat → UInt8) : Prop := ∀ i, OptionAt hdr i → ¬ EmptyAt hdr i

section

variable {hdr hdr' : Nat → UInt8} {s s' : Extract} {n : Nat}

/-- The checks come before the bytes that they are about, so no byte after the header matters. -/
theorem extractTurn_congr (h : ∀ i < n, hdr i = hdr' i) : extractTurn hdr n = extractTurn hdr' n := by
  funext s
  unfold extractTurn
  grind

theorem extractTurn_mono (ht : extractTurn hdr n s = .again s') : s.i ≤ s'.i := by
  unfold extractTurn at ht
  dsimp only at ht
  split_ifs at ht <;> cases ht <;> exact Nat.le_add_right _ _

/-- The loop moves forward, unless there is an option of length zero. -/
theorem extractTurn_forward (hs : ¬ EmptyAt hdr s.i) :
    (∃ mss, extractTurn hdr (tcpHdrLen hdr) s = .done mss) ∨
      ∃ s', extractTurn hdr (tcpHdrLen hdr) s = .again s' ∧ s.i < tcpHdrLen hdr ∧ s.i < s'.i := by
  unfold extractTurn
  dsimp only
  split
  · exact .inl ⟨_, rfl⟩
  · next hi =>
    rw [not_le] at hi
    split
    · exact .inr ⟨_, rfl, hi, Nat.lt_succ_self _⟩
    · next hnop =>
      split
      · exact .inl ⟨_, rfl⟩
      · next heol =>
        split
        · exact .inl ⟨_, rfl⟩
        · next h2 =>
          have hlen : 0 < (hdr (s.i + 1)).toNat := by
            refine Nat.pos_of_ne_zero fun h0 => hs ⟨by omega, hnop, heol, ?_⟩
            exact UInt8.toNat_inj.mp h0
          split
          · exact .inl ⟨_, rfl⟩
          · split <;> exact .inr ⟨_, rfl, hi, Nat.lt_add_of_pos_right hlen⟩

/-- One turn goes from an option to the next one. -/
theorem OptionAt.turn (h : OptionAt hdr s.i) (ht : extractTurn hdr (tcpHdrLen hdr) s = .again s') :
    OptionAt hdr s'.i := by
  unfold extractTurn at ht
  dsimp only at ht
  split_ifs at ht with hi hnop heol h2 hl hmss
  · cases ht
    exact .nop h (not_le.mp hi) hnop
  · cases ht
    exact .next h hnop heol (not_lt.mp h2) (not_lt.mp hl)
  · cases ht
    exact .next h hnop heol (not_lt.mp h2) (not_lt.mp hl)

/-- The loop comes to the places at which an option starts. -/
theorem optionAt_iff {i : Nat} :
    OptionAt hdr i ↔ ∃ s, Reaches (extractTurn hdr (tcpHdrLen hdr)) ⟨minHdrSize, 0⟩ s ∧ s.i = i := by
  constructor
  · intro h
    induction h with
    | first => exact ⟨_, .refl _, rfl⟩
    | nop _ hi ht ih =>
      obtain ⟨s, hs, rfl⟩ := ih
      have hturn : extractTurn hdr (tcpHdrLen hdr) s = .again { s with i := s.i + 1 } := by
        unfold extractTurn
        dsimp only
        rw [if_neg (not_le.mpr hi), if_pos ht]
      exact ⟨_, hs.tail hturn, rfl⟩
    | next _ hn he h2 hl ih =>
      obtain ⟨s, hs, rfl⟩ := ih
      have hturn : ∃ m, extractTurn hdr (tcpHdrLen hdr) s = .again ⟨s.i + (hdr (s.i + 1)).toNat, m⟩ := by
        unfold extractTurn
        dsimp only
        rw [if_neg (by omega), if_neg hn, if_neg he, if_neg (by omega), if_neg (by omega)]
        split <;> exact ⟨_, rfl⟩
      obtain ⟨m, hm⟩ := hturn
      exact ⟨_, hs.tail hm, rfl⟩
  · rintro ⟨s, hs, rfl⟩
    exact hs.invariant (I := fun s => OptionAt hdr s.i) (fun _ _ h ht => h.turn ht) .first

/-- The loop comes back to an option of length zero for ever. -/
theorem extract_forever (h : ¬ NoEmptyOption hdr) (fuel : Nat) : tcpExtractTcpopt fuel hdr = none := by
  simp only [NoEmptyOption, not_forall, not_not] at h
  obtain ⟨i, hat, h2, hn, he, h0⟩ := h
  obtain ⟨s, hs, rfl⟩ := optionAt_iff.mp hat
  have hmin : minHdrSize ≤ s.i :=
    hs.invariant (I := fun s => minHdrSize ≤ s.i) (fun s s' hs ht => hs.trans (extractTurn_mono ht)) le_rfl
  unfold tcpExtractTcpopt
  rw [if_neg (by omega)]
  refine loop_none_of_reaches hs (loop_stuck ?_) fuel
  unfold extractTurn
  dsimp only
  rw [h0, if_neg (by omega), if_neg hn, if_neg he, if_neg (by omega), if_neg (by simpa using by omega),
    if_neg (by simp)]
  rfl

/-- The loop ends within as many turns as the header has bytes. -/
theorem extract_total (h : NoEmptyOption hdr) :
    ∃ mss, ∀ fuel > tcpHdrLen hdr, tcpExtractTcpopt fuel hdr = some mss := by
  unfold tcpExtractTcpopt
  split
  · exact ⟨0, fun _ _ => rfl⟩
  · suffices hmss : ∃ mss, loop (extractTurn hdr (tcpHdrLen hdr)) (tcpHdrLen hdr + 1) ⟨minHdrSize, 0⟩ = some mss by
      obtain ⟨mss, hmss⟩ := hmss
      exact ⟨mss, fun fuel hf => loop_mono hmss hf⟩
    refine loop_total (I := Reaches (extractTurn hdr (tcpHdrLen hdr)) ⟨minHdrSize, 0⟩)
      (μ := fun s => tcpHdrLen hdr - s.i)
      (fun s hs => ?_) _ _ (.refl _) ?_
    · rcases extractTurn_forward (h s.i (optionAt_iff.mpr ⟨s, hs, rfl⟩)) with hd | ⟨s', ht, hi, hlt⟩
      · exact .inl hd
      · exact .inr ⟨s', ht, hs.tail ht, by omega⟩
    · exact Nat.lt_succ_of_le (Nat.sub_le _ _)

theorem tcpExtractTcpopt_congr (h : SameHeader (tcpHdrLen hdr) hdr hdr') (fuel : Nat) :
    tcpExtractTcpopt fuel hdr = tcpExtractTcpopt fuel hdr' := by
  have hlen : tcpHdrLen hdr = tcpHdrLen hdr' := by
    unfold tcpHdrLen
    rw [h 12 (lt_max_of_lt_left (by decide))]
  unfold tcpExtractTcpopt
  rw [← hlen, extractTurn_congr fun i hi => h i (lt_max_of_lt_right hi)]

end

/-! ## IP -/

/-- The options that `ip_chk_hdropt` knows. -/
inductive IpOpt
  | EOL
  | NOP
  | RR
  | TS
  | SEC
  | LSRR
  | SSRR
  | RTRALT

def IpOpt.ofByte (b : UInt8) : Option IpOpt :=
  match b.toNat with
  | 0x00 => some .EOL
  | 0x01 => some .NOP
  | 0x07 => some .RR
  | 0x44 => some .TS
  | 0x82 => some .SEC
  | 0x83 => some .LSRR
  | 0x89 => some .SSRR
  | 0x94 => some .RTRALT
  | _ => none

/-- What `ip_chk_hdropt` returns. -/
inductive OptRes
  | NW_OK
  | EINVAL
  deriving DecidableEq

/-- The variables of `ip_chk_hdropt`. The pointer `opt` is at place `i`. -/
structure Chk where
  i : Nat
  securityPresent : Bool
  loseSourcePresent : Bool
  strictSourcePresent : Bool
  recordRoutePresent : Bool
  timestampPresent : Bool

/-- An option of length `len` is passed, unless it was there already or something in it is wrong. -/
def Chk.pass (s : Chk) (present ok : Bool) (len : Nat) : Turn Chk OptRes :=
  if present then .done .EINVAL else if ok then .again { s with i := s.i + len } else .done .EINVAL

/-- One turn of the loop of `ip_chk_hdropt`, and what follows it. -/
def chkTurn (opt : Nat → UInt8) (optlen : Nat) (s : Chk) : Turn Chk OptRes :=
  if optlen ≤ s.i then .done (if s.i > optlen then .EINVAL else .NW_OK)
  else
    let len := (opt (s.i + 1)).toNat
    match IpOpt.ofByte (opt s.i) with
    | some .EOL => .done .NW_OK
    | some .NOP => .again { s with i := s.i + 1 }
    | some .SEC => { s with securityPresent := true }.pass s.securityPresent (len == 11) len
    | some .LSRR => { s with loseSourcePresent := true }.pass s.loseSourcePresent (3 ≤ len) len
    | some .SSRR => { s with strictSourcePresent := true }.pass s.strictSourcePresent (3 ≤ len) len
    | some .RR => { s with recordRoutePresent := true }.pass s.recordRoutePresent (3 ≤ len) len
    | some .TS =>
      let flag := opt (s.i + 3)
      { s with timestampPresent := true }.pass s.timestampPresent
        (len == 4 && (flag == 0 || flag == 1 || flag == 3)) len
    | some .RTRALT => s.pass false (len == 4) len
    | none => .done .EINVAL

def ipChkHdropt (opt : Nat → UInt8) (optlen : Nat) : Option OptRes :=
  loop (chkTurn opt optlen) (optlen + 1) ⟨0, false, false, false, false, false⟩

/-- The length of an IP header: `(ih_vers_ihl & IH_IHL_MASK) * 4`. -/
def ipHdrLen (hdr : Nat → UInt8) : Nat := ((hdr 0).toNat &&& 0xf) * 4

/-- What `ip_frag_chk` asks about the options. -/
def chkOptions (hdr : Nat → UInt8) : Option OptRes :=
  if ipHdrLen hdr > minHdrSize then ipChkHdropt (fun k => hdr (minHdrSize + k)) (ipHdrLen hdr - minHdrSize)
    else some .NW_OK

/-- The turn refuses the options, or the loop refuses them in its last turn because they are too long. -/
def Refused (optlen : Nat) (t : Turn Chk OptRes) : Prop := t = .done .EINVAL ∨ ∃ s, t = .again s ∧ optlen < s.i

section

variable {opt opt' : Nat → UInt8} {optlen : Nat} {s s' : Chk}

theorem Chk.pass_refused {present ok : Bool} {len : Nat} (h : ok = true → optlen < s.i + len) :
    Refused optlen (s.pass present ok len) := by
  unfold pass
  split
  · exact .inl rfl
  · split
    · next hok => exact .inr ⟨_, rfl, h hok⟩
    · exact .inl rfl

/-- Bytes after the header are looked at only for an option that is cut off, which is refused in any case. -/
theorem chkTurn_agree (h : ∀ i < optlen, opt i = opt' i) (hi : s.i < optlen) :
    chkTurn opt optlen s = chkTurn opt' optlen s ∨
      Refused optlen (chkTurn opt optlen s) ∧ Refused optlen (chkTurn opt' optlen s) := by
  unfold chkTurn
  rw [if_neg (not_le.mpr hi), if_neg (not_le.mpr hi), h s.i hi]
  cases IpOpt.ofByte (opt' s.i) with
  | none => exact .inl rfl
  | some k =>
    by_cases h1 : s.i + 1 < optlen
    · rw [h (s.i + 1) h1]
      cases k with
      | TS =>
        by_cases h3 : s.i + 3 < optlen
        · rw [h (s.i + 3) h3]
          exact .inl rfl
        · -- the flags are not in the header, and so the option is too long for it
          refine .inr ⟨Chk.pass_refused fun hok => ?_, Chk.pass_refused fun hok => ?_⟩ <;>
          · simp only [Bool.and_eq_true, beq_iff_eq] at hok
            show optlen < s.i + _
            omega
      | _ => exact .inl rfl
    · cases k with
      | EOL => exact .inl rfl
      | NOP => exact .inl rfl
      | _ =>
        refine .inr ⟨Chk.pass_refused fun hok => ?_, Chk.pass_refused fun hok => ?_⟩ <;>
        · simp only [Bool.and_eq_true, beq_iff_eq, decide_eq_true_eq] at hok
          show optlen < s.i + _
          omega

theorem Chk.pass_forward {present ok : Bool} {len : Nat} (h : ok = true → 0 < len) :
    (∃ r, s.pass present ok len = .done r) ∨ ∃ s', s.pass present ok len = .again s' ∧ s.i < s'.i := by
  unfold pass
  split
  · exact .inl ⟨_, rfl⟩
  · split
    · next hok => exact .inr ⟨_, rfl, Nat.lt_add_of_pos_right (h hok)⟩
    · exact .inl ⟨_, rfl⟩

theorem chkTurn_forward (opt : Nat → UInt8) (optlen : Nat) (s : Chk) :
    (∃ r, chkTurn opt optlen s = .done r) ∨ ∃ s', chkTurn opt optlen s = .again s' ∧ s.i < optlen ∧ s.i < s'.i := by
  unfold chkTurn
  split
  · exact .inl ⟨_, rfl⟩
  · next hi =>
    rw [not_le] at hi
    cases IpOpt.ofByte (opt s.i) with
    | none => exact .inl ⟨_, rfl⟩
    | some k =>
      cases k with
      | EOL => exact .inl ⟨_, rfl⟩
      | NOP => exact .inr ⟨_, rfl, hi, Nat.lt_succ_self _⟩
      | _ =>
        refine (Chk.pass_forward fun hok => ?_).imp_right fun ⟨s', ht, hlt⟩ => ⟨s', ht, hi, hlt⟩
        simp only [Bool.and_eq_true, beq_iff_eq, decide_eq_true_eq] at hok
        omega

theorem loop_refused {fuel : Nat} (h : Refused optlen (chkTurn opt optlen s)) :
    loop (chkTurn opt optlen) (fuel + 2) s = some .EINVAL := by
  rcases h with h | ⟨s', h, hlt⟩
  · rw [loop, h]
  · rw [loop, h]
    show loop (chkTurn opt optlen) (fuel + 1) s' = _
    rw [loop, chkTurn, if_pos hlt.le, if_pos hlt]

/-- The loop has the same result whatever follows the options. -/
theorem chk_congr (h : ∀ i < optlen, opt i = opt' i) :
    ∀ (fuel : Nat) (s : Chk), optlen < fuel + s.i →
    loop (chkTurn opt optlen) fuel s = loop (chkTurn opt' optlen) fuel s := by
  intro fuel
  induction fuel with
  | zero => exact fun _ _ => rfl
  | succ fuel ih =>
    intro s hf
    by_cases hi : s.i < optlen
    · rcases chkTurn_agree h hi with heq | ⟨hr, hr'⟩
      · rw [loop, loop, heq]
        rcases chkTurn_forward opt' optlen s with ⟨r, hd⟩ | ⟨s', ht, -, hlt⟩
        · rw [hd]
        · rw [ht]
          exact ih s' (by omega)
      · obtain ⟨k, rfl⟩ : ∃ k, fuel = k + 1 := ⟨fuel - 1, by omega⟩
        rw [loop_refused hr, loop_refused hr']
    · rw [loop, loop, chkTurn, chkTurn, if_pos (not_lt.mp hi), if_pos (not_lt.mp hi)]

theorem ipChkHdropt_total (opt : Nat → UInt8) (optlen : Nat) : ∃ r, ipChkHdropt opt optlen = some r := by
  refine loop_total (I := fun _ => True) (μ := fun s => optlen - s.i) (fun s _ => ?_) _ _ trivial (by omega)
  rcases chkTurn_forward opt optlen s with hd | ⟨s', ht, hi, hlt⟩
  · exact .inl hd
  · exact .inr ⟨s', ht, trivial, by omega⟩

end

theorem chkOptions_congr {hdr hdr' : Nat → UInt8} (h : SameHeader (ipHdrLen hdr) hdr hdr') :
    chkOptions hdr = chkOptions hdr' := by
  have hlen : ipHdrLen hdr = ipHdrLen hdr' := by
    unfold ipHdrLen
    rw [h 0 (lt_max_of_lt_left (by decide))]
  unfold chkOptions
  rw [← hlen]
  split
  · refine chk_congr (fun i hi => h _ (lt_max_of_lt_right ?_)) _ _ (Nat.lt_succ_self _)
    omega
  · rfl

/-- **Options.** `tcp_extract_tcpopt` ends and finds the same maximum segment size in packets with the same TCP header
exactly if no option of the header has length zero. `ip_chk_hdropt` ends for every packet, and accepts the options or
refuses them in the same way in packets with the same IP header. -/
theorem options_parsed (hdr hdr' : Nat → UInt8) :
    (SameHeader (tcpHdrLen hdr) hdr hdr' → ((∃ mss, ∀ fuel > tcpHdrLen hdr,
      tcpExtractTcpopt fuel hdr = some mss ∧ tcpExtractTcpopt fuel hdr' = some mss) ↔ NoEmptyOption hdr)) ∧
    (SameHeader (ipHdrLen hdr) hdr hdr' → ∃ r, chkOptions hdr = some r ∧ chkOptions hdr' = some r) := by
  refine ⟨fun h => ⟨fun ⟨mss, hmss⟩ => ?_, fun hne => ?_⟩, fun h => ?_⟩
  · by_contra hne
    have hend := (hmss _ (Nat.lt_succ_self _)).1
    rw [extract_forever hne] at hend
    cases hend
  · obtain ⟨mss, hmss⟩ := extract_total hne
    refine ⟨mss, fun fuel hf => ⟨hmss fuel hf, ?_⟩⟩
    rw [← tcpExtractTcpopt_congr h]
    exact hmss fuel hf
  · rw [← chkOptions_congr h]
    unfold chkOptions
    split
    · obtain ⟨r, hr⟩ := ipChkHdropt_total (fun k => hdr (minHdrSize + k)) (ipHdrLen hdr - minHdrSize)
      exact ⟨r, hr, hr⟩
    · exact ⟨_, rfl, rfl⟩

/-- A TCP header with four bytes of options. -/
def tcpHdrWith (options : List UInt8) (i : Nat) : UInt8 :=
  if i = 12 then 0x60 else if minHdrSize ≤ i then options.getD (i - minHdrSize) 0 else 0

/-- The maximum segment size 1460. -/
theorem options_parsed_mss : ∃ mss, ∀ fuel > 24, tcpExtractTcpopt fuel (tcpHdrWith [2, 4, 5, 0xb4]) = some mss := by
  have hne : NoEmptyOption (tcpHdrWith [2, 4, 5, 0xb4]) := by
    intro i hi
    obtain ⟨s, hs, rfl⟩ := optionAt_iff.mp hi
    have hend : loop (extractTurn (tcpHdrWith [2, 4, 5, 0xb4]) 24) 2 ⟨minHdrSize, 0⟩ = some 1460 := by decide
    have hall : ∀ s ∈ visited (extractTurn (tcpHdrWith [2, 4, 5, 0xb4]) 24) 2 ⟨minHdrSize, 0⟩,
        ¬ EmptyAt (tcpHdrWith [2, 4, 5, 0xb4]) s.i := by decide
    exact hall s (mem_visited hend hs)
  obtain ⟨mss, h⟩ := ((options_parsed _ _).1 fun _ _ => rfl).mpr hne
  exact ⟨mss, fun fuel hf => (h fuel hf).1⟩

/-- An option of length zero: `tcp_extract_tcpopt` does not end. -/
theorem empty_option_loops : tcpHdrLen (tcpHdrWith [2, 0, 0, 0]) = 24 ∧
    ∀ fuel, tcpExtractTcpopt fuel (tcpHdrWith [2, 0, 0, 0]) = none := by
  refine ⟨by decide, fun fuel => ?_⟩
  have hne : tcpHdrLen (tcpHdrWith [2, 0, 0, 0]) ≠ minHdrSize := by decide
  rw [tcpExtractTcpopt, if_neg hne]
  refine loop_stuck ?_ fuel
  rfl

end Minix.Inet
