import Minix.Mfs.Path

/-!
# The loop of a lookup request

What the loop of `parse_path_s` does with the path: every turn takes a component off the path, or replaces it by the
text of a symbolic link, which it does at most `SYMLOOP_MAX` times.

* `Fs.parse_total`: the loop of `parse_path_s` ends, on every directory graph, if it does not come to a link at the end
  of the path that is longer than `PATH_MAX`.
* `Fs.links_expanded`: what becomes of a symbolic link.
-/

namespace Minix.Mfs

open Minix.Lib List

/-! ## Components -/

theorem skipSlashes_suffix (path : List Char) : skipSlashes path <:+ path := dropWhile_suffix _

theorem getNameS_snd (path : List Char) : (getNameS path).2 = (skipSlashes path).dropWhile (· != '/') := rfl

theorem getNameS_suffix (path : List Char) : (getNameS path).2 <:+ path :=
  (dropWhile_suffix _).trans (skipSlashes_suffix path)

/-- The path after a component is empty or starts with a slash. -/
theorem getNameS_head {path : List Char} (h : (getNameS path).2 ≠ []) : (getNameS path).2.head? = some '/' := by
  rw [getNameS_snd] at h ⊢
  have := head_dropWhile_not (· != '/') h
  rw [head?_eq_some_head h]
  simpa using this

theorem getNameS_length {path : List Char} (h : path ≠ []) : (getNameS path).2.length < path.length := by
  obtain ⟨c, cs, rfl⟩ := exists_cons_of_ne_nil h
  rw [getNameS_snd]
  by_cases hc : c = '/'
  · have hs : skipSlashes (c :: cs) = skipSlashes cs := by simp [skipSlashes, hc]
    rw [hs]
    have h1 := (dropWhile_suffix (l := skipSlashes cs) (· != '/')).length_le
    have h2 := (skipSlashes_suffix cs).length_le
    simp only [length_cons]
    omega
  · have hs : skipSlashes (c :: cs) = c :: cs := by simp [skipSlashes, hc]
    have hd : (c :: cs).dropWhile (· != '/') = cs.dropWhile (· != '/') := by simp [hc]
    rw [hs, hd]
    have h1 := (dropWhile_suffix (l := cs) (· != '/')).length_le
    simp only [length_cons]
    omega

namespace Parse

variable {p : Parse} {path : List Char}

theorem rest_suffix (p : Parse) : p.rest <:+ p.userPath := drop_suffix _ _

theorem next_head (p : Parse) : p.next ≠ [] → p.next.head? = some '/' := getNameS_head

theorem next_suffix (p : Parse) : p.next <:+ p.userPath := (getNameS_suffix _).trans p.rest_suffix

theorem drop_suffix {l : List Char} (h : l <:+ p.userPath) : p.userPath.drop (p.userPath.length - l.length) = l :=
  (suffix_iff_eq_drop.mp h).symm

/-- The next component was taken off the path. -/
def past (p : Parse) : Parse := { p with cp := p.userPath.length - p.next.length }

@[simp] theorem past_rest (p : Parse) : p.past.rest = p.next := drop_suffix p.next_suffix

/-- What is left of the path, and of the links that may be expanded. -/
def size (p : Parse) : Nat := (symloopMax + 1 - p.symlinks) * (pathMax + 2) + p.rest.length

end Parse

/-! ## Termination -/

/-- What a turn makes of the variables, if the loop goes on. -/
inductive Next (p : Parse) : Parse → Prop
  | past (rip : Nat) (leavingMount : Bool) : Next p { p.past with rip := rip, leavingMount := leavingMount }
  | link (text : List Char) (leaked : Int) (hlen : (text ++ p.next).length ≤ pathMax)
    (hlinks : p.symlinks < symloopMax) :
      Next p { p with userPath := text ++ p.next, cp := 0, symlinks := p.symlinks + 1, bRefs := p.bRefs + leaked,
                      leavingMount := false }

theorem Next.counted {p p' : Parse} (h : Next p p') (hp : p.symlinks ≤ symloopMax ∧ p.userPath.length ≤ pathMax) :
    p'.symlinks ≤ symloopMax ∧ p'.userPath.length ≤ pathMax := by
  cases h with
  | past rip leavingMount => exact hp
  | link text leaked hlen hlinks => exact ⟨hlinks, hlen⟩

/-- `ELOOP` is the answer exactly if more than `SYMLOOP_MAX` links were met, and the path is still in `user_path`. -/
structure ParseRes.Counted (res : ParseRes) : Prop where
  loop : res.code = .err .ELOOP ↔ symloopMax < res.symlinks
  links : res.symlinks ≤ symloopMax + 1
  fits : res.userPath.length ≤ pathMax

namespace ParseRes

variable {res : ParseRes}

theorem Counted.few (hc : res.code ≠ .err .ELOOP) (hl : res.symlinks ≤ symloopMax)
    (hf : res.userPath.length ≤ pathMax) :
    res.Counted :=
  ⟨⟨fun h => absurd h hc, fun h => absurd hl (not_le.mpr h)⟩, Nat.le_succ_of_le hl, hf⟩

end ParseRes

/-- What a turn can do: it goes on, it leaves the loop, or there is a link that does not fit. -/
inductive Outcome (fs : Fs) (p : Parse) : Turn Parse ParseRes → Prop
  | again {p' : Parse} (hrest : p.rest ≠ []) (h : Next p p') : Outcome fs p (.again p')
  | done {res : ParseRes} (h : p.symlinks ≤ symloopMax → p.userPath.length ≤ pathMax → res.Counted) :
    Outcome fs p (.done res)
  | crash : Outcome fs p .crash

namespace Fs

variable {fs : Fs} {p p' : Parse} {rootIno off link : Nat} {retSymlink : Bool} {string path : List Char}

/-- The path with the text of the link in it, if it fits. Otherwise there is an error, or `user_path` overflows. -/
theorem ltraverseS_symlink {text suffix : List Char} (ht : fs.node link = .symlink (some text))
    (hs : suffix ≠ [] → suffix.head? = some '/') :
    fs.ltraverseS link suffix =
      if (text ++ suffix).length ≤ pathMax then some (.ok (text ++ suffix), 0)
      else if suffix = [] then none
      else some (.error .ENAMETOOLONG, 1) := by
  have hlen : (text ++ suffix).length = text.length + suffix.length := length_append
  unfold ltraverseS
  rw [ht]
  dsimp only
  by_cases hn : suffix = []
  · rw [if_pos hn, hn, append_nil, if_pos rfl]
  · rw [if_neg hn, if_neg (not_not.mpr (hs hn)), if_neg hn]
    by_cases hfit : (text ++ suffix).length ≤ pathMax
    · rw [if_pos hfit, if_neg (by omega)]
    · rw [if_neg hfit, if_pos (by omega)]

/-- The source writes past the end of `user_path` only for a link at the end of the path that is longer than `PATH_MAX`.
-/
theorem ltraverseS_cases (fs : Fs) (link : Nat) (p : Parse) :
    (fs.ltraverseS link p.next = none ∧ p.next = [] ∧ ∃ text, fs.node link = .symlink (some text) ∧
    pathMax < text.length) ∨
      (∃ text, fs.ltraverseS link p.next = some (.ok (text ++ p.next), 0) ∧ (text ++ p.next).length ≤ pathMax) ∨
      ∃ e leaked, fs.ltraverseS link p.next = some (.error e, leaked) ∧ e ≠ .ELOOP := by
  cases ht : fs.node link with
  | symlink t =>
    cases t with
    | none => exact .inr (.inr ⟨ Err.EIO, 0, by simp [ltraverseS, ht], by simp⟩)
    | some text =>
      rw [ltraverseS_symlink ht p.next_head]
      split
      · next hlen => exact .inr (.inl ⟨text, rfl, hlen⟩)
      · next hlen =>
        split
        · next hn =>
          rw [hn, append_nil] at hlen
          exact .inl ⟨rfl, hn, text, rfl, not_le.mp hlen⟩
        · exact .inr (.inr ⟨_, _, rfl, by simp⟩)
  | directory => exact .inr (.inr ⟨ Err.EIO, 0, by simp [ltraverseS, ht], by simp⟩)
  | other => exact .inr (.inr ⟨ Err.EIO, 0, by simp [ltraverseS, ht], by simp⟩)

theorem advanceS1_ne_loop {dir : Nat} {check : Bool} {e : Err} (h : fs.advanceS1 dir string check = .error e) :
    e ≠ .ELOOP := by
  unfold advanceS1 searchDir at h
  grind

theorem expand_outcome (hrest : p.rest ≠ []) (link off : Nat) : Outcome fs p (fs.expand p link p.next off) := by
  unfold expand
  rcases ltraverseS_cases fs link p with ⟨h, -⟩ | ⟨text, h, hlen⟩ | ⟨e, leaked, h, he⟩
  · rw [h]
    exact .crash
  · rw [h]
    dsimp only
    split
    · next hlt => exact .done fun hl hf => ⟨⟨fun _ => hlt, fun _ => rfl⟩, Nat.succ_le_succ hl, hf⟩
    · next hle =>
      split
      · exact .done fun _ _ => .few (by simp [Parse.ret]) (not_lt.mp hle) hlen
      · exact .again hrest (.link text 0 hlen (by omega))
  · rw [h]
    dsimp only
    split
    · next hlt => exact .done fun hl hf => ⟨⟨fun _ => hlt, fun _ => rfl⟩, Nat.succ_le_succ hl, hf⟩
    · next hle => exact .done fun _ hf => .few (fun hc => he (Code.err.inj hc)) (not_lt.mp hle) hf

theorem parseTurn_outcome (fs : Fs) (rootIno : Nat) (retSymlink : Bool) (off : Nat) (p : Parse) :
    Outcome fs p (fs.parseTurn rootIno retSymlink off p) := by
  have hret : ∀ {code : Code} {offset : Nat} {puts : Int}, code ≠ .err .ELOOP →
      Outcome fs p (.done (p.ret code offset puts)) :=
    fun hc => .done fun hl hf => .few hc hl hf
  have hinode : ∀ {code : Code} {rip offset : Nat}, code ≠ .err .ELOOP →
      Outcome fs p (.done (p.retInode code rip offset)) :=
    fun hc => .done fun hl hf => .few hc hl hf
  rw [parseTurn_eq]
  split
  · exact hinode (by split <;> simp)
  · next hrest =>
    split
    · split
      · exact .again hrest (.past p.rip p.leavingMount)
      · exact hret (by simp)
    · split
      · split <;> exact hret (by simp)
      · split
        · exact hret (by simp)
        · split
          · exact hinode (by simp)
          · unfold advance
            split
            · next he => exact hret fun hc => advanceS1_ne_loop he (Code.err.inj hc)
            · next x _ =>
              split
              · split
                · exact hinode (by simp)
                · exact expand_outcome hrest x off
              · exact .again hrest (.past x false)

/-- The turn expands the link: it looks up the next component, which is the link. -/
structure Expands (fs : Fs) (rootIno : Nat) (retSymlink : Bool) (p : Parse) (link : Nat) : Prop where
  rest : p.rest ≠ []
  root : p.name = dot2 → p.rip ≠ rootIno ∧ (p.rip = rootInode → fs.isRoot = true)
  leaving : p.leavingMount = true → p.name = dot2
  mount : p.leavingMount = false → fs.mountpoint p.rip = false
  found : fs.advanceS1 p.rip (if p.leavingMount then dot2 else p.name) (!p.leavingMount) = .ok link
  symlink : ∃ t, fs.node link = .symlink t
  follow : p.next = [] → retSymlink = false

/-- The link ends the path and is longer than `PATH_MAX`. -/
def LongEnd (fs : Fs) (p : Parse) (link : Nat) : Prop :=
  p.next = [] ∧ ∃ text, fs.node link = .symlink (some text) ∧ pathMax < text.length

theorem expand_crash_iff : fs.expand p link p.next off = .crash ↔ fs.LongEnd p link := by
  unfold expand
  rcases ltraverseS_cases fs link p with ⟨h, hx⟩ | ⟨text, h, hlen⟩ | ⟨e, leaked, h, -⟩
  · rw [h]
    exact iff_of_true rfl hx
  · refine iff_of_false ?_ ?_
    · rw [h]
      dsimp only
      split_ifs <;> exact nofun
    · rintro ⟨hn, t, ht, hlt⟩
      rw [ltraverseS_symlink ht p.next_head, hn, append_nil, if_neg (by omega)] at h
      cases h
  · refine iff_of_false ?_ ?_
    · rw [h]
      dsimp only
      split_ifs <;> exact nofun
    · rintro ⟨hn, t, ht, hlt⟩
      rw [ltraverseS_symlink ht p.next_head, hn, append_nil, if_neg (by omega)] at h
      cases h

/-- A turn overflows `user_path` exactly if it expands such a link. -/
theorem parseTurn_crash_iff : fs.parseTurn rootIno retSymlink off p = .crash ↔
    ∃ link, fs.Expands rootIno retSymlink p link ∧ fs.LongEnd p link := by
  rw [parseTurn_eq]
  split
  · next hrest => exact iff_of_false nofun fun ⟨_, h, _⟩ => h.rest hrest
  next hrest =>
  split
  · next h => exact iff_of_false (by split <;> exact nofun) fun ⟨_, hx, _⟩ => (hx.root h.1).1 h.2
  next hroot =>
  split
  · next h =>
    refine iff_of_false (by split <;> exact nofun) fun ⟨_, hx, _⟩ => ?_
    rw [(hx.root h.1).2 h.2.1] at h
    cases h.2.2
  next hup =>
  split
  · next h => exact iff_of_false nofun fun ⟨_, hx, _⟩ => h.1 (hx.leaving h.2)
  next hleave =>
  split
  · next h =>
    refine iff_of_false nofun fun ⟨_, hx, _⟩ => ?_
    rw [hx.mount h.1] at h
    cases h.2
  next hmount =>
  have hexp {link : Nat}
      (hfound : fs.advanceS1 p.rip (if p.leavingMount then dot2 else p.name) (!p.leavingMount) = .ok link)
      (hsym : ∃ t, fs.node link = .symlink t) (hfollow : ¬ (p.next = [] ∧ retSymlink = true)) :
      fs.Expands rootIno retSymlink p link :=
    { rest := hrest
      root := fun hd => ⟨fun hr => hroot ⟨hd, hr⟩, fun hr => by simpa [hd, hr] using hup⟩
      leaving := fun hl => by simpa [hl] using hleave
      mount := fun hl => by simpa [hl] using hmount
      found := hfound
      symlink := hsym
      follow := fun hn => by simpa [hn] using hfollow }
  unfold advance
  split
  · next e he =>
    refine iff_of_false nofun fun ⟨_, hx, _⟩ => ?_
    rw [hx.found] at he
    cases he
  next x hx =>
  have heq {link : Nat} (h : fs.Expands rootIno retSymlink p link) : link = x := by
    have := h.found
    rw [hx] at this
    cases this
    rfl
  split
  · next t ht =>
    split
    · next hret =>
      refine iff_of_false nofun fun ⟨_, h, _⟩ => ?_
      rw [h.follow hret.1] at hret
      cases hret.2
    · next hret =>
      rw [expand_crash_iff]
      refine ⟨fun h => ⟨x, hexp hx ⟨t, ht⟩ hret, h⟩, fun ⟨link, h, hl⟩ => ?_⟩
      rwa [heq h] at hl
  · next hnot =>
    refine iff_of_false nofun fun ⟨link, h, _⟩ => ?_
    obtain ⟨t, ht⟩ := h.symlink
    rw [heq h] at ht
    exact hnot t ht

theorem parseTurn_next (h : fs.parseTurn rootIno retSymlink off p = .again p') : p.rest ≠ [] ∧ Next p p' := by
  have ho := parseTurn_outcome fs rootIno retSymlink off p
  rw [h] at ho
  cases ho with
  | again hrest hn => exact ⟨hrest, hn⟩

end Fs

/-- Every turn that goes on takes something off the path or expands one more link. -/
theorem Next.size_lt {p p' : Parse} (h : Next p p') (hrest : p.rest ≠ []) : p'.size < p.size := by
  cases h with
  | past rip leavingMount =>
    have hlt : p.next.length < p.rest.length := getNameS_length hrest
    have hr : ({ p.past with rip := rip, leavingMount := leavingMount } : Parse).rest = p.next := p.past_rest
    unfold Parse.size
    rw [hr]
    exact Nat.add_lt_add_left hlt _
  | link text leaked hlen hlinks =>
    have hk : symloopMax + 1 - p.symlinks = symloopMax + 1 - (p.symlinks + 1) + 1 := by omega
    show (symloopMax + 1 - (p.symlinks + 1)) * (pathMax + 2) + (text ++ p.next).length < _
    unfold Parse.size
    rw [hk, Nat.add_mul]
    omega

namespace Fs

variable {fs : Fs} {rootIno off : Nat} {retSymlink : Bool}

/-- The walk along `path` comes to a state of the loop. -/
def Walks (fs : Fs) (dirIno rootIno : Nat) (retSymlink : Bool) (off : Nat) (path : List Char) (p : Parse) : Prop :=
  fs.inUse dirIno = true ∧ fs.nlinks dirIno ≠ 0 ∧ Reaches (fs.parseTurn rootIno retSymlink off) (fs.start dirIno path) p

/-- No symbolic link at the end of the path that the walk expands is longer than `PATH_MAX`. -/
def LinksFit (fs : Fs) (dirIno rootIno : Nat) (retSymlink : Bool) (off : Nat) (path : List Char) : Prop :=
  ∀ p link, fs.Walks dirIno rootIno retSymlink off path p → fs.Expands rootIno retSymlink p link → ¬ fs.LongEnd p link

theorem start_size_lt (dirIno : Nat) {path : List Char} (hlen : path.length ≤ pathMax) :
    (fs.start dirIno path).size < parseFuel := by
  have hs : (fs.start dirIno path).size = (symloopMax + 1) * (pathMax + 2) + path.length := rfl
  have hf : parseFuel = (symloopMax + 1) * (pathMax + 2) + (pathMax + 2) := rfl
  rw [hs, hf]
  omega

/-- **Termination.** The loop of `parse_path_s` ends, whatever the directories contain, unless `user_path` overflows. -/
theorem parse_total {dirIno : Nat} {path : List Char} (hstart : fs.inUse dirIno = true ∧ fs.nlinks dirIno ≠ 0)
    (hfit : fs.LinksFit dirIno rootIno retSymlink off path) (hlen : path.length ≤ pathMax) :
    ∃ res, loop (fs.parseTurn rootIno retSymlink off) parseFuel (fs.start dirIno path) = some res := by
  refine loop_total (I := Reaches (fs.parseTurn rootIno retSymlink off) (fs.start dirIno path)) (μ := Parse.size)
    (fun p hp => ?_)
    parseFuel _ (.refl _) (start_size_lt dirIno hlen)
  cases h : fs.parseTurn rootIno retSymlink off p with
  | again p' =>
    obtain ⟨hrest, hn⟩ := parseTurn_next h
    exact .inr ⟨p', rfl, hp.tail h, hn.size_lt hrest⟩
  | done res => exact .inl ⟨res, rfl⟩
  | crash =>
    obtain ⟨link, hx, hl⟩ := parseTurn_crash_iff.mp h
    exact absurd hl (hfit p link ⟨hstart.1, hstart.2, hp⟩ hx)

/-- The loop has no result if `user_path` overflows. -/
theorem parse_none {dirIno : Nat} {path : List Char} {p : Parse} {link : Nat}
    (hp : Reaches (fs.parseTurn rootIno retSymlink off) (fs.start dirIno path) p)
    (hx : fs.Expands rootIno retSymlink p link)
    (hl : fs.LongEnd p link) (fuel : Nat) : loop (fs.parseTurn rootIno retSymlink off) fuel (fs.start dirIno path) =
    none := by
  refine loop_none_of_reaches hp (fun fuel => ?_) fuel
  cases fuel with
  | zero => rfl
  | succ fuel => rw [loop, parseTurn_crash_iff.mpr ⟨link, hx, hl⟩]

end Fs

theorem strAt_nul (buf : List Char) (off : Nat) : '\x00' ∉ strAt buf off := by
  intro h
  have := mem_takeWhile_imp h
  simp at this

theorem strAt_append_nul {s : List Char} (hs : '\x00' ∉ s) (more : List Char) : strAt (s ++ '\x00' :: more) 0 = s := by
  unfold strAt
  rw [drop_zero, takeWhile_append_of_pos]
  · simp
  · intro c hc
    rw [bne_iff_ne]
    rintro rfl
    exact hs hc

/-! ## The text of a link in `user_path` -/

/-- `memmove(&user_path[dst], src, n)`, where `src` is `n` characters. -/
def memmove (buf : List Char) (dst : Nat) (src : List Char) : List Char :=
  buf.take dst ++ src ++ buf.drop (dst + src.length)

/-- What `ltraverse_s` does with `user_path` once it knows that there is room: `suffix` is the string at place `pos`. -/
def insertLink (buf : List Char) (pos : Nat) (text : List Char) : List Char :=
  let suffix := strAt buf pos
  let buf :=
    if suffix ≠ [] then if pos ≠ text.length then memmove buf text.length (suffix ++ ['\x00']) else buf
    else buf.set text.length '\x00'
  memmove buf 0 text

/-- The link's text is copied over what stands before place `text.length`. -/
theorem memmove_zero (buf text : List Char) : memmove buf 0 text = text ++ buf.drop text.length := by
  simp [memmove]

theorem drop_memmove {buf src : List Char} {dst : Nat} (h : dst ≤ buf.length) :
    (memmove buf dst src).drop dst = src ++ buf.drop (dst + src.length) := by
  have hl : (buf.take dst).length = dst := length_take_of_le h
  unfold memmove
  rw [append_assoc, drop_append_of_le_length hl.ge, drop_of_length_le hl.le, nil_append]

theorem drop_eq_strAt {buf : List Char} {pos : Nat} (h : '\x00' ∈ buf.drop pos) :
    ∃ more, buf.drop pos = strAt buf pos ++ '\x00' :: more := by
  have hne : (buf.drop pos).dropWhile (· != '\x00') ≠ [] := by
    intro he
    have := dropWhile_eq_nil_iff.mp he _ h
    simp at this
  refine ⟨((buf.drop pos).dropWhile (· != '\x00')).tail, ?_⟩
  have hhead := head_dropWhile_not (· != '\x00') hne
  simp only [bne_eq_false_iff_eq] at hhead
  conv_lhs => rw [← takeWhile_append_dropWhile (p := (· != '\x00')) (l := buf.drop pos)]
  rw [← cons_head_tail hne, hhead]
  rfl

/-- In whichever direction the suffix is moved, the buffer then holds the text of the link and the suffix. -/
theorem strAt_insertLink {buf text : List Char} {pos : Nat} (hpos : '\x00' ∈ buf.drop pos) (htext : '\x00' ∉ text)
    (hfit : (text ++ strAt buf pos).length + 1 ≤ buf.length) :
    strAt (insertLink buf pos text) 0 = text ++ strAt buf pos := by
  rw [length_append] at hfit
  have hafter : ∃ more, insertLink buf pos text = (text ++ strAt buf pos) ++ '\x00' :: more := by
    unfold insertLink
    simp only [memmove_zero, append_assoc]
    split
    · split
      · rw [drop_memmove (by omega)]
        refine ⟨buf.drop (text.length + ((strAt buf pos).length + 1)), ?_⟩
        simp
      · next hp =>
        obtain ⟨more, hmore⟩ := drop_eq_strAt hpos
        exact ⟨more, by rw [← not_not.mp hp, hmore]⟩
    · next hs =>
      refine ⟨buf.drop (text.length + 1), ?_⟩
      rw [not_not.mp hs, drop_set, if_neg (lt_irrefl _), Nat.sub_self, nil_append]
      rw [drop_eq_getElem_cons (by omega), set_cons_zero]
  obtain ⟨more, hmore⟩ := hafter
  rw [hmore]
  refine strAt_append_nul ?_ more
  rw [mem_append]
  exact fun h => h.elim htext (strAt_nul buf pos)

namespace Fs

variable {fs : Fs} {p : Parse} {rootIno off link : Nat} {retSymlink : Bool} {string : List Char} {res : ParseRes}

/-- `parse_path_s` ends with a result that counts the links, if and only if the links that the walk meets at the end of
the path fit. -/
theorem parsePathS_iff (fs : Fs) (dirIno rootIno : Nat) (retSymlink : Bool) (off : Nat) {path : List Char}
    (hlen : path.length ≤ pathMax) : (∃ res, fs.parsePathS dirIno rootIno retSymlink off path = some res ∧
    res.Counted) ↔
      fs.LinksFit dirIno rootIno retSymlink off path := by
  unfold parsePathS
  split
  · next h =>
    refine iff_of_true ⟨_, rfl, .few (by simp) (Nat.zero_le _) hlen⟩ fun p link hw => ?_
    rw [hw.1] at h
    cases h
  next huse =>
  split
  · next h => exact iff_of_true ⟨_, rfl, .few (by simp) (Nat.zero_le _) hlen⟩ fun p link hw => absurd h hw.2.1
  next hlinks =>
  constructor
  · rintro ⟨res, hres, -⟩ p link hw hx hl
    rw [parse_none hw.2.2 hx hl] at hres
    cases hres
  · intro hfit
    obtain ⟨res, hres⟩ := parse_total ⟨by simpa using huse, hlinks⟩ hfit hlen
    obtain ⟨p, hp, hdone⟩ := loop_reaches hres
    obtain ⟨hl, hf⟩ := hp.invariant (fun _ _ hi ht => (parseTurn_next ht).2.counted hi) ⟨Nat.zero_le _, hlen⟩
    have ho := parseTurn_outcome fs rootIno retSymlink off p
    rw [hdone] at ho
    cases ho with
    | done h => exact ⟨res, hres, h hl hf⟩

/-- `ltraverse_s` makes the path of the link's text and the string at place `pos`, or answers `ENAMETOOLONG` exactly if
they do not fit with a null character. -/
def Expanded (fs : Fs) (link : Nat) (text buf : List Char) (pos : Nat) : Prop :=
  ((text ++ strAt buf pos).length + 1 ≤ buf.length →
    fs.ltraverseS link (strAt buf pos) = some (.ok (text ++ strAt buf pos), 0) ∧
      strAt (insertLink buf pos text) 0 = text ++ strAt buf pos) ∧
  (buf.length < (text ++ strAt buf pos).length + 1 →
    fs.ltraverseS link (strAt buf pos) = some (.error .ENAMETOOLONG, 1))

/-- **Symbolic links.** `ltraverse_s` expands a link, if and only if it does not end the path or is not longer than
`user_path`. And `parse_path_s` ends on every directory graph, with `ELOOP` exactly after more than `SYMLOOP_MAX` links,
if and only if it meets no other link. -/
theorem links_expanded (fs : Fs) :
    (∀ link text buf pos, fs.node link = .symlink (some text) → '\x00' ∉ text → buf.length = pathMax + 1 →
      '\x00' ∈ buf.drop pos → (strAt buf pos ≠ [] → (strAt buf pos).head? = some '/') →
      (fs.Expanded link text buf pos ↔ (strAt buf pos = [] → text.length ≤ pathMax))) ∧
    ∀ dirIno rootIno retSymlink off path, path.length ≤ pathMax →
      ((∃ res, fs.parsePathS dirIno rootIno retSymlink off path = some res ∧ res.Counted) ↔
        fs.LinksFit dirIno rootIno retSymlink off path) := by
  refine ⟨fun link text buf pos ht hnul hbuf hpos hhead => ?_, fun dirIno rootIno retSymlink off path hlen =>
    parsePathS_iff fs dirIno rootIno retSymlink off hlen⟩
  unfold Expanded
  rw [hbuf, ltraverseS_symlink ht hhead]
  constructor
  · rintro ⟨-, herr⟩ hs
    by_contra hlong
    rw [hs, append_nil, if_neg hlong, if_pos rfl] at herr
    exact absurd (herr (by omega)) nofun
  · refine fun hend => ⟨fun h => ?_, fun h => ?_⟩
    · rw [if_pos (Nat.le_of_succ_le_succ h)]
      exact ⟨rfl, strAt_insertLink hpos hnul (hbuf ▸ h)⟩
    · rw [if_neg (by omega), if_neg]
      intro hs
      rw [hs, append_nil] at h
      exact absurd (hend hs) (by omega)

/-- A directory with one entry, a symbolic link with the given text. -/
def oneLink (text : List Char) : Fs where
  node x := if x = 2 then .symlink (some text) else .directory
  nlinks _ := 1
  entry _ string := if string = ['l'] then some 2 else none
  mountpoint _ := false
  isRoot := true
  inUse _ := true
  available _ := true
  searchable _ := true

/-- `user_path` with the path `l/a` in it. -/
def linkPath : List Char := "l/a".toList ++ replicate 253 '\x00'

/-- A link to itself: the text is inserted before the suffix, and the walk ends after 17 links. -/
theorem links_expanded_self :
    strAt (insertLink linkPath 1 ['l']) 0 = "l/a".toList ∧
      ((oneLink ['l']).parsePathS 1 1 false 0 "l/a".toList).map (·.code) = some (.err .ELOOP) := by
  have hfit : (oneLink ['l']).LinksFit 1 1 false 0 "l/a".toList := by
    rintro p link - - ⟨-, text, h, hlt⟩
    simp only [oneLink] at h
    split at h
    · cases h
      exact absurd hlt (by decide)
    · cases h
  obtain ⟨hlink, hparse⟩ := links_expanded (oneLink ['l'])
  have h :=
    ((hlink 2 ['l'] linkPath 1 rfl (by decide) (by decide +kernel) (by decide +kernel) fun _ => by decide +kernel).mpr
    fun _ => by decide).1 (by decide +kernel)
  obtain ⟨res, hres, hcount⟩ := (hparse 1 1 false 0 "l/a".toList (by decide)).mpr hfit
  have hsymlinks : ((oneLink ['l']).parsePathS 1 1 false 0 "l/a".toList).map (·.symlinks) = some 17 := by decide +kernel
  rw [hres, Option.map_some, Option.some.injEq] at hsymlinks
  refine ⟨h.2.trans (by decide +kernel), ?_⟩
  rw [hres, Option.map_some, hcount.loop.mpr (by rw [hsymlinks]; decide)]

/-- A link of 300 characters at the end of the path does not fit, and `ltraverse_s` writes it to `user_path` all the
same: the model has no result where the answer should have been `ENAMETOOLONG`. -/
theorem long_link_overflows :
    (oneLink (replicate 300 'x')).ltraverseS 2 [] = none ∧
      (oneLink (replicate 300 'x')).parsePathS 1 1 false 0 ['l'] = none := by
  constructor
  · decide +kernel
  · have h : ((oneLink (replicate 300 'x')).parsePathS 1 1 false 0 ['l']).isNone = true := by decide +kernel
    exact Option.isNone_iff_eq_none.mp h

end Fs

end Minix.Mfs
