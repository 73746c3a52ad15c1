import Bio.FileMode
import Mathlib.Algebra.Group.Int.Defs
import Mathlib.Algebra.Group.Nat.Defs
import Mathlib.Data.List.Count

/-!
# Short file names in log messages

`bio_logging_init` of `src/logging.c` looks for a prefix of the name of the file that initializes bio, and
`bio_vlog` removes it from the names that begin with it.

* Lengths, depths and indices are integers. `scanInt` is the loop with the `int`s that they are in the code,
  `scanInt_eq` says that it makes no difference for a name of fewer than `2 ^ 31` characters, whatever the
  depth.
* An access to the name is logged with its index. In front of the name there is some character, which the
  code has no right to read.
* `bio_init` sets all of `bio_ctx` to zero before it calls `bio_logging_init`.

1. `log_prefix_exact`: the prefix ends behind the separator that is asked for.
2. `scan_in_bounds_iff`: every access is within the name exactly when the scan stops in it.
-/

namespace Bio

/-- `bio_log_options_t`. -/
structure LogOptions where
  currentFilename : Option CString
  currentDepthInProject : Int

/-- A slash or a backslash. -/
def isSeparator (ch : Char) : Bool := ch = '/' || ch = '\\'

/-- The character at an index of a name, `before` in front of it. -/
def CString.charAt (s : CString) (before : Char) (i : Int) : Char :=
  if i < 0 then before else s.memory.getD i.toNat before

/-- The locals `i` and `depth` behind the loop of `bio_logging_init`, and the accesses so far. -/
structure PathScan where
  i : Int
  depth : Int
  accesses : List Int
deriving DecidableEq, Repr

/-- The loop of `bio_logging_init`, with `n` for `i + 1`. -/
def scanLoop (currentFilename : CString) (before : Char) : Nat → Int → PathScan
  | 0, depth => { i := -1, depth := depth, accesses := [] }
  | n + 1, depth =>
    let ch := currentFilename.charAt before n
    let depth := if isSeparator ch then depth - 1 else depth
    if depth = 0 then { i := n, depth := depth, accesses := [(n : Int)] }
    else
      let rest := scanLoop currentFilename before n depth
      { rest with accesses := n :: rest.accesses }

/-- What `bio_logging_init` leaves in `log_prefix_len`, and its accesses to the name. -/
structure LogPrefix where
  logPrefixLen : Nat
  accesses : List Int
deriving DecidableEq, Repr

/-- `bio_logging_init`, the part about the name. -/
def loggingInit (options : LogOptions) (before : Char) : LogPrefix :=
  let depth := options.currentDepthInProject + 1
  match options.currentFilename with
  | some currentFilename =>
    let scan := scanLoop currentFilename before currentFilename.chars.length depth
    let i := if isSeparator (currentFilename.charAt before scan.i) then scan.i + 1 else scan.i
    { logPrefixLen := if scan.depth = 0 ∧ i ≥ 0 then i.toNat else 0
      accesses := scan.accesses ++ [scan.i] }
  | none => { logPrefixLen := 0, accesses := [] }

/-- The name of a file of which nothing is known. -/
def unknownFilename : CString where
  chars := "<unknown>".toList
  notMem_nul := by decide

/-- `bio_vlog` up to the name in `ctx.file`. -/
def vlogFilename (options : LogOptions) (logPrefixLen : Nat) (filename : Option CString) : List Char :=
  let filename := filename.getD unknownFilename
  if logPrefixLen > 0 ∧ filename.chars.length ≥ logPrefixLen ∧
      options.currentFilename.any (fun currentFilename =>
        filename.memory.take logPrefixLen = currentFilename.memory.take logPrefixLen) then
    filename.chars.drop logPrefixLen
  else filename.chars

/-! ## The scan -/

variable {f : CString} {before : Char} {n : Nat} {depth : Int}

/-- The number of separators among the first characters. -/
def separators (f : CString) (n : Nat) : Nat := (f.chars.take n).countP isSeparator

theorem charAt_lt (hn : n < f.chars.length) : f.charAt before n = f.chars[n] := by
  have hmem : n < f.memory.length := by
    rw [CString.memory, List.length_append]
    exact Nat.lt_of_lt_of_le hn (Nat.le_add_right _ _)
  rw [CString.charAt, if_neg (by omega), Int.toNat_natCast, List.getD_eq_getElem?_getD,
    List.getElem?_eq_getElem hmem, Option.getD_some]
  exact List.getElem_append_left hn

theorem separators_succ (hn : n < f.chars.length) :
    separators f (n + 1) = separators f n + if isSeparator f.chars[n] then 1 else 0 := by
  rw [separators, List.take_add_one, List.getElem?_eq_getElem hn, Option.toList_some,
    List.countP_append, List.countP_singleton]
  rfl

theorem scanLoop_succ (hn : n < f.chars.length) (before : Char) (depth : Int) :
    scanLoop f before (n + 1) depth =
      let depth := if isSeparator f.chars[n] then depth - 1 else depth
      if depth = 0 then { i := n, depth := depth, accesses := [(n : Int)] }
      else { scanLoop f before n depth with accesses := n :: (scanLoop f before n depth).accesses } := by
  rw [scanLoop, charAt_lt hn]

/-- All accesses in the loop are within the name. -/
theorem scanLoop_accesses (f : CString) (before : Char) (n : Nat) (depth : Int) :
    ∀ a ∈ (scanLoop f before n depth).accesses, 0 ≤ a ∧ a < n := by
  induction n generalizing depth with
  | zero => exact fun _ h => nomatch h
  | succ n ih =>
    have hfirst : 0 ≤ (n : Int) ∧ (n : Int) < (n + 1 : Nat) := by omega
    intro a ha
    unfold scanLoop at ha
    dsimp only at ha
    generalize (if isSeparator (f.charAt before n) then depth - 1 else depth) = depth' at ha
    split at ha
    · rw [List.mem_singleton.mp ha]
      exact hfirst
    · rcases List.mem_cons.mp ha with rfl | ha
      · exact hfirst
      · obtain ⟨hle, hlt⟩ := ih _ a ha
        omega

/-- With too few separators in front of it, the loop runs to its end. So it does for a negative count. -/
theorem scanLoop_exhausts (before : Char) (hn : n ≤ f.chars.length) (hfew : depth < 0 ∨ (separators f n : Int) < depth) :
    (scanLoop f before n depth).i = -1 ∧ (scanLoop f before n depth).depth ≠ 0 := by
  induction n generalizing depth with
  | zero =>
    refine ⟨rfl, ?_⟩
    show depth ≠ 0
    rcases hfew with h | h
    · exact Int.ne_of_lt h
    · rw [separators, List.take_zero, List.countP_nil] at h
      exact Int.ne_of_gt h
  | succ n ih =>
    rw [separators_succ hn] at hfew
    rw [scanLoop_succ hn]
    dsimp only
    split at hfew <;> rename_i hsep
    · rw [if_pos hsep, if_neg (by omega)]
      exact ih (Nat.le_of_lt hn) (by omega)
    · rw [if_neg hsep, if_neg (by omega)]
      exact ih (Nat.le_of_lt hn) (by omega)

/-- With enough separators, the loop stops at the one that is asked for. -/
theorem scanLoop_stops (before : Char) (hn : n ≤ f.chars.length) (hpos : 0 < depth)
    (hmany : depth ≤ (separators f n : Int)) :
    ∃ pre ch post, f.chars.take n = pre ++ ch :: post ∧ isSeparator ch = true ∧
      ((post.countP isSeparator : Nat) : Int) + 1 = depth ∧
      (scanLoop f before n depth).i = pre.length ∧ (scanLoop f before n depth).depth = 0 := by
  induction n generalizing depth with
  | zero =>
    rw [separators, List.take_zero, List.countP_nil] at hmany
    omega
  | succ n ih =>
    have htake : f.chars.take (n + 1) = f.chars.take n ++ [f.chars[n]] := by
      rw [List.take_add_one, List.getElem?_eq_getElem hn, Option.toList_some]
    rw [separators_succ hn] at hmany
    rw [scanLoop_succ hn, htake]
    dsimp only
    split at hmany <;> rename_i hsep
    · rw [if_pos hsep]
      by_cases hlast : depth - 1 = 0
      · rw [if_pos hlast]
        refine ⟨f.chars.take n, f.chars[n], [], rfl, hsep, by simp; omega, ?_, hlast⟩
        rw [List.length_take, Nat.min_eq_left (Nat.le_of_lt hn)]
      · rw [if_neg hlast]
        obtain ⟨pre, ch, post, hsplit, hch, hcount, hi, hdepth⟩ :=
          ih (Nat.le_of_lt hn) (by omega : 0 < depth - 1) (by omega)
        refine ⟨pre, ch, post ++ [f.chars[n]], by rw [hsplit]; simp, hch, ?_, hi, hdepth⟩
        rw [List.countP_append, List.countP_singleton, if_pos hsep]
        omega
    · rw [if_neg hsep, if_neg (by omega)]
      obtain ⟨pre, ch, post, hsplit, hch, hcount, hi, hdepth⟩ :=
        ih (Nat.le_of_lt hn) hpos (by omega)
      refine ⟨pre, ch, post ++ [f.chars[n]], by rw [hsplit]; simp, hch, ?_, hi, hdepth⟩
      rw [List.countP_append, List.countP_singleton, if_neg hsep]
      omega

/-! ## The `int`s of the scan -/

/-- A value that is brought to an `int`. -/
def toInt32 (n : Int) : Int := (BitVec.ofInt 32 n).toInt

/-- The loop of `bio_logging_init` with `len` and `depth` as `int`s. It does not run for a negative `len`. -/
def scanInt (f : CString) (before : Char) (d : Int) : PathScan :=
  let depth := toInt32 (d + 1)
  let len := toInt32 f.chars.length
  if 0 ≤ len then scanLoop f before len.toNat depth
  else { i := len - 1, depth := depth, accesses := [] }

theorem toInt32_eq {n : Int} (hge : -2 ^ 31 ≤ n) (hlt : n < 2 ^ 31) : toInt32 n = n :=
  BitVec.toInt_ofInt_eq_self (by decide) hge hlt

/-- `INT_MAX` plus one is a negative count. -/
theorem toInt32_max : toInt32 (2 ^ 31) = -2 ^ 31 := by decide

/-- A loop that runs to its end looks at every character. -/
theorem scanLoop_all (h : (scanLoop f before n depth).i = -1) :
    (scanLoop f before n depth).accesses = (List.range n).reverse.map Int.ofNat := by
  induction n generalizing depth with
  | zero => rfl
  | succ n ih =>
    rw [List.range_succ, List.reverse_append, List.reverse_singleton, List.singleton_append, List.map_cons]
    unfold scanLoop at h ⊢
    dsimp only at h ⊢
    generalize (if isSeparator (f.charAt before n) then depth - 1 else depth) = depth' at h ⊢
    split at h
    · simp only at h
      omega
    · next hne =>
      rw [if_neg hne]
      exact congrArg (Int.ofNat n :: ·) (ih h)

/-- Of a name with fewer than `2 ^ 31` characters the loop with `int`s makes the same accesses, and it leaves
the same index and the same answer to whether the separator was found, which is all that is used of it. -/
theorem scanInt_eq (hlen : f.chars.length < 2 ^ 31) (before : Char) {d : Int} (hge : -2 ^ 31 ≤ d)
    (hlt : d < 2 ^ 31) :
    let scan := scanLoop f before f.chars.length (d + 1)
    (scanInt f before d).i = scan.i ∧ (scanInt f before d).accesses = scan.accesses ∧
      ((scanInt f before d).depth = 0 ↔ scan.depth = 0) := by
  have hscan : scanInt f before d = scanLoop f before f.chars.length (toInt32 (d + 1)) := by
    have hsame : toInt32 f.chars.length = f.chars.length := toInt32_eq (by omega) (by omega)
    unfold scanInt
    dsimp only
    rw [hsame, if_pos (Int.natCast_nonneg _), Int.toNat_natCast]
  intro scan
  rw [hscan]
  by_cases hmax : d + 1 < 2 ^ 31
  · rw [toInt32_eq (by omega) hmax]
    exact ⟨rfl, rfl, Iff.rfl⟩
  · -- A negative count, and one that is more than all separators.
    have heq : d + 1 = 2 ^ 31 := by omega
    have hcount : (separators f f.chars.length : Int) < d + 1 := by
      have hle : separators f f.chars.length ≤ (f.chars.take f.chars.length).length := List.countP_le_length
      rw [List.take_length] at hle
      omega
    obtain ⟨hi, hdepth⟩ := scanLoop_exhausts before (Nat.le_refl f.chars.length) (.inr hcount)
    have hneg : toInt32 (d + 1) < 0 := by
      rw [heq, toInt32_max]
      decide
    obtain ⟨hi', hdepth'⟩ := scanLoop_exhausts (f := f) before (Nat.le_refl f.chars.length) (.inl hneg)
    exact ⟨hi'.trans hi.symm, (scanLoop_all hi').trans (scanLoop_all hi).symm,
      iff_of_false hdepth' hdepth⟩

/-! ## The prefix -/

/-- The number of separators of a name. -/
def CString.separators (f : CString) : Nat := f.chars.countP isSeparator

theorem separators_length (f : CString) : Bio.separators f f.chars.length = f.separators := by
  rw [Bio.separators, List.take_length, CString.separators]

theorem take_memory {s : CString} (hn : n ≤ s.chars.length) : s.memory.take n = s.chars.take n :=
  List.take_append_of_le_length hn

/-- The prefix of a name with enough separators. -/
theorem loggingInit_enough {d : Int} (hd : 0 ≤ d) (hmany : d + 1 ≤ f.separators) (before : Char) :
    ∃ pre ch post, f.chars = pre ++ ch :: post ∧ isSeparator ch = true ∧
      ((post.countP isSeparator : Nat) : Int) = d ∧
      (loggingInit ⟨some f, d⟩ before).logPrefixLen = pre.length + 1 := by
  obtain ⟨pre, ch, post, hsplit, hch, hcount, hi, hdepth⟩ := scanLoop_stops before
    (Nat.le_refl f.chars.length) (Int.lt_add_one_of_le hd) (by rwa [separators_length])
  rw [List.take_length] at hsplit
  refine ⟨pre, ch, post, hsplit, hch, by omega, ?_⟩
  have hlt : pre.length < f.chars.length := by
    rw [hsplit, List.length_append, List.length_cons]
    omega
  have hat : f.charAt before pre.length = ch := by
    rw [charAt_lt hlt]
    simp [hsplit]
  unfold loggingInit
  dsimp only
  rw [hi, hat, if_pos hch, hdepth, if_pos ⟨rfl, by omega⟩]
  omega

theorem loggingInit_few {d : Int} (hfew : (f.separators : Int) < d + 1) (before : Char) :
    (loggingInit ⟨some f, d⟩ before).logPrefixLen = 0 := by
  obtain ⟨_, hdepth⟩ := scanLoop_exhausts before (Nat.le_refl f.chars.length)
    (.inr (by rwa [separators_length]) : d + 1 < 0 ∨ _)
  exact if_neg fun h => hdepth h.1

/-- The prefix is never longer than the name. -/
theorem loggingInit_le {d : Int} (hd : 0 ≤ d) (before : Char) :
    (loggingInit ⟨some f, d⟩ before).logPrefixLen ≤ f.chars.length := by
  rcases Int.lt_or_le (f.separators : Int) (d + 1) with hfew | hmany
  · rw [loggingInit_few hfew]
    exact Nat.zero_le _
  · obtain ⟨pre, ch, post, hsplit, _, _, hlen⟩ := loggingInit_enough hd hmany before
    rw [hlen, hsplit, List.length_append, List.length_cons]
    omega

theorem vlogFilename_eq {k : Nat} {d : Int} (hk : k ≤ f.chars.length) (g : CString) :
    vlogFilename ⟨some f, d⟩ k (some g) =
      if 0 < k ∧ f.chars.take k <+: g.chars then g.chars.drop k else g.chars := by
  unfold vlogFilename
  refine if_congr (and_congr_right fun _ => ?_) rfl rfl
  rw [Option.getD_some, Option.any_some, decide_eq_true_eq, take_memory hk]
  constructor
  · rintro ⟨hlen, heq⟩
    rw [take_memory hlen] at heq
    exact heq ▸ List.take_prefix k g.chars
  · intro hprefix
    have hlen : k ≤ g.chars.length := by
      have := hprefix.length_le
      rwa [List.length_take, Nat.min_eq_left hk] at this
    refine ⟨hlen, ?_⟩
    rw [take_memory hlen, List.prefix_iff_eq_take.mp hprefix, List.length_take, Nat.min_eq_left hk]

/-- The prefix ends behind the separator with `d` more separators behind it, and there is none when the
name has at most `d` separators. `bio_vlog` removes the prefix from the names that begin with it and
reports all others as they are. The scan is that of the code for names below `2 ^ 31` characters
(`scanInt_eq`). -/
theorem log_prefix_exact (f : CString) (d : Int) (hd : 0 ≤ d) (before : Char) :
    let logPrefixLen := (loggingInit ⟨some f, d⟩ before).logPrefixLen
    (d + 1 ≤ f.separators → ∃ pre ch post, f.chars = pre ++ ch :: post ∧ isSeparator ch = true ∧
      ((post.countP isSeparator : Nat) : Int) = d ∧ logPrefixLen = pre.length + 1) ∧
    ((f.separators : Int) < d + 1 → logPrefixLen = 0) ∧
    ∀ g : CString, vlogFilename ⟨some f, d⟩ logPrefixLen (some g) =
      if 0 < logPrefixLen ∧ f.chars.take logPrefixLen <+: g.chars then g.chars.drop logPrefixLen
      else g.chars := by
  intro logPrefixLen
  exact ⟨fun hmany => loggingInit_enough hd hmany before, fun hfew => loggingInit_few hfew before,
    vlogFilename_eq (loggingInit_le hd before)⟩

/-- The example of the documentation of `bio_log_options_t`. -/
theorem log_prefix_exact_project :
    let f : CString := ⟨"/home/u/project/src/main.c".toList, by decide⟩
    (loggingInit ⟨some f, 1⟩ 'x').logPrefixLen = 16 ∧
      vlogFilename ⟨some f, 1⟩ 16 (some ⟨"/home/u/project/src/file.c".toList, by decide⟩) =
        "src/file.c".toList ∧
      (1 + 1 ≤ (f.separators : Int) → ∃ pre ch post, f.chars = pre ++ ch :: post ∧
        isSeparator ch = true ∧ ((post.countP isSeparator : Nat) : Int) = 1 ∧
        (loggingInit ⟨some f, 1⟩ 'x').logPrefixLen = pre.length + 1) := by
  intro f
  exact ⟨by decide, by decide, (log_prefix_exact f 1 (by decide) 'x').1⟩

/-! ## The bounds -/

/-- The scan stops within the name: it finds the separator that it looks for, or it looks for none and the
name ends with another character. -/
def ScanStops (f : CString) (d : Int) : Prop :=
  (0 ≤ d ∧ d + 1 ≤ f.separators) ∨ (d = -1 ∧ ∃ ch ∈ f.chars.getLast?, isSeparator ch = false)

/-- A count of zero ends the loop at the last character, unless that is a separator. -/
theorem scanLoop_zero (before : Char) :
    (scanLoop f before f.chars.length 0).i ≠ -1 ↔ ∃ ch ∈ f.chars.getLast?, isSeparator ch = false := by
  rcases List.eq_nil_or_concat f.chars with hnil | ⟨rest, last, hlast⟩
  · rw [hnil]
    simp [scanLoop]
  · rw [List.concat_eq_append] at hlast
    have hlen : f.chars.length = rest.length + 1 := by rw [hlast, List.length_append]; rfl
    have hlt : rest.length < f.chars.length := by omega
    have hget : f.chars[rest.length] = last := by simp [hlast]
    have hsome : f.chars.getLast? = some last := by rw [hlast, List.getLast?_concat]
    rw [hlen, scanLoop_succ hlt, hget, hsome]
    dsimp only
    cases hsep : isSeparator last with
    | false => simp [hsep]
    | true =>
      have hexhausts := scanLoop_exhausts before (Nat.le_of_lt hlt) (.inl (by decide : (0 : Int) - 1 < 0))
      rw [if_pos rfl, if_neg (by decide)]
      exact iff_of_false (fun hne => hne hexhausts.1) (by simp [hsep])

theorem scan_i_nonneg_iff (f : CString) (d : Int) (before : Char) :
    (scanLoop f before f.chars.length (d + 1)).i ≠ -1 ↔ ScanStops f d := by
  have hn := Nat.le_refl f.chars.length
  unfold ScanStops
  rcases Int.lt_trichotomy (d + 1) 0 with hneg | hzero | hpos
  · exact iff_of_false (fun hne => hne (scanLoop_exhausts before hn (.inl hneg)).1) (by omega)
  · obtain rfl : d = -1 := by omega
    exact (scanLoop_zero before).trans (by simp)
  · rcases Int.lt_or_le (f.separators : Int) (d + 1) with hfew | hmany
    · rw [← separators_length] at hfew
      refine iff_of_false (fun hne => hne (scanLoop_exhausts before hn (.inr hfew)).1) ?_
      rw [separators_length] at hfew
      omega
    · obtain ⟨pre, _, _, _, _, _, hi, _⟩ := scanLoop_stops before hn hpos
        (by rwa [separators_length])
      exact iff_of_true (by omega) (.inl ⟨by omega, hmany⟩)

theorem scan_i_range (f : CString) (d : Int) (before : Char) (n : Nat) :
    -1 ≤ (scanLoop f before n d).i ∧ (scanLoop f before n d).i < n := by
  induction n generalizing d with
  | zero => exact ⟨Int.le_refl _, Int.negSucc_lt_zero 0⟩
  | succ n ih =>
    unfold scanLoop
    dsimp only
    generalize (if isSeparator (f.charAt before n) then d - 1 else d) = depth
    split
    · dsimp only
      omega
    · obtain ⟨hle, hlt⟩ := ih depth
      exact ⟨hle, Int.lt_trans hlt (by omega)⟩

/-- Every access of `bio_logging_init` to a name is within the name and its terminator exactly when the
scan stops in it. Else it reads the character in front of the name. The accesses are those of the code for
names below `2 ^ 31` characters (`scanInt_eq`). -/
theorem scan_in_bounds_iff (f : CString) (d : Int) (before : Char) :
    (∀ a ∈ (loggingInit ⟨some f, d⟩ before).accesses, 0 ≤ a ∧ a ≤ f.chars.length) ↔ ScanStops f d := by
  obtain ⟨hle, hlt⟩ := scan_i_range f (d + 1) before f.chars.length
  rw [← scan_i_nonneg_iff f d before]
  unfold loggingInit
  dsimp only
  constructor
  · intro h hi
    have hlast := (h _ (List.mem_append_right _ (List.mem_singleton_self _))).1
    rw [hi] at hlast
    exact absurd hlast (by decide)
  · intro hi a ha
    rcases List.mem_append.mp ha with ha | ha
    · obtain ⟨h₁, h₂⟩ := scanLoop_accesses f before _ _ a ha
      exact ⟨h₁, Int.le_of_lt h₂⟩
    · rw [List.mem_singleton.mp ha]
      omega

/-- `main.c` in no directory, with a depth of one. -/
theorem scan_out_of_bounds :
    let f : CString := ⟨"main.c".toList, by decide⟩
    (-1 : Int) ∈ (loggingInit ⟨some f, 1⟩ 'x').accesses ∧
      ¬(∀ a ∈ (loggingInit ⟨some f, 1⟩ 'x').accesses, 0 ≤ a ∧ a ≤ f.chars.length) := by
  intro f
  have hread : (-1 : Int) ∈ (loggingInit ⟨some f, 1⟩ 'x').accesses := by decide
  exact ⟨hread, fun h => absurd (h _ hread).1 (by decide)⟩

end Bio
