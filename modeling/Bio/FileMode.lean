import Mathlib.Tactic.Common

/-!
# The modes of `bio_fopen`

The mode string of `bio_fopen`, as `src/linux/file.c` and `src/windows/file.c` translate it, with the
system call that gets the flags and the position of the first write.

* A pointer into a string is the memory from there on, with the terminator. Behind it there is nothing
  to read.
* A file of the system is its size, `none` when it is missing.
* `CreateFileA` refuses a creation disposition that is zero.

Result: `modes_agree_iff`.
-/

namespace Bio

/-- The characters of a C string, without the terminator. -/
structure CString where
  chars : List Char
  notMem_nul : '\x00' ∉ chars

/-- What a pointer to the string points to. -/
def CString.memory (s : CString) : List Char := s.chars ++ ['\x00']

/-- A file of a known size that was opened, and where the first write to it goes. -/
structure OpenedFile where
  read : Bool
  write : Bool
  size : Nat
  firstWrite : Nat
deriving DecidableEq, Repr

/-- What comes of a call of `bio_fopen`. -/
inductive Fopen
  /-- it reads behind the terminator of the mode -/
  | overread
  /-- an invalid argument -/
  | rejected
  /-- there is no such file -/
  | missing
  | opened (file : OpenedFile)
deriving DecidableEq, Repr

/-! ## Linux -/

namespace Linux

/-- `O_RDONLY`, `O_WRONLY` and `O_RDWR`. -/
inductive AccessMode
  | rdonly | wronly | rdwr
deriving DecidableEq, Repr

/-- The flags of `open`. -/
structure OpenFlags where
  access : AccessMode
  creat : Bool
  trunc : Bool
  append : Bool
deriving DecidableEq, Repr

/-- "Translate mode string to open() flags". Only the first two characters count. -/
def openFlags (mode : List Char) : Option (Option OpenFlags) := do
  let first ← mode[0]?
  if first = 'r' then
    let second ← mode[1]?
    if second = '+' then return some ⟨.rdwr, false, false, false⟩
    else return some ⟨.rdonly, false, false, false⟩
  else if first = 'w' then
    let second ← mode[1]?
    if second = '+' then return some ⟨.rdwr, true, true, false⟩
    else return some ⟨.wronly, true, true, false⟩
  else if first = 'a' then
    let second ← mode[1]?
    if second = '+' then return some ⟨.rdwr, true, false, true⟩
    else return some ⟨.wronly, true, false, true⟩
  else return none

/-- `open`, and the `lseek` of `bio_fs_test_lseek`, which gives the offset of the file object. With
`O_APPEND` both go to the end. -/
def openFile (flags : OpenFlags) (file : Option Nat) : Fopen :=
  match if flags.creat then some (file.getD 0) else file with
  | some oldSize =>
    let size := if flags.trunc then 0 else oldSize
    .opened {
      read := flags.access ≠ .wronly
      write := flags.access ≠ .rdonly
      size := size
      firstWrite := if flags.append then size else 0 }
  | none => .missing

/-- `bio_fopen`. -/
def fopen (mode : CString) (file : Option Nat) : Fopen :=
  match openFlags mode.memory with
  | some (some flags) => openFile flags file
  | some none => .rejected
  | none => .overread

end Linux

/-! ## Windows -/

namespace Windows

/-- The values of `creation_disposition`. -/
inductive CreationDisposition
  | zero | createAlways | openExisting | openAlways
deriving DecidableEq, Repr

/-- The locals of `bio_fopen`: `GENERIC_READ` and `GENERIC_WRITE` of `desired_access`, and the bits of
`modeFlags`. -/
structure OpenMode where
  genericRead : Bool
  genericWrite : Bool
  creationDisposition : CreationDisposition
  read : Bool
  write : Bool
  append : Bool
deriving DecidableEq, Repr

/-- "Parse primary mode". The switch has no default. -/
def primary (c : Char) : OpenMode :=
  if c = 'r' then ⟨true, false, .openExisting, true, false, false⟩
  else if c = 'w' then ⟨false, true, .createAlways, false, true, false⟩
  else if c = 'a' then ⟨false, true, .openAlways, false, true, true⟩
  else ⟨false, false, .zero, false, false, false⟩

/-- The body of the loop over the additional flags: `b`, `t` and all others do nothing. -/
def OpenMode.modifier (m : OpenMode) (c : Char) : OpenMode :=
  if c = '+' then
    { m with
      genericRead := true
      genericWrite := true
      creationDisposition :=
        if m.read then .openExisting
        else if m.write && !m.append then .createAlways
        else if m.append then .openAlways
        else m.creationDisposition }
  else m

/-- "Parse additional flags", up to a zero. -/
def modifiers (m : OpenMode) : List Char → Option OpenMode
  | [] => none
  | c :: rest => if c = '\x00' then some m else modifiers (m.modifier c) rest

/-- The pointer is moved behind the first character, even if that is the terminator. -/
def openMode : List Char → Option OpenMode
  | [] => none
  | c :: rest => modifiers (primary c) rest

/-- `CreateFileA`, and `bio_fdopen`, which leaves the offset of the file object at zero. -/
def openFile (m : OpenMode) (file : Option Nat) : Fopen :=
  let opened (size : Nat) := Fopen.opened {
    read := m.genericRead
    write := m.genericWrite
    size := size
    firstWrite := 0 }
  match m.creationDisposition with
  | .zero => .rejected
  | .createAlways => opened 0
  | .openAlways => opened (file.getD 0)
  | .openExisting =>
    match file with
    | some size => opened size
    | none => .missing

/-- `bio_fopen`. -/
def fopen (mode : CString) (file : Option Nat) : Fopen :=
  match openMode mode.memory with
  | some m => openFile m file
  | none => .overread

end Windows

/-! ## The parsers -/

namespace Linux

theorem openFlags_cons (c : Char) (rest : List Char) :
    openFlags (c :: (rest ++ ['\x00'])) =
      some (if c = 'r' then
          some ⟨if rest.head? = some '+' then .rdwr else .rdonly, false, false, false⟩
        else if c = 'w' then
          some ⟨if rest.head? = some '+' then .rdwr else .wronly, true, true, false⟩
        else if c = 'a' then
          some ⟨if rest.head? = some '+' then .rdwr else .wronly, true, false, true⟩
        else none) := by
  have hsecond : ∃ second, (c :: (rest ++ ['\x00']))[1]? = some second ∧
      (second = '+' ↔ rest.head? = some '+') := by
    cases rest with
    | nil => exact ⟨'\x00', rfl, by decide⟩
    | cons second rest => exact ⟨second, rfl, by simp⟩
  obtain ⟨second, hread, hplus⟩ := hsecond
  simp only [openFlags, hread, List.getElem?_cons_zero, Option.bind_eq_bind, Option.bind_some,
    pure, hplus]
  split_ifs <;> rfl

end Linux

namespace Windows

/-- A second `+` changes nothing. -/
theorem modifier_modifier (m : OpenMode) : (m.modifier '+').modifier '+' = m.modifier '+' := by
  simp only [OpenMode.modifier, if_true]
  cases m.read <;> cases m.write <;> cases m.append <;> rfl

/-- The loop ends at the terminator, and only `+` counts, wherever it is. -/
theorem modifiers_terminated {rest : List Char} (hnul : '\x00' ∉ rest) (m : OpenMode) :
    modifiers m (rest ++ ['\x00']) = some (if '+' ∈ rest then m.modifier '+' else m) := by
  induction rest generalizing m with
  | nil => rfl
  | cons c rest ih =>
    obtain ⟨hc, hrest⟩ := not_or.mp (List.mem_cons.not.mp hnul)
    rw [List.cons_append, modifiers, if_neg (Ne.symm hc), ih hrest]
    by_cases hplus : c = '+'
    · subst hplus
      rw [modifier_modifier, ite_self, if_pos List.mem_cons_self]
    · have hsame : m.modifier c = m := if_neg hplus
      rw [hsame]
      simp [Ne.symm hplus]

theorem openMode_cons {c : Char} {rest : List Char} (hnul : '\x00' ∉ rest) :
    openMode (c :: (rest ++ ['\x00'])) =
      some (if '+' ∈ rest then (primary c).modifier '+' else primary c) :=
  modifiers_terminated hnul (primary c)

theorem openFile_opened {m : OpenMode} {file : Option Nat} {opened : OpenedFile}
    (hopen : openFile m file = .opened opened) :
    opened.read = m.genericRead ∧ opened.write = m.genericWrite := by
  unfold openFile at hopen
  dsimp only at hopen
  split at hopen
  · cases hopen
  · cases hopen
    exact ⟨rfl, rfl⟩
  · cases hopen
    exact ⟨rfl, rfl⟩
  · cases file with
    | none => cases hopen
    | some size =>
      cases hopen
      exact ⟨rfl, rfl⟩

theorem openFile_inside (m : OpenMode) (file : Option Nat) : openFile m file ≠ .overread := by
  unfold openFile
  dsimp only
  split
  · nofun
  · nofun
  · nofun
  · cases file <;> nofun

end Windows

/-! ## Agreement -/

/-- A character of the mode behind the first one is `+`. -/
def CString.update (mode : CString) : Prop := '+' ∈ mode.chars.tail

/-- The mode means the same on both systems, `+` grants both kinds of access, and nothing is read
behind the terminator. -/
structure ModesAgree (mode : CString) : Prop where
  same : ∀ file, Linux.fopen mode file = Windows.fopen mode file
  update : mode.update → ∀ file opened,
    Linux.fopen mode file = .opened opened ∨ Windows.fopen mode file = .opened opened →
      opened.read = true ∧ opened.write = true
  inside : ∀ file, Linux.fopen mode file ≠ .overread ∧ Windows.fopen mode file ≠ .overread

/-- The mode is not empty, it is not one that appends, and a `+` comes right behind the first
character. -/
def Portable : List Char → Prop
  | [] => False
  | c :: rest => c ≠ 'a' ∧ (c = 'r' ∨ c = 'w' → '+' ∈ rest → rest.head? = some '+')

theorem fopen_nil {mode : CString} (hmode : mode.chars = []) (file : Option Nat) :
    Windows.fopen mode file = .overread := by
  rw [Windows.fopen, CString.memory, hmode]
  rfl

section Cons

variable {mode : CString} {c : Char} {rest : List Char} (hmode : mode.chars = c :: rest)
include hmode

theorem CString.update_iff : mode.update ↔ '+' ∈ rest := by
  rw [CString.update, hmode, List.tail_cons]

theorem linux_fopen (file : Option Nat) : Linux.fopen mode file =
    if c = 'r' then
      Linux.openFile ⟨if rest.head? = some '+' then .rdwr else .rdonly, false, false, false⟩ file
    else if c = 'w' then
      Linux.openFile ⟨if rest.head? = some '+' then .rdwr else .wronly, true, true, false⟩ file
    else if c = 'a' then
      Linux.openFile ⟨if rest.head? = some '+' then .rdwr else .wronly, true, false, true⟩ file
    else .rejected := by
  rw [Linux.fopen, CString.memory, hmode, List.cons_append, Linux.openFlags_cons]
  split_ifs <;> rfl

theorem windows_fopen (file : Option Nat) : Windows.fopen mode file =
    Windows.openFile
      (if '+' ∈ rest then (Windows.primary c).modifier '+' else Windows.primary c) file := by
  have hnul : '\x00' ∉ rest := fun hmem => mode.notMem_nul (hmode ▸ List.mem_cons_of_mem c hmem)
  rw [Windows.fopen, CString.memory, hmode, List.cons_append, Windows.openMode_cons hnul]

end Cons

/-- A `+` behind the second character is missed on Linux. -/
theorem not_same_update {mode : CString} {c : Char} {rest : List Char} (hmode : mode.chars = c :: rest)
    (hc : c = 'r' ∨ c = 'w') (hplus : '+' ∈ rest) (hhead : rest.head? ≠ some '+') :
    Linux.fopen mode (some 0) ≠ Windows.fopen mode (some 0) := by
  rw [linux_fopen hmode, windows_fopen hmode, if_pos hplus]
  simp only [if_neg hhead]
  rcases hc with rfl | rfl <;> decide

/-- On Windows the first write of a mode that appends goes to the beginning. -/
theorem not_same_append {mode : CString} {rest : List Char} (hmode : mode.chars = 'a' :: rest) :
    Linux.fopen mode (some 1) ≠ Windows.fopen mode (some 1) := by
  rw [linux_fopen hmode, windows_fopen hmode, if_neg (by decide), if_neg (by decide), if_pos rfl]
  split_ifs <;> decide

/-- What the systems do with a mode that means the same on both. -/
theorem same_of_portable {mode : CString} {c : Char} {rest : List Char} (hmode : mode.chars = c :: rest)
    (hp : Portable (c :: rest)) (file : Option Nat) :
    Linux.fopen mode file = Windows.fopen mode file := by
  obtain ⟨happend, hhead⟩ := hp
  have hplus : c = 'r' ∨ c = 'w' → (rest.head? = some '+' ↔ '+' ∈ rest) :=
    fun hc => ⟨List.mem_of_mem_head?, hhead hc⟩
  rw [linux_fopen hmode, windows_fopen hmode]
  by_cases hr : c = 'r'
  · subst hr
    rw [if_pos rfl]
    simp only [hplus (.inl rfl)]
    cases file <;> split_ifs <;> rfl
  · by_cases hw : c = 'w'
    · subst hw
      rw [if_neg hr, if_pos rfl]
      simp only [hplus (.inr rfl)]
      cases file <;> split_ifs <;> rfl
    · have hprimary : Windows.primary c = ⟨false, false, .zero, false, false, false⟩ := by
        simp [Windows.primary, hr, hw, happend]
      rw [if_neg hr, if_neg hw, if_neg happend, hprimary]
      split_ifs <;> rfl

/-- An accepted mode with a `+` opens for reading and writing on Windows. -/
theorem windows_update {mode : CString} {c : Char} {rest : List Char} (hmode : mode.chars = c :: rest)
    (hplus : '+' ∈ rest) {file : Option Nat} {opened : OpenedFile}
    (hopen : Windows.fopen mode file = .opened opened) : opened.read = true ∧ opened.write = true := by
  rw [windows_fopen hmode, if_pos hplus] at hopen
  exact Windows.openFile_opened hopen

theorem windows_inside {mode : CString} {c : Char} {rest : List Char} (hmode : mode.chars = c :: rest)
    (file : Option Nat) : Windows.fopen mode file ≠ .overread := by
  rw [windows_fopen hmode]
  exact Windows.openFile_inside _ file

/-- The mode strings that mean the same on Linux and on Windows. -/
theorem modes_agree_iff (mode : CString) : ModesAgree mode ↔ Portable mode.chars := by
  cases hmode : mode.chars with
  | nil => exact iff_of_false (fun h => (h.inside none).2 (fopen_nil hmode none)) id
  | cons c rest =>
    constructor
    · intro h
      refine ⟨fun hc => ?_, fun hc hplus => ?_⟩
      · subst hc
        exact not_same_append hmode (h.same (some 1))
      · by_contra hhead
        exact not_same_update hmode hc hplus hhead (h.same (some 0))
    · intro hp
      have hsame := same_of_portable hmode hp
      refine ⟨hsame, fun hplus file opened hopen => ?_, fun file => ?_⟩
      · rw [hsame, or_self] at hopen
        exact windows_update hmode ((CString.update_iff hmode).mp hplus) hopen
      · rw [hsame]
        exact ⟨windows_inside hmode file, windows_inside hmode file⟩

/-- `"rb+"` opens for reading only on Linux. `"a"` overwrites the beginning of the file on Windows, and
the empty mode is read behind its end there. -/
theorem modes_disagree :
    let rb : CString := ⟨['r', 'b', '+'], by decide⟩
    let a : CString := ⟨['a'], by decide⟩
    Linux.fopen rb (some 5) = .opened ⟨true, false, 5, 0⟩ ∧
      Windows.fopen rb (some 5) = .opened ⟨true, true, 5, 0⟩ ∧ ¬ModesAgree rb ∧
      Linux.fopen a (some 5) = .opened ⟨false, true, 5, 5⟩ ∧
      Windows.fopen a (some 5) = .opened ⟨false, true, 5, 0⟩ ∧ ¬ModesAgree a ∧
      Windows.fopen ⟨[], by decide⟩ none = .overread := by
  intro rb a
  refine ⟨by decide, by decide, fun h => ?_, by decide, by decide, fun h => ?_, by decide⟩
  · exact absurd (h.same (some 5)) (by decide)
  · exact absurd (h.same (some 5)) (by decide)

end Bio
