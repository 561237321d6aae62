import NovaKernel.ShellWords
import NovaKernel.FatList
import NovaKernel.PrintfTexts

set_option autoImplicit false

namespace NovaKernel

namespace Shell

open Printf

def fatNameLen : Nat := 16
def fatMaxFiles : Nat := 32

def strncpyZeros (dst : Nat → Byte) (d : Nat) : Nat → Nat → Byte
  | 0 => dst
  | n + 1 => strncpyZeros (Function.update dst d 0) (d + 1) n

-- The NUL that ends the source does not count: a shorter string stores `n + 1` bytes.
def strncpyFrom (dst : Nat → Byte) (d : Nat) : List Byte → Nat → Nat → Byte
  | _, 0 => dst
  | [], n + 1 => strncpyZeros (Function.update dst d 0) (d + 1) (n + 1)
  | c :: src, n + 1 => strncpyFrom (Function.update dst d c) (d + 1) src n

def strncpy (dst : Nat → Byte) (src : List Byte) (n : Nat) : Nat → Byte := strncpyFrom dst 0 src n

def strcatFrom (dst : Nat → Byte) (d : Nat) : List Byte → Nat → Byte
  | [] => Function.update dst d 0
  | c :: src => strcatFrom (Function.update dst d c) (d + 1) src

def strcat (dst : Nat → Byte) (src : List Byte) : Nat → Byte :=
  strcatFrom dst (skipWhile (fun c => c ≠ 0) dst lineMax 0) src

/-- A call that stores to a char array, the bytes the array has, and whether the call stays in
arrays of its own. -/
structure BufWrite where
  cap : Nat
  run : (Nat → Byte) → Nat → Byte
  inside : (Nat → Byte) → Bool

def BufWrite.Safe (w : BufWrite) : Prop := Within w.cap w.run ∧ ∀ buf, w.inside buf = true

-- A call without arrays of its own.
def storeTo (cap : Nat) (run : (Nat → Byte) → Nat → Byte) : BufWrite := ⟨cap, run, fun _ => true⟩

def printTo (cap : Nat) (fmt : List Byte) (args : List Arg) : BufWrite where
  cap := cap
  run buf := (ksprintf fmt (vaList args) buf).buf
  inside buf := (ksprintf fmt (vaList args) buf).inside

/-- What the commands find: the disk, the stack below them, the buffer of `cmd_write`, and what `kmalloc` and
`user_spawn` return. -/
structure Env where
  ata : Ata
  vol : Volume
  io : Io
  stack : Nat → Byte
  buf : Nat → Byte
  img : Bool
  pid : Word

def elf : List Byte := chars ['.', 'e', 'l', 'f']

def fnameBase (name : List Byte) (dst : Nat → Byte) : Nat → Byte :=
  Function.update (strncpy dst name (fatNameLen - 1)) (fatNameLen - 1) 0

-- `strchr(fname, '.') == NULL`
def noDot (fname : Nat → Byte) : Bool := 0x2E#8 ∉ cString fname lineMax 0

def fname (name : List Byte) (dst : Nat → Byte) : Nat → Byte :=
  if noDot (fnameBase name dst) then strcat (fnameBase name dst) elf else fnameBase name dst

def runFormat : List Byte :=
  chars ['r', 'u', 'n', ':', ' ', '%', 's', ' ', 's', 't', 'a', 'r', 't', 'e', 'd', ' ', 'a', 's', ' ', 'p', 'i', 'd', ' ',
    '%', 'u', '\n']

def cmdRun (e : Env) (name : List Byte) : List BufWrite :=
  let file := cString (fname name e.stack) lineMax 0
  storeTo fatNameLen (fun dst => strncpy dst name (fatNameLen - 1)) ::
    ((if noDot (fnameBase name e.stack) then [storeTo fatNameLen fun dst => strcat (fnameBase name dst) elf] else []) ++
      if e.img ∧ (fatRead e.ata e.vol file 16384 e.io).1.isSome ∧ e.pid ≠ 0 then
        [printTo 80 runFormat [strArg file, numArg e.pid]]
      else [])

def nameFormat : List Byte :=
  chars ['n', 'a', 'm', 'e', ' ', ' ', ' ', ' ', ':', ' ', '%', 's', '\n']
def sizeFormat : List Byte :=
  chars ['s', 'i', 'z', 'e', ' ', ' ', ' ', ' ', ':', ' ', '%', 'u', ' ', 'b', 'y', 't', 'e', 's', '\n']
def clusterFormat : List Byte :=
  chars ['c', 'l', 'u', 's', 't', 'e', 'r', ' ', ':', ' ', '%', 'u', '\n']
def attrFormat : List Byte :=
  chars ['a', 't', 't', 'r', ' ', ' ', ' ', ' ', ':', ' ', '0', 'x', '%', 'x', '%', 's', '\n']
def directoryText : List Byte := chars [' ', '(', 'd', 'i', 'r', 'e', 'c', 't', 'o', 'r', 'y', ')']

def cmdStat (e : Env) (name : List Byte) : List BufWrite :=
  match (fatStat e.ata e.vol name e.io).1 with
  | none => []
  | some st =>
    [printTo 96 nameFormat [strArg name],
      printTo 96 sizeFormat [numArg (BitVec.ofNat 32 st.size)],
      printTo 96 clusterFormat [numArg (BitVec.ofNat 32 st.cluster)],
      printTo 96 attrFormat [numArg (st.attr.setWidth 32), strArg (if st.attr &&& 0x10 ≠ 0 then directoryText else [])]]

def rowFormat : List Byte :=
  chars [' ', ' ', '%', '-', '1', '4', 's', ' ', '%', '8', 'u', ' ', 'B', '\n']
def totalFormat : List Byte :=
  chars [' ', ' ', '%', 'u', ' ', 'f', 'i', 'l', 'e', '(', 's', ')', ',', ' ', '%', 'u', ' ', 'B', '\n']

def cmdLs (e : Env) : List BufWrite :=
  match (fatList e.ata e.vol fatMaxFiles e.io).1 with
  | none => []
  | some [] => []
  | some files =>
    files.map (fun file => printTo 64 rowFormat [strArg file.1, numArg (BitVec.ofNat 32 file.2)]) ++
      [printTo 64 totalFormat [numArg (BitVec.ofNat 32 files.length),
        numArg (BitVec.ofNat 32 (files.map Prod.snd).sum)]]

/-- What `cmd_write` passes to `fat_write`. -/
structure WriteJob where
  name : List Byte
  data : Nat → Byte
  total : Nat
  io : Io

-- The text behind the first `size` bytes of the buffer.
def addText (buf : Nat → Byte) (size : Nat) (text : List Byte) : Nat → Byte := fun i =>
  if size ≤ i ∧ i < size + text.length then text.getD (i - size) 0 else buf i

def writeJob (e : Env) (tail : List Byte) (append : Bool) : Option WriteJob :=
  match writeArgs tail with
  | none => none
  | some (name, text) =>
    if append then
      match fatStat e.ata e.vol name e.io with
      | (none, io) => some ⟨name, addText e.buf 0 text, text.length, io⟩
      | (some st, io) =>
        if 4096 - text.length < st.size then none
        else
          match fatRead e.ata e.vol name (4096 - text.length) io with
          | (none, _) => none
          | (some (size, out), io) =>
            let buf := fun i => if i < out.length then out.getD i 0 else e.buf i
            some ⟨name, addText buf size text, size + text.length, io⟩
    else some ⟨name, addText e.buf 0 text, text.length, e.io⟩

def WriteJob.written (e : Env) (job : WriteJob) : Bool :=
    (fatWrite e.ata e.vol job.name job.data job.total job.io).1

def wroteFormat : List Byte :=
  chars ['%', 's', ':', ' ', '%', 's', ' ', '(', '%', 'u', ' ', 'b', 'y', 't', 'e', 's', ')', '\n']
def wroteText : List Byte := chars ['w', 'r', 'o', 't', 'e']
def appendedText : List Byte := chars ['a', 'p', 'p', 'e', 'n', 'd', 'e', 'd']

def cmdWrite (e : Env) (tail : List Byte) (append : Bool) : List BufWrite :=
  match writeJob e tail append with
  | none => []
  | some job =>
    if job.written e then
      [printTo 96 wroteFormat [strArg (if append then appendedText else wroteText), strArg job.name,
        numArg (BitVec.ofNat 32 job.total)]]
    else []

def lsName : List Byte := chars ['l', 's']

/-- The stores to their buffers that the four commands make. -/
def bufWrites (e : Env) : Action → List BufWrite
  | .run name => cmdRun e name
  | .stat name => cmdStat e name
  | .simple c => if c = lsName then cmdLs e else []
  | .write tail append => cmdWrite e tail append
  | _ => []

/-- The names are short enough where they are printed. -/
def Fits (e : Env) : Action → Prop
  | .run name => 0x2E#8 ∈ name.take 15 ∨ name.length < 12
  | .stat name => (fatStat e.ata e.vol name e.io).1 = none ∨ name.length < 81
  | .write tail append => ∀ job ∈ writeJob e tail append, job.written e = true →
      job.name.length + (u32ToStr (BitVec.ofNat 32 job.total) 10 false).length < if append then 76 else 79
  | _ => True

theorem strncpyZeros_cell (dst : Nat → Byte) (d n i : Nat) :
    strncpyZeros dst d n i = if d ≤ i ∧ i < d + n then 0 else dst i := by
  induction n generalizing dst d with
  | zero => rw [if_neg (by omega)]; rfl
  | succ n ih =>
    rw [strncpyZeros, ih]
    by_cases here : i = d
    · subst here
      rw [if_neg (by omega), if_pos (by omega), Function.update_self]
    · rw [Function.update_of_ne here]
      by_cases later : d + 1 ≤ i ∧ i < d + 1 + n
      · rw [if_pos later, if_pos (by omega)]
      · rw [if_neg later, if_neg (by omega)]

theorem strncpyFrom_cell (dst : Nat → Byte) (d : Nat) (src : List Byte) (n i : Nat) :
    strncpyFrom dst d src n i =
      if d ≤ i ∧ i < d + (if src.length < n then n + 1 else n) then src.getD (i - d) 0 else dst i := by
  induction src generalizing dst d n with
  | nil =>
    cases n with
    | zero => rw [strncpyFrom, if_neg (by simp)]
    | succ n =>
      rw [strncpyFrom, strncpyZeros_cell, List.length_nil, if_pos (Nat.succ_pos n), List.getD_nil]
      by_cases here : i = d
      · subst here
        rw [if_neg (by omega), if_pos (by omega), Function.update_self]
      · rw [Function.update_of_ne here]
        by_cases later : d + 1 ≤ i ∧ i < d + 1 + (n + 1)
        · rw [if_pos later, if_pos (by omega)]
        · rw [if_neg later, if_neg (by omega)]
  | cons c src ih =>
    cases n with
    | zero => rw [strncpyFrom, if_neg (by simp)]
    | succ n =>
      rw [strncpyFrom, ih, List.length_cons]
      have more : (if src.length + 1 < n + 1 then n + 1 + 1 else n + 1) =
          (if src.length < n then n + 1 else n) + 1 := by
        split <;> split <;> omega
      rw [more]
      generalize (if src.length < n then n + 1 else n) = count
      by_cases here : i = d
      · subst here
        rw [if_neg (by omega), if_pos (by omega), Function.update_self, Nat.sub_self,
          List.getD_cons_zero]
      · rw [Function.update_of_ne here]
        by_cases later : d + 1 ≤ i ∧ i < d + 1 + count
        · rw [if_pos later, if_pos (by omega), show i - d = i - (d + 1) + 1 by omega,
            List.getD_cons_succ]
        · rw [if_neg later, if_neg (by omega)]

theorem strcatFrom_cell (dst : Nat → Byte) (d : Nat) (src : List Byte) (i : Nat) :
    strcatFrom dst d src i = if d ≤ i ∧ i ≤ d + src.length then src.getD (i - d) 0 else dst i := by
  induction src generalizing dst d with
  | nil =>
    rw [strcatFrom]
    by_cases here : i = d
    · subst here
      rw [if_pos (by simp), Function.update_self, List.getD_nil]
    · rw [Function.update_of_ne here, if_neg (by rw [List.length_nil]; omega)]
  | cons c src ih =>
    rw [strcatFrom, ih, List.length_cons]
    by_cases here : i = d
    · subst here
      rw [if_neg (by omega), if_pos (by omega), Function.update_self, Nat.sub_self,
        List.getD_cons_zero]
    · rw [Function.update_of_ne here]
      by_cases later : d + 1 ≤ i ∧ i ≤ d + 1 + src.length
      · rw [if_pos later, if_pos (by omega), show i - d = i - (d + 1) + 1 by omega,
          List.getD_cons_succ]
      · rw [if_neg later, if_neg (by omega)]

theorem str_of_cells {line : Nat → Byte} {s : Nat} {text : List Byte} (solid : ∀ c ∈ text, c ≠ 0)
    (cells : ∀ i ≤ text.length, line (s + i) = text.getD i 0) : Str line s text := by
  induction text generalizing s with
  | nil => exact cells 0 (Nat.le_refl 0)
  | cons c text ih =>
    obtain ⟨first, solid⟩ := List.forall_mem_cons.mp solid
    refine ⟨first, cells 0 (Nat.zero_le _), ih solid fun i low => ?_⟩
    have cell := cells (i + 1) (Nat.succ_le_succ low)
    rwa [List.getD_cons_succ, Nat.add_comm i, ← Nat.add_assoc] at cell

theorem strncpy_str {src : List Byte} (solid : ∀ c ∈ src, c ≠ 0) (dst : Nat → Byte) (n : Nat) :
    Str (Function.update (strncpy dst src n) n 0) 0 (src.take n) := by
  refine str_of_cells (fun c member => solid c (List.mem_of_mem_take member)) fun i low => ?_
  rw [List.length_take] at low
  rw [Nat.zero_add]
  by_cases last : i = n
  · subst last
    rw [Function.update_self, List.getD_eq_default _ _ (by rw [List.length_take]; omega)]
  · rw [Function.update_of_ne last, strncpy, strncpyFrom_cell, if_pos (by split <;>
      omega), Nat.sub_zero,
      List.getD_eq_getElem?_getD, List.getD_eq_getElem?_getD, List.getElem?_take_of_lt (by omega)]

theorem Str.cell {line : Nat → Byte} {s : Nat} {text : List Byte} (str : Str line s text) {i : Nat}
    (low : i ≤ text.length) : line (s + i) = text.getD i 0 := by
  induction text generalizing s i with
  | nil =>
    obtain rfl := Nat.le_zero.mp low
    exact str
  | cons c text ih =>
    cases i with
    | zero => exact str.2.1
    | succ i =>
      rw [List.getD_cons_succ, ← ih str.2.2 (Nat.le_of_succ_le_succ low), Nat.add_comm i,
        Nat.add_assoc]

section Strcat

variable {dst : Nat → Byte} {text : List Byte} (str : Str dst 0 text)
    (short : text.length ≤ lineMax)
include str short

theorem strcat_cell (src : List Byte) (i : Nat) : strcat dst src i =
    if text.length ≤ i ∧ i ≤ text.length + src.length then src.getD (i - text.length) 0 else dst i := by
  have stop : skipWhile (fun c => decide (c ≠ 0)) dst lineMax 0 = 0 + text.length := by
    have whole : Str dst 0 (text ++ []) := (List.append_nil text).symm ▸ str
    refine whole.skip (fun c member => by simpa using str.solid c member) ?_ short
    have ends := str.cell (Nat.le_refl _)
    simpa using ends
  rw [strcat, stop, Nat.zero_add, strcatFrom_cell]

theorem strcat_str {src : List Byte} (solid : ∀ c ∈ src, c ≠ 0) :
    Str (strcat dst src) 0 (text ++ src) := by
  refine str_of_cells (fun c member => ?_) fun i low => ?_
  · rcases List.mem_append.mp member with old | new
    · exact str.solid c old
    · exact solid c new
  · rw [Nat.zero_add, strcat_cell str short]
    rw [List.length_append] at low
    by_cases old : i < text.length
    · rw [if_neg (by omega), List.getD_append _ _ _ _ old]
      have cell := str.cell (Nat.le_of_lt old)
      rwa [Nat.zero_add] at cell
    · rw [if_pos (by omega), List.getD_append_right _ _ _ _ (by omega)]

end Strcat

theorem cString_length (line : Nat → Byte) (n s : Nat) : (cString line n s).length ≤ n := by
  induction n generalizing s with
  | zero => exact Nat.le_refl 0
  | succ n ih =>
    rw [cString]
    split
    next => exact Nat.zero_le _
    next => exact Nat.succ_le_succ (ih (s + 1))

theorem cString_solid (line : Nat → Byte) (n s : Nat) : ∀ c ∈ cString line n s, c ≠ 0 := by
  induction n generalizing s with
  | zero => simp [cString]
  | succ n ih =>
    rw [cString]
    split
    next => simp
    next some => exact List.forall_mem_cons.mpr ⟨some, ih (s + 1)⟩

section Fname

variable {name : List Byte} (solid : ∀ c ∈ name, c ≠ 0) (dst : Nat → Byte)

theorem strncpy_within (name : List Byte) :
    Within fatNameLen fun dst => strncpy dst name (fatNameLen - 1) := by
  intro dst i outside
  change strncpyFrom dst 0 name 15 i = dst i
  rw [strncpyFrom_cell, if_neg]
  simp only [fatNameLen] at outside
  split <;> omega

theorem fnameBase_outside (name : List Byte) {i : Nat} (outside : fatNameLen ≤ i) :
    fnameBase name dst i = dst i := by
  rw [fnameBase, Function.update_of_ne (by simp only [fatNameLen] at *; omega)]
  exact strncpy_within name dst i outside

include solid in
theorem fnameBase_str : Str (fnameBase name dst) 0 (name.take 15) := strncpy_str solid dst 15

theorem take_short (name : List Byte) : (name.take 15).length ≤ lineMax := by
  rw [List.length_take]
  simp only [lineMax]
  omega

include solid in
theorem noDot_iff : noDot (fnameBase name dst) = true ↔ 0x2E#8 ∉ name.take 15 := by
  rw [noDot, (fnameBase_str solid dst).cString (take_short name), decide_eq_true_eq]

include solid in
theorem strcat_within_iff : Within fatNameLen (fun dst => strcat (fnameBase name dst) elf) ↔
    name.length < 12 := by
  have cell : ∀ dst i, strcat (fnameBase name dst) elf i =
      if (name.take 15).length ≤ i ∧ i ≤ (name.take 15).length + elf.length
      then elf.getD (i - (name.take 15).length) 0 else fnameBase name dst i := fun dst =>
    strcat_cell (fnameBase_str solid dst) (take_short name) elf
  have four : elf.length = 4 := rfl
  rw [List.length_take, four] at cell
  constructor
  · intro within
    by_contra long
    -- The last NUL lands behind the array.
    have same : strcat (fnameBase name fun _ => 1) elf (min 15 name.length + 4) = 1 :=
      within (fun _ => 1) _ (by simp only [fatNameLen]; omega)
    rw [cell, if_pos (by omega), show min 15 name.length + 4 - min 15 name.length = 4 by omega] at same
    exact absurd same (by decide)
  · intro short dst i outside
    change strcat (fnameBase name dst) elf i = dst i
    rw [cell, if_neg (by simp only [fatNameLen] at outside; omega)]
    exact fnameBase_outside dst name outside

include solid in
theorem fname_length : (cString (fname name dst) lineMax 0).length < 20 := by
  have base := fnameBase_str solid dst
  have few : (name.take 15).length ≤ 15 := List.length_take_le 15 name
  rw [fname]
  split
  next =>
    have letters : ∀ c ∈ elf, c ≠ 0 := by decide
    have whole := strcat_str base (take_short name) letters
    have length : (name.take 15 ++ elf).length = (name.take 15).length + 4 := List.length_append
    rw [whole.cString (by simp only [lineMax]; omega)]
    omega
  next =>
    rw [base.cString (take_short name)]
    omega

end Fname

section Messages

theorem printTo_safe_iff {cap : Nat} {fmt text : List Byte} {args : List Arg}
    {strings : List (List Byte)} (expands : Expands fmt (vaList args) text strings)
    (short : text.length < 0x1000) :
    (printTo cap fmt args).Safe ↔ text.length < cap ∧ ∀ s ∈ strings, s.length ≤ 80 :=
  and_congr (expands.within_iff short cap)
    ⟨fun all => (expands.inside_iff short fun _ => 0).mp (all _), fun fits buf => (expands.inside_iff short buf).mpr fits⟩

theorem storeTo_safe_iff {cap : Nat} {run : (Nat → Byte) → Nat → Byte} :
    (storeTo cap run).Safe ↔ Within cap run :=
  and_iff_left fun _ => rfl

theorem decimal_length (v : Word) : (u32ToStr v 10 false).length ≤ 10 :=
  u32ToStr_length (Nat.le_refl 10) v false

theorem run_expands (file : List Byte) (pid : Word) :
    ∃ text, Expands runFormat (vaList [strArg file, numArg pid]) text [file] ∧
    text.length = file.length + (u32ToStr pid 10 false).length + 22 := by
  change ∃ text, Expands (chars ['r', 'u', 'n', ':', ' '] ++ (0x25#8 :: 0x73#8 :: (chars [' ', 's', 't', 'a', 'r', 't', 'e', 'd',
    ' ', 'a', 's', ' ', 'p', 'i', 'd', ' '] ++ (0x25#8 :: 0x75#8 :: (chars ['\n'] ++ []))))) _ text _ ∧ _
  refine ⟨_, .lits (by decide) (.plainStr file (.lits (by decide)
    (.plainUnsigned pid
      (.lits (by decide) (.nil _))))), ?_⟩
  simp [chars]
  omega

theorem name_expands (name : List Byte) :
    ∃ text, Expands nameFormat (vaList [strArg name]) text [name] ∧
    text.length = name.length + 11 := by
  change ∃ text, Expands (chars ['n', 'a', 'm', 'e', ' ', ' ', ' ', ' ', ':', ' '] ++ (0x25#8 :: 0x73#8 ::
    (chars ['\n'] ++ []))) _ text _ ∧ _
  refine ⟨_, .lits (by decide) (.plainStr name
    (.lits (by decide) (.nil _))), ?_⟩
  simp [chars]

theorem size_expands (size : Word) : ∃ text, Expands sizeFormat (vaList [numArg size]) text [] ∧
    text.length = (u32ToStr size 10 false).length + 17 := by
  change ∃ text, Expands (chars ['s', 'i', 'z', 'e', ' ', ' ', ' ', ' ', ':', ' '] ++ (0x25#8 :: 0x75#8 ::
    (chars [' ', 'b', 'y', 't', 'e', 's', '\n'] ++ []))) _ text _ ∧ _
  refine ⟨_, .lits (by decide) (.plainUnsigned size
    (.lits (by decide) (.nil _))), ?_⟩
  simp [chars]

theorem cluster_expands (cluster : Word) :
    ∃ text, Expands clusterFormat (vaList [numArg cluster]) text [] ∧
    text.length = (u32ToStr cluster 10 false).length + 11 := by
  change ∃ text, Expands (chars ['c', 'l', 'u', 's', 't', 'e', 'r', ' ', ':', ' '] ++ (0x25#8 :: 0x75#8 ::
    (chars ['\n'] ++ []))) _ text _ ∧ _
  refine ⟨_, .lits (by decide) (.plainUnsigned
    cluster (.lits (by decide) (.nil _))), ?_⟩
  simp [chars]

theorem attr_expands (attr : Word) (directory : List Byte) : ∃ text,
    Expands attrFormat (vaList [numArg attr, strArg directory]) text [directory] ∧
      text.length = (u32ToStr attr 16 false).length + directory.length + 13 := by
  change ∃ text, Expands (chars ['a', 't', 't', 'r', ' ', ' ', ' ', ' ', ':', ' ', '0', 'x'] ++ (0x25#8 :: 0x78#8 ::
    (chars [] ++ (0x25#8 :: 0x73#8 :: (chars ['\n'] ++ []))))) _ text _ ∧ _
  refine ⟨_, .lits (by decide) (.plainHex
    attr (.lits (by decide) (.plainStr directory
      (.lits (by decide) (.nil _))))), ?_⟩
  simp [chars]
  omega

theorem row_expands (name : List Byte) (size : Word) :
    ∃ text, Expands rowFormat (vaList [strArg name, numArg size]) text [name] ∧
    text.length = max 14 name.length + max 8 (u32ToStr size 10 false).length + 6 := by
  change ∃ text, Expands (chars [' ', ' '] ++ (0x25#8 :: 0x2D#8 :: 0x31#8 :: 0x34#8 :: 0x73#8 :: (chars [' '] ++
    (0x25#8 :: 0x38#8 :: 0x75#8 :: (chars [' ', 'B', '\n'] ++ []))))) _ text _ ∧ _
  have number : readSpec (0x38#8 :: 0x75#8 :: (chars [' ', 'B', '\n'] ++ [])) =
      (⟨false, false, 8, none⟩, 0x75#8 :: (chars [' ', 'B', '\n'] ++ [])) := rfl
  have string : readSpec (0x2D#8 :: 0x31#8 :: 0x34#8 :: 0x73#8 :: (chars [' '] ++
      (0x25#8 :: 0x38#8 :: 0x75#8 :: (chars [' ', 'B', '\n'] ++ [])))) =
        (⟨true, false, 14, none⟩, 0x73#8 :: (chars [' '] ++
      (0x25#8 :: 0x38#8 :: 0x75#8 :: (chars [' ', 'B', '\n'] ++ [])))) := rfl
  refine ⟨_, .lits (by decide) (.str string (by decide) name (.lits (by decide)
    (.unsigned number (.inl ⟨rfl, rfl⟩) (by decide) size (.lits (by decide) (.nil _))))), ?_⟩
  simp [chars]
  omega

theorem total_expands (count total : Word) :
    ∃ text, Expands totalFormat (vaList [numArg count, numArg total]) text [] ∧
    text.length = (u32ToStr count 10 false).length + (u32ToStr total 10 false).length + 15 := by
  change ∃ text, Expands (chars [' ', ' '] ++ (0x25#8 :: 0x75#8 :: (chars [' ', 'f', 'i', 'l', 'e', '(', 's', ')', ',', ' '] ++
    (0x25#8 :: 0x75#8 :: (chars [' ', 'B', '\n'] ++ []))))) _ text _ ∧ _
  refine ⟨_, .lits (by decide) (.plainUnsigned
    count (.lits (by decide) (.plainUnsigned total
      (.lits (by decide) (.nil _))))), ?_⟩
  simp [chars]
  omega

theorem wrote_expands (verb name : List Byte) (total : Word) : ∃ text,
    Expands wroteFormat (vaList [strArg verb, strArg name, numArg total]) text [verb, name] ∧
      text.length = verb.length + name.length + (u32ToStr total 10 false).length + 12 := by
  change ∃ text, Expands (chars [] ++ (0x25#8 :: 0x73#8 :: (chars [':', ' '] ++ (0x25#8 :: 0x73#8 :: (chars [' ', '('] ++
    (0x25#8 :: 0x75#8 :: (chars [' ', 'b', 'y', 't', 'e', 's', ')', '\n'] ++ []))))))) _ text _ ∧ _
  refine ⟨_, .lits (by decide) (.plainStr verb (.lits (by decide)
    (.plainStr name (.lits (by decide)
      (.plainUnsigned total
        (.lits (by decide) (.nil _))))))), ?_⟩
  simp [chars]
  omega

end Messages

def ShortNames (files : List (List Byte × Nat)) : Prop := ∀ file ∈ files, file.1.length < 16

theorem listName_short (e : Nat → Byte) : (listName e).length < 16 := by
  rw [listName]
  exact Nat.lt_succ_of_le (List.length_take_le 15 _)

theorem listEntries_short (max : Nat) (buf : Nat → Byte) (n off : Nat)
    (out : List (List Byte × Nat)) (short : ShortNames out) :
    ShortNames (listEntries max buf n off out).2 := by
  induction n generalizing off out with
  | zero => exact short
  | succ n ih =>
    rw [listEntries]
    split
    next =>
      split
      next => exact short
      next =>
        split
        next => exact ih _ _ short
        next =>
          split
          next => exact ih _ _ short
          next =>
            split
            next => exact ih _ _ short
            next =>
              refine ih _ _ fun file member => ?_
              rcases List.mem_append.mp member with old | new
              · exact short file old
              · rw [List.mem_singleton.mp new]
                exact listName_short _
    next => exact short

theorem listSectors_short (ata : Ata) (vol : Volume) (max n i : Nat) (out : List (List Byte × Nat))
    (s : Io) (short : ShortNames out) : ShortNames (listSectors ata vol max n i out s).1 := by
  induction n generalizing i out s with
  | zero => exact short
  | succ n ih =>
    rw [listSectors]
    split
    next =>
      split
      next => exact short
      next s' _ =>
        have more := listEntries_short max s'.secbuf 16 0 out short
        split
        next out' found =>
          rw [found] at more
          exact more
        next out' found =>
          rw [found] at more
          exact ih _ _ _ more
    next => exact short

theorem fatList_short {ata : Ata} {vol : Volume} {max : Nat} {s : Io}
    {files : List (List Byte × Nat)} (listed : (fatList ata vol max s).1 = some files) :
    ShortNames files := by
  rw [fatList] at listed
  split at listed
  next => cases listed
  next =>
    obtain rfl := Option.some.inj listed
    exact listSectors_short ata vol max _ 0 [] s fun file member => absurd member List.not_mem_nil

section Commands

variable (e : Env)

theorem cmdRun_safe_iff {name : List Byte} (solid : ∀ c ∈ name, c ≠ 0) :
    (∀ w ∈ cmdRun e name, w.Safe) ↔ 0x2E#8 ∈ name.take 15 ∨ name.length < 12 := by
  have copy : (storeTo fatNameLen fun dst => strncpy dst name (fatNameLen - 1)).Safe :=
    storeTo_safe_iff.mpr (strncpy_within name)
  have extension : (storeTo fatNameLen fun dst => strcat (fnameBase name dst) elf).Safe ↔
      name.length < 12 :=
    storeTo_safe_iff.trans (strcat_within_iff solid)
  have message : (printTo 80 runFormat [strArg (cString (fname name e.stack) lineMax 0), numArg e.pid]).Safe := by
    obtain ⟨text, expands, length⟩ := run_expands (cString (fname name e.stack) lineMax 0) e.pid
    have file := fname_length solid e.stack
    have digits := decimal_length e.pid
    refine (printTo_safe_iff expands (by omega)).mpr ⟨by omega, ?_⟩
    simp only [List.forall_mem_singleton]
    omega
  have last : ∀ w ∈ (if e.img ∧ (fatRead e.ata e.vol (cString (fname name e.stack) lineMax 0) 16384 e.io).1.isSome ∧ e.pid ≠ 0
      then [printTo 80 runFormat [strArg (cString (fname name e.stack) lineMax 0), numArg e.pid]] else []), w.Safe := by
    split
    next => simpa using message
    next => simp
  rw [cmdRun, List.forall_mem_cons]
  simp only [List.forall_mem_append, copy, true_and]
  by_cases dotted : 0x2E#8 ∈ name.take 15
  · have dot : noDot (fnameBase name e.stack) = false := by
      rw [← Bool.not_eq_true, noDot_iff solid]
      exact fun none' => none' dotted
    rw [if_neg (by simp [dot])]
    exact ⟨fun _ => .inl dotted, fun _ => ⟨fun w member => absurd member List.not_mem_nil, last⟩⟩
  · rw [if_pos ((noDot_iff solid e.stack).mpr dotted)]
    constructor
    · intro safe
      exact .inr (extension.mp (safe.1 _ (List.mem_singleton_self _)))
    · intro fits
      refine ⟨fun w member => ?_, last⟩
      rw [List.mem_singleton.mp member]
      exact extension.mpr (fits.resolve_left dotted)

theorem cmdStat_safe_iff {name : List Byte} (short : name.length ≤ lineMax) :
    (∀ w ∈ cmdStat e name, w.Safe) ↔ (fatStat e.ata e.vol name e.io).1 = none ∨
      name.length < 81 := by
  rw [cmdStat]
  cases found : (fatStat e.ata e.vol name e.io).1 with
  | none => simp
  | some st =>
    obtain ⟨text₁, expands₁, length₁⟩ := name_expands name
    obtain ⟨text₂, expands₂, length₂⟩ := size_expands (BitVec.ofNat 32 st.size)
    obtain ⟨text₃, expands₃, length₃⟩ := cluster_expands (BitVec.ofNat 32 st.cluster)
    obtain ⟨text₄, expands₄, length₄⟩ :=
      attr_expands (st.attr.setWidth 32) (if st.attr &&& 0x10 ≠ 0 then directoryText else [])
    have size := decimal_length (BitVec.ofNat 32 st.size)
    have cluster := decimal_length (BitVec.ofNat 32 st.cluster)
    have attr : (u32ToStr (st.attr.setWidth 32) 16 false).length ≤ 10 :=
      u32ToStr_length (by decide) _ false
    have directory : (if st.attr &&& 0x10 ≠ 0 then directoryText else []).length ≤ 12 := by
      split <;> decide
    simp only [lineMax] at short
    simp only [List.forall_mem_cons, List.not_mem_nil, false_implies, implies_true, and_true,
      printTo_safe_iff expands₁ (show _ < 0x1000 by omega),
      printTo_safe_iff expands₂ (show _ < 0x1000 by omega),
      printTo_safe_iff expands₃ (show _ < 0x1000 by omega),
      printTo_safe_iff expands₄ (show _ < 0x1000 by omega), reduceCtorEq, false_or]
    omega

theorem cmdLs_safe : ∀ w ∈ cmdLs e, w.Safe := by
  rw [cmdLs]
  split
  next => simp
  next => simp
  next files _ listed =>
    have short := fatList_short listed
    simp only [List.forall_mem_append, List.forall_mem_map, List.forall_mem_singleton]
    refine ⟨fun file member => ?_, ?_⟩
    · obtain ⟨text, expands, length⟩ := row_expands file.1 (BitVec.ofNat 32 file.2)
      have name := short file member
      have digits := decimal_length (BitVec.ofNat 32 file.2)
      refine (printTo_safe_iff expands (by omega)).mpr ⟨by omega, ?_⟩
      simp only [List.forall_mem_singleton]
      omega
    · obtain ⟨text, expands, length⟩ :=
        total_expands (BitVec.ofNat 32 files.length) (BitVec.ofNat 32 (files.map Prod.snd).sum)
      have count := decimal_length (BitVec.ofNat 32 files.length)
      have total := decimal_length (BitVec.ofNat 32 (files.map Prod.snd).sum)
      exact (printTo_safe_iff expands (by omega)).mpr ⟨by omega, by simp⟩

theorem writeArgs_length {tail name text : List Byte} (split : writeArgs tail = some (name, text)) :
    name.length ≤ tail.length := by
  rw [writeArgs] at split
  split at split
  next => cases split
  next =>
    obtain ⟨rfl, -⟩ := Prod.mk.inj (Option.some.inj split)
    exact Nat.le_trans (List.takeWhile_sublist _).length_le (List.dropWhile_sublist _).length_le

theorem writeJob_name {tail : List Byte} {append : Bool} {job : WriteJob}
    (prepared : writeJob e tail append = some job) :
    ∃ text, writeArgs tail = some (job.name, text) := by
  rw [writeJob] at prepared
  split at prepared
  next => cases prepared
  next name text parts =>
    refine ⟨text, parts.trans ?_⟩
    split at prepared
    next =>
      split at prepared
      next => rw [← Option.some.inj prepared]
      next =>
        split at prepared
        next => cases prepared
        next =>
          split at prepared
          next => cases prepared
          next => rw [← Option.some.inj prepared]
    next => rw [← Option.some.inj prepared]

theorem cmdWrite_safe_iff {tail : List Byte} (short : tail.length ≤ lineMax) (append : Bool) :
    (∀ w ∈ cmdWrite e tail append, w.Safe) ↔ ∀ job ∈ writeJob e tail append, job.written e = true →
      job.name.length + (u32ToStr (BitVec.ofNat 32 job.total) 10 false).length < if append then 76 else 79 := by
  rw [cmdWrite]
  cases prepared : writeJob e tail append with
  | none => simp
  | some job =>
    obtain ⟨text, parts⟩ := writeJob_name e prepared
    have name := writeArgs_length parts
    simp only [lineMax] at short
    have verb : (if append then appendedText else wroteText).length =
        if append then 8 else 5 := by cases append <;> rfl
    obtain ⟨text, expands, length⟩ :=
      wrote_expands (if append then appendedText else wroteText) job.name (BitVec.ofNat 32 job.total)
    have digits := decimal_length (BitVec.ofNat 32 job.total)
    rw [verb] at length
    have small : text.length < 0x1000 := by split at length <;> omega
    simp only [Option.mem_def, Option.some.injEq, forall_eq']
    by_cases written : job.written e = true
    · have verbs : appendedText.length = 8 ∧ wroteText.length = 5 := ⟨rfl, rfl⟩
      simp only [written, if_true, List.forall_mem_singleton, forall_true_left,
        printTo_safe_iff expands small, List.forall_mem_cons]
      cases append <;> simp at length ⊢ <;> omega
    · simp [written]

end Commands

theorem pushTail_length {tail : List Byte} (short : tail.length ≤ lineMax - 2) (word : List Byte) :
    (word.foldl pushTail tail).length ≤ lineMax - 2 := by
  induction word generalizing tail with
  | nil => exact short
  | cons c word ih =>
    rw [List.foldl_cons]
    refine ih ?_
    rw [pushTail]
    split
    next room =>
      rw [List.length_append, List.length_singleton]
      omega
    next => exact short

theorem rejoinFrom_length (args : List (List Byte)) {tail : List Byte}
    (short : tail.length ≤ lineMax - 2) :
    (rejoinFrom args tail).length ≤ lineMax - 2 := by
  induction args generalizing tail with
  | nil => exact short
  | cons arg args ih =>
    rw [rejoinFrom]
    split
    next =>
      have space : (pushTail tail 0x20#8).length ≤ lineMax - 2 := pushTail_length short [0x20#8]
      exact ih (pushTail_length space arg)
    next => exact short

theorem rejoin_length (args : List (List Byte)) : (rejoin args).length ≤ lineMax - 2 := by
  cases args with
  | nil => exact Nat.zero_le _
  | cons arg args => exact rejoinFrom_length args (pushTail_length (Nat.zero_le _) arg)

/-- What the four commands may be called with: strings of the line, or its operands joined. -/
def Operand (strings : List (List Byte)) : Action → Prop
  | .run name => name ∈ strings
  | .stat name => name ∈ strings
  | .write tail _ => tail.length ≤ lineMax - 2
  | _ => True

theorem operand_withOperand {strings : List (List Byte)} (args : List (List Byte))
    (message : String) {run : List Byte → Action}
    (good : ∀ name ∈ args, Operand strings (run name)) :
    Operand strings (withOperand args message run) := by
  cases args with
  | nil => trivial
  | cons name args => exact good name List.mem_cons_self

theorem operand_dispatch (c : List Byte) (args : List (List Byte)) :
    Operand args (dispatch c args) := by
  rw [dispatch]
  split
  next => trivial
  next =>
    split
    next => exact operand_withOperand args _ fun _ _ => trivial
    next =>
      split
      next => exact operand_withOperand args _ fun _ _ => trivial
      next =>
        split
        next => exact operand_withOperand args _ fun _ member => member
        next =>
          split
          next =>
            split
            next => trivial
            next => exact rejoin_length args
          next =>
            split
            next => exact operand_withOperand args _ fun _ _ => trivial
            next =>
              split
              next => exact operand_withOperand args _ fun _ member => member
              next => split <;> trivial

theorem operand_execute (line : Nat → Byte) : Operand (tokens line) (execute line) := by
  rw [execute]
  cases tokens line with
  | nil => trivial
  | cons c args =>
    have good := operand_dispatch c args
    change Operand (c :: args) (dispatch c args)
    generalize dispatch c args = action at good ⊢
    cases action with
    | run name => exact List.mem_cons_of_mem c good
    | stat name => exact List.mem_cons_of_mem c good
    | write tail append => exact good
    | _ => trivial

theorem mem_tokens {line : Nat → Byte} {word : List Byte} (member : word ∈ tokens line) :
    word.length ≤ lineMax ∧ ∀ c ∈ word, c ≠ 0 := by
  obtain ⟨s, -, rfl⟩ := List.mem_map.mp member
  exact ⟨cString_length _ _ _, cString_solid _ _ _⟩

/-- Every store stays in its buffer exactly if the names are short enough. -/
theorem bufWrites_safe_iff (e : Env) (line : Nat → Byte) :
    (∀ w ∈ bufWrites e (execute line), w.Safe) ↔ Fits e (execute line) := by
  have operand := operand_execute line
  cases action : execute line with
  | run name =>
    rw [action] at operand
    exact cmdRun_safe_iff e (mem_tokens operand).2
  | stat name =>
    rw [action] at operand
    exact cmdStat_safe_iff e (mem_tokens operand).1
  | write tail append =>
    rw [action] at operand
    exact cmdWrite_safe_iff e (Nat.le_trans operand (by decide)) append
  | simple c =>
    refine ⟨fun _ => trivial, fun _ => ?_⟩
    rw [bufWrites]
    split
    next => exact cmdLs_safe e
    next => simp
  | nothing | cat | hexdump | rm | echo | err | unknown => simp [bufWrites, Fits]

def bareEnv : Env where
  ata := ⟨fun _ io => (none, io), fun _ _ io => (false, io)⟩
  vol := ⟨false, 0, 0, 0, 0, 0, 1⟩
  io := ⟨fun _ => 0, fun _ => 0, 0⟩
  stack _ := 0
  buf _ := 0
  img := false
  pid := 0

def longRun : List Byte :=
  chars ['r', 'u', 'n', ' ', 'a', 'b', 'c', 'd', 'e', 'f', 'g', 'h', 'i', 'j', 'k', 'l']

theorem longRun_overruns : ¬ ∀ (e : Env) (line : Nat → Byte) (text : List Byte), Str line 0 text →
    text.length < lineMax →
    ∀ w ∈ bufWrites e (execute line), w.Safe := by
  intro all
  have safe := all bareEnv (lineOf longRun) longRun (str_lineOf (by decide)) (by decide)
  have action : execute (lineOf longRun) = .run (longRun.drop 4) := by decide +kernel
  rw [action] at safe
  have fits := (cmdRun_safe_iff bareEnv (by decide)).mp safe
  exact absurd fits (by decide)

end Shell

end NovaKernel
