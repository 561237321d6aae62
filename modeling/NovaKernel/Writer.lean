import NovaKernel.Userland
import NovaKernel.FatCapacity
import NovaKernel.UserPointers

set_option autoImplicit false

namespace NovaKernel

open Commands

namespace Userland

namespace Process

variable (ata : Ata) (vol : Volume) (p : Process)

def sysLseek (fd off whence : Word) : Word × Process :=
  let (pos, files) := NovaKernel.sysLseek fd off whence p.files
  (pos, { p with files })

def sysStat (name len sizeOut : Word) : Word × Process :=
  if !userRangeOk name len then (refused, p)
  else if len = 0 ∨ nameSize - 1 < len.toNat then (refused, p)
  else
    match fatStat ata vol (copyName p.mem name len) p.files.io with
    | (none, io) => (refused, { p with files := { p.files with io } })
    | (some stat, io) =>
      (0, { p with
        files := { p.files with io }
        mem := if sizeOut ≠ 0 ∧ userRangeOk sizeOut 4 then storeAt sizeOut (wordBytes stat.size) p.mem else p.mem })

end Process

/-- The variables on the stack that the kernel or `putu32` writes, each in its place. -/
structure Locals where
  c : Word
  buf : Word
  vb : Word
  size : Word
  c_valid : userRangeOk c 1 = true
  buf_valid : userRangeOk buf 128 = true
  vb_valid : userRangeOk vb 128 = true
  size_valid : userRangeOk size 4 = true
  c_buf : 128 ≤ (c - buf).toNat
  c_vb : 128 ≤ (c - vb).toNat
  c_size : 4 ≤ (c - size).toNat

def Locals.holds (l : Locals) (x : Word) : Prop :=
  x = l.c ∨ (x - l.buf).toNat < 128 ∨ (x - l.vb).toNat < 128 ∨ (x - l.size).toNat < 4

section Programs

variable (ata : Ata) (vol : Volume) (text : String → Word) (l : Locals) (pid : Word)

def lseek (fd off whence : Word) : Prog Word := Command.call fun p => p.sysLseek fd off whence

def stat (name len sizeOut : Word) : Prog Word :=
  Command.call fun p => p.sysStat ata vol name len sizeOut

def load (a : Word) : Prog Byte := Command.call fun p => (p.mem a, p)

def load32 (a : Word) : Prog Word := Command.call fun p =>
  (BitVec.ofNat 32 (u32Of (fun i => p.mem (a + BitVec.ofNat 32 i)) 0), p)

def store32 (a v : Word) : Prog Unit := Command.call fun p =>
  ((), { p with mem := storeAt a (wordBytes v.toNat) p.mem })

def writerLines : List String := ["novaos ring3 log\n", "written via int 0x80\n", "end of file\n"]

-- The loop over the lines; `none` when the process has exited in it.
def writeLines (fd : Word) : List String → Word → Prog (Option Word)
  | [], total => pure (some total)
  | line :: rest, total => do
    let n ← slen (text line)
    let w ← write fd (text line) n
    if w ≠ n then
      putstr (text "[writer] short write!\n")
      let _ ← close ata vol fd
      return none
    writeLines fd rest (total + w)

-- From the loop on; the value is the one for `exit`.
def writerBack (fd : Word) : Prog Unit := do
  let pos ← lseek fd 0 0
  putstr (text "[writer] lseek -> ")
  putu32 l.c pos
  putstr (text "\n")
  let got ← read fd l.buf 128
  putstr (text "[writer] read back ")
  putu32 l.c got
  putstr (text " bytes:\n")
  if got ≠ refused ∧ 0 < got then
    poke (l.buf + if got < 127 then got else 127) 0
    putstr (text "----\n")
    let _ ← write 1 l.buf got
    putstr (text "----\n")

def writerClose (fd : Word) : Prog Unit := do
  let rc ← close ata vol fd
  putstr (text "[writer] close -> ")
  putu32 l.c rc
  putstr (text "\n")

def writerStat (nlen total : Word) : Prog Unit := do
  store32 l.size 0
  let st ← stat ata vol (text "log.txt") nlen l.size
  if st = 0 then
    putstr (text "[writer] stat: log.txt = ")
    putu32 l.c (← load32 l.size)
    putstr (text " bytes on disk\n")
    if (← load32 l.size) ≠ total then
      putstr (text "[writer] MISMATCH: size differs from what we wrote\n")
    else
      putstr (text "[writer] size matches what we wrote\n")
  else
    putstr (text "[writer] stat failed\n")

def writerReopen (nlen total : Word) : Prog Unit := do
  let fd2 ← openFile ata vol (text "log.txt") nlen 0
  if fd2 ≠ refused then
    let n ← read fd2 l.vb 128
    putstr (text "[writer] reopen: read ")
    putu32 l.c n
    putstr (text " bytes\n")
    let _ ← close ata vol fd2
    let first ← load l.vb
    if n = total ∧ ¬ (n = 0 ∨ first ≠ 0x6E) then
      putstr (text "[writer] content verified\n")
    else
      putstr (text "[writer] content mismatch\n")
  else
    putstr (text "[writer] reopen failed\n")

def writerStart : Prog Word := do
  putstr (text "[writer] pid=")
  putu32 l.c pid
  putstr (text " ring-3 file writer\n")
  let nlen ← slen (text "log.txt")
  let fd ← openFile ata vol (text "log.txt") nlen (oCreat ||| oTrunc ||| oWronly)
  if fd = refused then
    putstr (text "[writer] open(O_CREAT) failed\n")
    return 1
  putstr (text "[writer] created log.txt as fd=")
  putu32 l.c fd
  putstr (text "\n")
  match ← writeLines ata vol text fd writerLines 0 with
  | none => return 2
  | some total =>
    putstr (text "[writer] wrote ")
    putu32 l.c total
    putstr (text " bytes\n")
    writerBack text l fd
    writerClose ata vol text l fd
    writerStat ata vol text l nlen total
    writerReopen ata vol text l nlen total
    putstr (text "[writer] leaving log.txt on disk for inspection\n")
    putstr (text "[writer] done\n")
    return 0

end Programs

theorem u32Of_wordBytes {n : Nat} (small : n < 2 ^ 32) {b : Nat → Byte}
    (same : ∀ i < 4, b i = (wordBytes n).getD i 0) : u32Of b 0 = n := by
  have byte : ∀ i < 4, (b i).toNat = n / 2 ^ (8 * i) % 256 := by
    intro i low
    have low' : i < (wordBytes n).length := by
      rw [wordBytes, List.length_map, List.length_range]
      exact low
    rw [same i low, List.getD_eq_getElem _ _ low']
    simp only [wordBytes, List.getElem_map, List.getElem_range, BitVec.toNat_ofNat]
  have b0 := byte 0 (by decide)
  have b1 := byte (0 + 1) (by decide)
  have b2 := byte (0 + 2) (by decide)
  have b3 := byte (0 + 3) (by decide)
  have small₀ : n / 2 ^ (8 * 0) % 256 < 2 ^ 8 := by omega
  have small₁ : n / 2 ^ (8 * 0) % 256 + 2 ^ 8 * (n / 2 ^ (8 * (0 + 1)) % 256) < 2 ^ 16 := by omega
  have small₂ : n / 2 ^ (8 * 0) % 256 + 2 ^ 8 * (n / 2 ^ (8 * (0 + 1)) % 256) +
      2 ^ 16 * (n / 2 ^ (8 * (0 + 2)) % 256) < 2 ^ 24 := by omega
  rw [u32Of, b0, b1, b2, b3, or_shift _ _ small₀, or_shift _ _ small₁, or_shift _ _ small₂]
  omega

/-- An open file with these bytes, to be written back. -/
structure Unwritten (f : OpenFile) (path bytes : List Byte) : Prop where
  held : Held f bytes
  writable : f.writable = true
  dirty : f.dirty = true
  name : f.name = path

section Entries

variable {f : OpenFile} {path bytes : List Byte} (unwritten : Unwritten f path bytes)

include unwritten

theorem Unwritten.write {new : List Byte} {mem : UserMem} {a : Word}
    (chars : bytesAt mem a new.length = new) (room : bytes.length + new.length ≤ 2048) :
    ∃ g, (OpenFile.at f bytes.length).write mem a (BitVec.ofNat 32 new.length) =
        (BitVec.ofNat 32 new.length, OpenFile.at g (bytes ++ new).length) ∧
          Unwritten g path (bytes ++ new) := by
  have here : (OpenFile.at f bytes.length).pos.toNat = bytes.length := by
    rw [OpenFile.at, BitVec.toNat_ofNat, Nat.mod_eq_of_lt (by omega)]
  have spec := OpenFile.write_spec (f := OpenFile.at f bytes.length) (by omega) mem a
    (BitVec.ofNat 32 new.length)
  have count : min (BitVec.ofNat 32 new.length).toNat (2048 - bytes.length) = new.length := by
    rw [BitVec.toNat_ofNat, Nat.mod_eq_of_lt (by omega)]
    omega
  rw [here, count] at spec
  obtain ⟨stored, pos, size, data, used, writable⟩ := spec
  generalize written : (OpenFile.at f bytes.length).write mem a (BitVec.ofNat 32 new.length) = r
    at stored pos size data used writable
  obtain ⟨n, g⟩ := r
  obtain rfl : n = BitVec.ofNat 32 new.length := stored
  have kept : g.dirty = true ∧ g.name = f.name := by
    have entry : g = ((OpenFile.at f bytes.length).write mem a (BitVec.ofNat 32 new.length)).2 := by
      rw [written]
    rw [entry]
    exact ⟨rfl, rfl⟩
  have place : OpenFile.at g (bytes ++ new).length = g := by
    have number : BitVec.ofNat 32 (bytes ++ new).length = g.pos := by
      rw [List.length_append, ← pos, BitVec.ofNat_toNat, BitVec.setWidth_eq]
    rw [OpenFile.at, number]
  refine ⟨g, by rw [place], ⟨used.trans unwritten.held.used, ?_, ?_, ?_⟩,
    writable.trans unwritten.writable, kept.1,
    kept.2.trans unwritten.name⟩
  · have whole : (OpenFile.at f bytes.length).size.toNat = bytes.length := unwritten.held.size
    rw [size, whole, List.length_append]
    omega
  · rw [List.length_append]
    exact room
  · refine List.ext_getElem (by rw [List.length_map, List.length_range]) fun i low low' => ?_
    rw [List.length_map, List.length_range, List.length_append] at low
    rw [List.getElem_map, List.getElem_range, data,
      storeBytes_eq _ _ mem a (by rw [here]; exact room), here]
    by_cases old : i < bytes.length
    · have before := List.getElem_of_eq unwritten.held.data (i := i) (by
        rw [List.length_map, List.length_range]
        exact old)
      rw [List.getElem_map, List.getElem_range] at before
      rw [if_neg (by omega), List.getElem_append_left old]
      exact before
    · have char := List.getElem_of_eq chars (i := i - bytes.length) (by
        rw [bytesAt_length]
        omega)
      simp only [bytesAt, List.getElem_map, List.getElem_range] at char
      rw [if_pos ⟨by omega, low⟩, List.getElem_append_right (by omega)]
      exact char

end Entries

section Calls

variable {ata : Ata} {vol : Volume} {mem : UserMem} {a : Word} {path : List Byte}

theorem openLog_cases (literal : Literal mem a path) (some' : path ≠ [])
    (short : path.length < nameSize) (s : Files) :
    (allocFd s = none ∧
      NovaKernel.sysOpen ata vol mem a (BitVec.ofNat 32 path.length) (oCreat ||| oTrunc ||| oWronly) s =
        (refused, s)) ∨
      ∃ fd f, allocFd s = some fd ∧ Unwritten f path [] ∧
        NovaKernel.sysOpen ata vol mem a (BitVec.ofNat 32 path.length) (oCreat ||| oTrunc ||| oWronly) s =
          (BitVec.ofNat 32 fd, { s with io := (fatReadBuf ata vol path 2048 s.io).2 }.set fd (OpenFile.at f 0)) := by
  have length : (BitVec.ofNat 32 path.length).toNat = path.length := by
    rw [BitVec.toNat_ofNat, Nat.mod_eq_of_lt literal.short]
  have nonzero : BitVec.ofNat 32 path.length ≠ 0 := by
    intro same
    have number := congrArg BitVec.toNat same
    rw [length] at number
    exact some' (List.eq_nil_of_length_eq_zero number)
  have width : nameSize = 32 := rfl
  have fits : ¬ (BitVec.ofNat 32 path.length = 0 ∨ nameSize - 1 < (BitVec.ofNat 32 path.length).toNat) := by
    rw [length]
    exact fun bad => bad.elim nonzero (by omega)
  have flags : (oCreat ||| oTrunc ||| oWronly) &&& oCreat ≠ 0 ∧
    (oCreat ||| oTrunc ||| oWronly) &&& oTrunc ≠ 0 ∧
      (oCreat ||| oTrunc ||| oWronly) &&& (oWronly ||| oCreat ||| oTrunc) ≠ 0 := by decide
  obtain ⟨creat, trunc, any⟩ := flags
  have cap : ofileCap.toNat = 2048 := rfl
  rw [NovaKernel.sysOpen, if_neg fits]
  simp only [literal.inside, literal.copyName, cap, Bool.not_true, Bool.false_eq_true, if_false]
  cases free : allocFd s with
  | none => exact .inl ⟨rfl, rfl⟩
  | some fd =>
    dsimp only
    generalize fatReadBuf ata vol path 2048 s.io = r
    have missing : ¬ (r.1.1 = none ∧ (oCreat ||| oTrunc ||| oWronly) &&& oCreat = 0) :=
      fun h => creat h.2
    let f : OpenFile :=
      { used := true, writable := true, dirty := true, size := 0, pos := 0, name := path,
        data := fun i => r.1.2.getD i ((s.ofiles fd).data i) }
    refine .inr ⟨fd, f, rfl, ⟨⟨rfl, rfl, Nat.zero_le _, rfl⟩, rfl, rfl, rfl⟩, ?_⟩
    rw [if_neg missing, set_set, if_pos trunc, decide_eq_true any, decide_eq_true trunc]
    rfl

variable {fd : Nat} {f : OpenFile} {bytes : List Byte} {s : Files}

theorem allocFd_free (file : fdFirstFile ≤ fd) (slot : fd < maxOpenFiles)
    (unused : (s.ofiles fd).used = false) :
    (allocFd s).isSome := by
  refine List.find?_isSome.mpr ⟨fd, ?_, by rw [unused]; rfl⟩
  simp only [fdFirstFile, maxOpenFiles] at file slot
  interval_cases fd <;> decide

theorem sysWriteFile_log (slot : fd < maxOpenFiles) (unwritten : Unwritten f path bytes)
    (entry : s.ofiles fd = OpenFile.at f bytes.length) {new : List Byte}
    (literal : Literal mem a new) (room : bytes.length + new.length ≤ 2048) :
    ∃ g, sysWriteFile mem (BitVec.ofNat 32 fd) a (BitVec.ofNat 32 new.length) s =
        (BitVec.ofNat 32 new.length, s.set fd (OpenFile.at g (bytes ++ new).length)) ∧
      Unwritten g path (bytes ++ new) := by
  obtain ⟨g, written, unwritten'⟩ := unwritten.write literal.chars room
  have used : (OpenFile.at f bytes.length).used = true := unwritten.held.used
  have writable : (OpenFile.at f bytes.length).writable = true := unwritten.writable
  have inside : ¬ maxOpenFiles ≤ fd := Nat.not_le_of_lt slot
  refine ⟨g, ?_, unwritten'⟩
  simp only [sysWriteFile, slot_number slot, if_neg inside, entry, used, writable, literal.inside,
    written, Bool.not_true,
    Bool.or_self, Bool.false_eq_true, if_false]

theorem sysClose_log (slot : fd < maxOpenFiles) (unwritten : Unwritten f path bytes) (pos : Nat)
    {ok : Bool} {io : Io}
    (written : fatWrite ata vol path f.data bytes.length s.io = (ok, io)) :
    ∃ closed : OpenFile, closed.used = false ∧
      NovaKernel.sysClose ata vol (BitVec.ofNat 32 fd) (s.set fd (OpenFile.at f pos)) =
        (if ok then 0 else refused, { s with io }.set fd closed) := by
  have inside : ¬ maxOpenFiles ≤ fd := Nat.not_le_of_lt slot
  have used : (OpenFile.at f pos).used = true := unwritten.held.used
  have dirty : (OpenFile.at f pos).dirty = true := unwritten.dirty
  have stored : fatWrite ata vol (OpenFile.at f pos).name (OpenFile.at f pos).data (OpenFile.at f pos).size.toNat
      (s.set fd (OpenFile.at f pos)).io = (ok, io) := by
    rw [← written, ← unwritten.held.size, ← unwritten.name]
    rfl
  have entry := Files.set_same s fd (OpenFile.at f pos)
  refine ⟨{ OpenFile.at f pos with used := false, writable := false, dirty := false }, rfl, ?_⟩
  have synced : sysSync ata vol fd (s.set fd (OpenFile.at f pos)) = (if ok then 1 else refused,
      { s with io := io }.set fd (if ok then { OpenFile.at f pos with dirty := false } else OpenFile.at f pos)) := by
    rw [sysSync, if_neg inside]
    simp only [entry, used, dirty, stored, Bool.not_true, Bool.or_self, Bool.false_eq_true, if_false]
    cases ok with
    | false => rfl
    | true =>
      simp only [Files.set, Function.update_idem]
      rfl
  have open' : ¬ (!((s.set fd (OpenFile.at f pos)).ofiles fd).used) = true := by
    rw [entry, used]
    decide
  rw [NovaKernel.sysClose, slot_number slot, if_neg inside, if_neg open', synced]
  have answers : ¬ (1 : Word) = refused := by decide
  cases ok with
  | false =>
    simp only [Files.set_same, set_set, Bool.false_eq_true, if_false, if_true]
  | true =>
    simp only [Files.set_same, set_set, if_true, if_neg answers]

end Calls

section Lines

variable {ata : Ata} {vol : Volume} {text : String → Word} {mem : UserMem} {screen : List Byte}
    {fd : Nat}
  {path : List Byte}

theorem writeLines_ends (slot : fd < maxOpenFiles) (file : fdFirstFile ≤ fd) (lines : List String)
    (literal : ∀ t ∈ lines, Literal mem (text t) (Mkdata.ascii t)) {s : Files} {f : OpenFile}
    {bytes : List Byte} (unwritten : Unwritten f path bytes)
    (room : bytes.length + (lines.flatMap Mkdata.ascii).length ≤ 2048) :
    Ends (writeLines ata vol text (BitVec.ofNat 32 fd) lines (BitVec.ofNat 32 bytes.length))
      ⟨mem, s.set fd (OpenFile.at f bytes.length), screen⟩ fun total q =>
        total = some (BitVec.ofNat 32 (bytes ++ lines.flatMap Mkdata.ascii).length) ∧
          ∃ g, Unwritten g path (bytes ++ lines.flatMap Mkdata.ascii) ∧
            ⟨mem, s.set fd (OpenFile.at g (bytes ++ lines.flatMap Mkdata.ascii).length), screen⟩ = q := by
  induction lines generalizing f bytes with
  | nil =>
    simp only [List.flatMap_nil, List.append_nil]
    exact Ends.pure ⟨rfl, f, unwritten, rfl⟩
  | cons line rest ih =>
    rw [List.flatMap_cons, List.length_append] at room
    have here := literal line (List.mem_cons_self ..)
    have console : ¬ BitVec.ofNat 32 fd < 3 := by
      rw [BitVec.lt_def, slot_number slot]
      simp only [fdFirstFile] at file
      exact Nat.not_lt_of_le file
    obtain ⟨g, stored, unwritten'⟩ :=
      sysWriteFile_log slot unwritten (Files.set_same s fd _) here (by omega)
    rw [set_set] at stored
    refine slen_then here (Ends.call_bind (by rw [Process.sysWrite, if_neg console, stored]) ?_)
    have total : BitVec.ofNat 32 bytes.length + BitVec.ofNat 32 (Mkdata.ascii line).length =
        BitVec.ofNat 32 (bytes ++ Mkdata.ascii line).length := by
      rw [List.length_append, BitVec.ofNat_add]
    have same : ¬ BitVec.ofNat 32 (Mkdata.ascii line).length ≠ BitVec.ofNat 32 (Mkdata.ascii line).length :=
      fun other => other rfl
    rw [if_neg same, total, List.flatMap_cons, ← List.append_assoc]
    refine ih (fun t member => literal t (List.mem_cons_of_mem _ member)) unwritten' ?_
    rw [List.length_append]
    omega

def logText : List Byte := writerLines.flatMap Mkdata.ascii

def writerTexts : List String :=
  ["log.txt", "[writer] pid=", " ring-3 file writer\n", "[writer] open(O_CREAT) failed\n",
    "[writer] created log.txt as fd=", "\n", "[writer] short write!\n", "[writer] wrote ", " bytes\n",
    "[writer] lseek -> ", "[writer] read back ", " bytes:\n", "----\n", "[writer] close -> ",
    "[writer] stat: log.txt = ", " bytes on disk\n", "[writer] MISMATCH: size differs from what we wrote\n",
    "[writer] size matches what we wrote\n", "[writer] stat failed\n", "[writer] reopen: read ",
    "[writer] content verified\n", "[writer] content mismatch\n", "[writer] reopen failed\n",
    "[writer] leaving log.txt on disk for inspection\n", "[writer] done\n"] ++ writerLines

variable {l : Locals} (constants : Constants text writerTexts l.holds mem) {s : Files}
    {f : OpenFile} {bytes : List Byte}

include constants

-- The constants outlive what changes the variable of `putu32` only.
theorem keepC {mem' : UserMem} (kept : ∀ x, x ≠ l.c → mem' x = mem x) :
    Constants text writerTexts l.holds mem' :=
  constants.keep fun x out => kept x fun here => out (.inl here)

theorem writerBack_ends (slot : fd < maxOpenFiles) (held : Held f bytes) (some' : bytes ≠ [])
    (short : bytes.length < 127) (pos : Nat) :
    Ends (writerBack text l (BitVec.ofNat 32 fd)) ⟨mem, s.set fd (OpenFile.at f pos), screen⟩ fun _ q =>
      ∃ mem', Constants text writerTexts l.holds mem' ∧
        ⟨mem', s.set fd (OpenFile.at f bytes.length),
        screen ++ (Mkdata.ascii "[writer] lseek -> " ++ decimalText 0 ++ Mkdata.ascii "\n" ++
          Mkdata.ascii "[writer] read back " ++ decimalText (BitVec.ofNat 32 bytes.length) ++
          Mkdata.ascii " bytes:\n" ++ Mkdata.ascii "----\n" ++ bytes ++ Mkdata.ascii "----\n")⟩ = q := by
  have seek : NovaKernel.sysLseek (BitVec.ofNat 32 fd) 0 0 (s.set fd (OpenFile.at f pos)) =
      (0, s.set fd (OpenFile.at f 0)) := by
    have inside : ¬ maxOpenFiles ≤ fd := Nat.not_le_of_lt slot
    have used : (OpenFile.at f pos).used = true := held.used
    have start : (OpenFile.at f pos).lseek 0 0 = OpenFile.at f 0 := rfl
    simp only [NovaKernel.sysLseek, slot_number slot, if_neg inside, Files.set_same, used, start,
      set_set, Bool.not_true,
      Bool.false_eq_true, if_false]
    rfl
  have count : (128 : Word).toNat = 128 := rfl
  have all : (bytes.drop 0).take (128 : Word).toNat = bytes := by
    rw [List.drop_zero, count, List.take_of_length_le (by omega)]
  have next : 0 + min (128 : Word).toNat (bytes.length - 0) = bytes.length := by omega
  have number : (BitVec.ofNat 32 bytes.length).toNat = bytes.length := by
    rw [BitVec.toNat_ofNat, Nat.mod_eq_of_lt (by omega)]
  have positive : 0 < bytes.length := List.length_pos_of_ne_nil some'
  refine Ends.call_bind (by rw [Process.sysLseek, seek]) ?_
  refine putstr_then (constants.literal "[writer] lseek -> " (by simp [writerTexts])) ?_
  refine putu32_then l.c_valid 0 fun mem₁ kept₁ => ?_
  have constants₁ := keepC constants kept₁
  refine putstr_then (constants₁.literal "\n" (by simp [writerTexts])) ?_
  refine read_then slot held (Nat.zero_le _) l.buf_valid ?_
  rw [all, next]
  have constants₂ : Constants text writerTexts l.holds (storeAt l.buf bytes mem₁) :=
    constants₁.keep fun x out => storeAt_kept (by
      by_contra inside
      exact out (.inr (.inl (by omega))))
  refine putstr_then (constants₂.literal "[writer] read back " (by simp [writerTexts])) ?_
  refine putu32_then l.c_valid _ fun mem₃ kept₃ => ?_
  have constants₃ := keepC constants₂ kept₃
  refine putstr_then (constants₃.literal " bytes:\n" (by simp [writerTexts])) ?_
  have answered : BitVec.ofNat 32 bytes.length ≠ refused ∧ 0 < BitVec.ofNat 32 bytes.length := by
    refine ⟨ne_refused (by omega), ?_⟩
    rw [BitVec.lt_def, number]
    exact positive
  have below : BitVec.ofNat 32 bytes.length < 127 := by
    rw [BitVec.lt_def, number]
    exact short
  rw [if_pos answered, if_pos below]
  refine poke_then ?_
  -- The NUL goes behind the bytes that were read.
  have nul : ∀ x, x ≠ l.buf + BitVec.ofNat 32 bytes.length →
      storeAt (l.buf + BitVec.ofNat 32 bytes.length) [0] mem₃ x = mem₃ x :=
    fun x other => storeAt_one other
  have constants₄ : Constants text writerTexts l.holds (storeAt (l.buf + BitVec.ofNat 32 bytes.length) [0] mem₃) := by
    refine constants₃.keep fun x out => nul x fun here => out (.inr (.inl ?_))
    rw [here, Libc.offset_self, number]
    omega
  have echoed : bytesAt (storeAt (l.buf + BitVec.ofNat 32 bytes.length) [0] mem₃) l.buf bytes.length = bytes := by
    refine (bytesAt_congr fun i low => ?_).trans (bytesAt_storeAt bytes (by omega) mem₁)
    have index : (BitVec.ofNat 32 i).toNat = i := by
      rw [BitVec.toNat_ofNat, Nat.mod_eq_of_lt (by omega)]
    refine (nul _ fun same => ?_).trans (kept₃ _ fun here => ?_)
    · have value := congrArg (fun x => (x - l.buf).toNat) same
      simp only [Libc.offset_self, index, number] at value
      omega
    · have outside := l.c_buf
      rw [← here, Libc.offset_self, index] at outside
      omega
  refine putstr_then (constants₄.literal "----\n" (by simp [writerTexts])) ?_
  refine write_then (userRangeOk_mono l.buf_valid (by rw [BitVec.le_def, number, count]; omega)) ?_
  rw [number, echoed]
  refine putstr_ends (constants₄.literal "----\n" (by simp [writerTexts])) ⟨_, constants₄, ?_⟩
  simp only [List.append_assoc]

theorem writerClose_ends (slot : fd < maxOpenFiles) (unwritten : Unwritten f path bytes) (pos : Nat)
    {ok : Bool} {io : Io} (written : fatWrite ata vol path f.data bytes.length s.io = (ok, io)) :
    Ends (writerClose ata vol text l (BitVec.ofNat 32 fd)) ⟨mem, s.set fd (OpenFile.at f pos), screen⟩ fun _ q =>
      ∃ mem' closed, Constants text writerTexts l.holds mem' ∧ closed.used = false ∧
        ⟨mem', { s with io := io }.set fd closed, screen ++ (Mkdata.ascii "[writer] close -> " ++
          decimalText (if ok then 0 else refused) ++ Mkdata.ascii "\n")⟩ = q := by
  obtain ⟨closed, unused, call⟩ := sysClose_log slot unwritten pos written
  refine Ends.call_bind (by rw [Process.sysClose, call]) ?_
  refine putstr_then (constants.literal "[writer] close -> " (by simp [writerTexts])) ?_
  refine putu32_then l.c_valid _ fun mem' kept => ?_
  have constants' := keepC constants kept
  refine putstr_ends (constants'.literal "\n" (by simp [writerTexts])) ⟨mem', closed, constants', unused, ?_⟩
  simp only [List.append_assoc]

end Lines

section Disk

variable {faults : Faults} {vol : Volume} {text : String → Word} {mem : UserMem}
    {screen : List Byte} {l : Locals}
  {files : FileMap} {reserved : Nat} {bytes : List Byte} {s : Files}

def logName : List Byte := Mkdata.ascii "log.txt"

def statOutput (bytes : List Byte) : Bool → List Byte
  | true => Mkdata.ascii "[writer] stat: log.txt = " ++ decimalText (BitVec.ofNat 32 bytes.length) ++
      Mkdata.ascii " bytes on disk\n" ++ Mkdata.ascii "[writer] size matches what we wrote\n"
  | false => Mkdata.ascii "[writer] stat failed\n"

def reopenOutput (bytes : List Byte) : Bool → List Byte
  | true => Mkdata.ascii "[writer] reopen: read " ++ decimalText (BitVec.ofNat 32 bytes.length) ++
      Mkdata.ascii " bytes\n" ++ Mkdata.ascii "[writer] content verified\n"
  | false => Mkdata.ascii "[writer] reopen failed\n"

variable (geo : Geometry vol) (reliable : Reliable faults)
  (constants : Constants text writerTexts l.holds mem) (stores : Stores vol s.io.disk files reserved)
  {ok : Bool} (found : files (normName logName) = if ok then some bytes else none) (short : bytes.length < 127)

include geo reliable constants stores found short

theorem writerStat_ends :
    Ends (writerStat (device faults) vol text l (BitVec.ofNat 32 logName.length) (BitVec.ofNat 32 bytes.length))
      ⟨mem, s, screen⟩ fun _ q => ∃ mem' io', Constants text writerTexts l.holds mem' ∧
        Stores vol io'.disk files reserved ∧
        (⟨mem', { s with io := io' }, screen ++ statOutput bytes ok⟩ : Process) = q := by
  have inside : ∀ (bytes : List Byte), bytes.length = 4 → ∀ (m : UserMem) x, ¬ l.holds x →
      storeAt l.size bytes m x = m x := by
    intro bytes four m x out
    refine storeAt_kept ?_
    by_contra here
    exact out (.inr (.inr (.inr (by omega))))
  have four : ∀ n, (wordBytes n).length = 4 :=
    fun n => by rw [wordBytes, List.length_map, List.length_range]
  refine Ends.call_bind rfl ?_
  have constants₁ : Constants text writerTexts l.holds (storeAt l.size (wordBytes (0 : Word).toNat) mem) :=
    constants.keep (inside _ (four _) mem)
  generalize storeAt l.size (wordBytes (0 : Word).toNat) mem = mem₁ at constants₁
  have name : Literal mem₁ (text "log.txt") logName := constants₁.literal "log.txt" (by simp [writerTexts])
  have seven : logName.length = 7 := by decide +kernel
  have long : (BitVec.ofNat 32 logName.length).toNat = 7 := by rw [seven]; rfl
  have fits : ¬ (BitVec.ofNat 32 logName.length = 0 ∨ nameSize - 1 < (BitVec.ofNat 32 logName.length).toNat) := by
    rw [seven]
    decide
  obtain ⟨answer, stores'⟩ := StoreCall.onDisk_bounded geo reliable stores (.stat logName) trivial
  simp only [StoreCall.onDisk] at answer stores'
  generalize call : fatStat (device faults) vol logName s.io = r at answer stores'
  obtain ⟨st, io'⟩ := r
  have sizes : st.map Stat.size = (files (normName logName)).map List.length :=
    StoreResult.size.inj answer
  have kept : Stores vol io'.disk files reserved := stores'
  rw [found] at sizes
  cases ok with
  | false =>
    obtain rfl : st = none := Option.map_eq_none_iff.mp sizes
    refine Ends.call_bind (a := refused) (t := ⟨mem₁, { s with io := io' }, screen⟩) ?_ ?_
    · rw [Process.sysStat, name.inside, if_neg fits, name.copyName, call]
      rfl
    · have failed : ¬ refused = (0 : Word) := by decide
      rw [if_neg failed]
      exact putstr_ends (constants₁.literal "[writer] stat failed\n" (by simp [writerTexts]))
        ⟨_, io', constants₁, kept, rfl⟩
  | true =>
    obtain ⟨st, rfl, size⟩ := Option.map_eq_some_iff.mp sizes
    have place : l.size ≠ 0 ∧ userRangeOk l.size 4 = true := by
      refine ⟨fun zero => ?_, l.size_valid⟩
      have valid := l.size_valid
      rw [zero] at valid
      exact absurd valid (by decide)
    refine Ends.call_bind (a := 0)
      (t := ⟨storeAt l.size (wordBytes bytes.length) mem₁, { s with io := io' }, screen⟩)
      ?_ ?_
    · rw [Process.sysStat, name.inside, if_neg fits, name.copyName, call]
      simp only [if_pos place, size]
      rfl
    have constants₂ := constants₁.keep (inside (wordBytes bytes.length) (four _) mem₁)
    -- The bytes of the size outlast the digits that are printed.
    have loaded : ∀ mem' : UserMem, (∀ x, x ≠ l.c → mem' x = storeAt l.size (wordBytes bytes.length) mem₁ x) →
        BitVec.ofNat 32 (u32Of (fun i => mem' (l.size + BitVec.ofNat 32 i)) 0) =
          BitVec.ofNat 32 bytes.length := by
      intro mem' kept'
      refine congrArg (BitVec.ofNat 32) (u32Of_wordBytes (by omega) fun i low => ?_)
      have index : (BitVec.ofNat 32 i).toNat = i := by
        rw [BitVec.toNat_ofNat, Nat.mod_eq_of_lt (by omega)]
      have other : l.size + BitVec.ofNat 32 i ≠ l.c := by
        intro here
        have outside := l.c_size
        rw [← here, Libc.offset_self, index] at outside
        omega
      have low' : i < (wordBytes bytes.length).length := by rw [four]; exact low
      rw [kept' _ other, storeAt, Libc.offset_self, index, List.getD_eq_getElem _ _ low',
        List.getD_eq_getElem _ _ low']
    rw [if_pos rfl]
    refine putstr_then (constants₂.literal "[writer] stat: log.txt = " (by simp [writerTexts])) ?_
    refine Ends.call_bind rfl ?_
    rw [loaded _ fun _ _ => rfl]
    refine putu32_then l.c_valid _ fun mem₃ kept₃ => ?_
    have constants₃ := keepC constants₂ kept₃
    refine putstr_then (constants₃.literal " bytes on disk\n" (by simp [writerTexts])) ?_
    refine Ends.call_bind rfl ?_
    rw [loaded _ kept₃, if_neg fun other => other rfl]
    refine putstr_ends (constants₃.literal "[writer] size matches what we wrote\n" (by simp [writerTexts]))
      ⟨_, io', constants₃, kept, ?_⟩
    simp only [statOutput, List.append_assoc]

theorem writerReopen_ends (free : (allocFd s).isSome) (starts : bytes.head? = some 0x6E) :
    Ends (writerReopen (device faults) vol text l (BitVec.ofNat 32 logName.length) (BitVec.ofNat 32 bytes.length))
      ⟨mem, s, screen⟩ fun _ q => ∃ mem' s', Constants text writerTexts l.holds mem' ∧
        Stores vol s'.io.disk files reserved ∧ Undisturbed s s' ∧
        (⟨mem', s', screen ++ reopenOutput bytes ok⟩ : Process) = q := by
  have name : Literal mem (text "log.txt") logName := constants.literal "log.txt" (by simp [writerTexts])
  obtain ⟨found', unchanged⟩ := opens_represents geo reliable logName stores.1
  have usable : logName ≠ [] ∧ logName.length < nameSize ∧ (allocFd s).isSome :=
    ⟨by decide +kernel, by decide +kernel, free⟩
  rw [if_pos usable, found] at found'
  have positive : 0 < bytes.length := by
    rw [List.length_pos_iff]
    rintro rfl
    cases starts
  rcases open_cases (device faults) vol name s with ⟨s', failed, none', undisturbed, io⟩ |
    ⟨fd, f, bytes', slot, unused, held, clean, opened, call⟩
  · refine Ends.call_bind (a := refused) (t := ⟨mem, s', screen⟩)
      (by rw [Process.sysOpen, failed]) ?_
    rw [if_neg fun other => other rfl]
    have kept : Stores vol s'.io.disk files reserved := by
      rcases io with same | once
      · rw [same]
        exact stores
      · rw [once, unchanged]
        exact stores
    cases ok with
    | true =>
      rw [none'] at found'
      cases found'
    | false =>
      exact putstr_ends (constants.literal "[writer] reopen failed\n" (by simp [writerTexts]))
        ⟨_, s', constants, kept, undisturbed, rfl⟩
  · cases ok with
    | false =>
      rw [opened] at found'
      cases found'
    | true =>
      have same : bytes' = bytes := by
        rw [opened, if_pos rfl, Option.map_some, List.take_of_length_le (by omega)] at found'
        exact Option.some.inj found'
      subst same
      refine Ends.call_bind (a := BitVec.ofNat 32 fd) (t := ⟨mem, { s with
        io := (fatReadBuf (device faults) vol logName 2048 s.io).2 }.set fd (OpenFile.at f 0), screen⟩)
        (by rw [Process.sysOpen, call]) ?_
      rw [if_pos (slot_answered slot)]
      have count : (128 : Word).toNat = 128 := rfl
      have all : (bytes'.drop 0).take (128 : Word).toNat = bytes' := by
        rw [List.drop_zero, count, List.take_of_length_le (by omega)]
      refine read_then slot held (Nat.zero_le _) l.vb_valid ?_
      rw [all]
      have constants₁ : Constants text writerTexts l.holds (storeAt l.vb bytes' mem) :=
        constants.keep fun x out => storeAt_kept (by
          by_contra inside
          exact out (.inr (.inr (.inl (by omega)))))
      refine putstr_then (constants₁.literal "[writer] reopen: read " (by simp [writerTexts])) ?_
      refine putu32_then l.c_valid _ fun mem₂ kept₂ => ?_
      have constants₂ := keepC constants₁ kept₂
      refine putstr_then (constants₂.literal " bytes\n" (by simp [writerTexts])) ?_
      have used : (OpenFile.at f (0 + min (128 : Word).toNat (bytes'.length - 0))).used =
          true := held.used
      have unwritten : (OpenFile.at f (0 + min (128 : Word).toNat (bytes'.length - 0))).dirty =
          false := clean
      refine Ends.call_bind (by rw [Process.sysClose, sysClose_clean (device faults) vol slot used unwritten
        (Files.set_same _ fd _), set_set]) ?_
      refine Ends.call_bind rfl ?_
      have first : mem₂ l.vb = 0x6E := by
        have other : l.vb ≠ l.c := by
          intro here
          have outside := l.c_vb
          rw [← here, BitVec.sub_self] at outside
          exact absurd outside (by decide)
        rw [kept₂ _ other, storeAt, BitVec.sub_self]
        cases bytes' with
        | nil => cases starts
        | cons b rest => exact Option.some.inj starts
      have nonempty : ¬ (BitVec.ofNat 32 bytes'.length = 0 ∨ mem₂ l.vb ≠ 0x6E) := by
        rintro (zero | other)
        · have number := congrArg BitVec.toNat zero
          rw [BitVec.toNat_ofNat, Nat.mod_eq_of_lt (by omega)] at number
          have none'' : (0 : Word).toNat = 0 := rfl
          omega
        · exact other first
      rw [if_pos ⟨rfl, nonempty⟩]
      refine putstr_ends (constants₂.literal "[writer] content verified\n" (by simp [writerTexts]))
        ⟨_, { s with io := (fatReadBuf (device faults) vol logName 2048 s.io).2 }.set fd
          { OpenFile.at f (0 + min (128 : Word).toNat (bytes'.length - 0)) with
            used := false, writable := false, dirty := false },
          constants₂, ?_, undisturbed_set unused rfl _, ?_⟩
      · change Stores vol (fatReadBuf (device faults) vol logName 2048 s.io).2.disk files reserved
        rw [unchanged]
        exact stores
      · simp only [reopenOutput, List.append_assoc]

end Disk

/-- What the program prints: the number of the descriptor is known when there is one, and the file is on the disk or
there was no room for it. -/
def writerOutput (pid : Word) (slot : Option Nat) (ok : Bool) : List Byte :=
  Mkdata.ascii "[writer] pid=" ++ decimalText pid ++ Mkdata.ascii " ring-3 file writer\n" ++
    match slot with
    | none => Mkdata.ascii "[writer] open(O_CREAT) failed\n"
    | some fd =>
      Mkdata.ascii "[writer] created log.txt as fd=" ++ decimalText (BitVec.ofNat 32 fd) ++ Mkdata.ascii "\n" ++
        Mkdata.ascii "[writer] wrote " ++ decimalText (BitVec.ofNat 32 logText.length) ++ Mkdata.ascii " bytes\n" ++
        (Mkdata.ascii "[writer] lseek -> " ++ decimalText 0 ++ Mkdata.ascii "\n" ++
          Mkdata.ascii "[writer] read back " ++ decimalText (BitVec.ofNat 32 logText.length) ++
          Mkdata.ascii " bytes:\n" ++ Mkdata.ascii "----\n" ++ logText ++ Mkdata.ascii "----\n") ++
        (Mkdata.ascii "[writer] close -> " ++ decimalText (if ok then 0 else refused) ++ Mkdata.ascii "\n") ++
        statOutput logText ok ++ reopenOutput logText ok ++
        Mkdata.ascii "[writer] leaving log.txt on disk for inspection\n" ++ Mkdata.ascii "[writer] done\n"

section Writes

variable {faults : Faults} {vol : Volume} {text : String → Word} {l : Locals} {p : Process}
  {files : FileMap} {reserved : Nat}

/-- On a well-formed volume writer.elf stores its log and verifies it when there is a descriptor and room for the
file, and says so when there is not, with the volume as it was. -/
theorem writer_stores (geo : Geometry vol) (reliable : Reliable faults)
    (stores : Stores vol p.files.io.disk files reserved)
    (constants : Constants text writerTexts l.holds p.mem) (pid : Word) {ok : Bool}
    (room : ok = true ↔ Fits vol reserved files (normName logName) logText.length)
    (new : ok = false → files (normName logName) = none) :
    Ends (writerStart (device faults) vol text l pid) p fun code q =>
      code = (if (allocFd p.files).isSome then 0 else 1) ∧
        q.screen = p.screen ++ writerOutput pid (allocFd p.files) ok ∧
        Stores vol q.files.io.disk (if (allocFd p.files).isSome ∧ ok = true then
          Function.update files (normName logName) (some logText) else files) reserved ∧
        Undisturbed p.files q.files := by
  obtain ⟨mem, table, screen⟩ := p
  refine putstr_then (constants.literal "[writer] pid=" (by simp [writerTexts])) ?_
  refine putu32_then l.c_valid pid fun mem₁ kept₁ => ?_
  have constants₁ := keepC constants kept₁
  refine putstr_then (constants₁.literal " ring-3 file writer\n" (by simp [writerTexts])) ?_
  have name : Literal mem₁ (text "log.txt") logName := constants₁.literal "log.txt" (by simp [writerTexts])
  refine slen_then name ?_
  rcases openLog_cases name (by decide +kernel) (by decide +kernel) table with ⟨none', failed⟩ |
    ⟨fd, f, some', unwritten, opened⟩
  · refine Ends.call_bind (by rw [Process.sysOpen, failed]) ?_
    rw [if_pos rfl]
    refine putstr_then (constants₁.literal "[writer] open(O_CREAT) failed\n" (by simp [writerTexts])) (Ends.pure ?_)
    simp only [none']
    exact ⟨rfl, by simp only [writerOutput, List.append_assoc], stores,
      ⟨fun _ => rfl, fun _ _ => rfl⟩⟩
  · obtain ⟨file, slot, unused⟩ := allocFd_slot some'
    have unchanged := (opens_represents geo reliable logName stores.1).2
    refine Ends.call_bind (by rw [Process.sysOpen, opened]) ?_
    rw [if_neg (slot_answered slot)]
    have storesS : Stores vol (fatReadBuf (device faults) vol logName 2048 table.io).2.disk files reserved := by
      rw [unchanged]
      exact stores
    have free : ∀ (io : Io) (g : OpenFile), g.used = false →
        Undisturbed table ({ table with io := io }.set fd g) :=
          fun io g unused' => undisturbed_set unused unused' io
    refine putstr_then (constants₁.literal "[writer] created log.txt as fd=" (by simp [writerTexts])) ?_
    refine putu32_then l.c_valid _ fun mem₂ kept₂ => ?_
    have constants₂ := keepC constants₁ kept₂
    refine putstr_then (constants₂.literal "\n" (by simp [writerTexts])) ?_
    have lines : ∀ t ∈ writerLines, Literal mem₂ (text t) (Mkdata.ascii t) := fun t member =>
      constants₂.literal t (List.mem_append_right _ member)
    have total : logText.length = 50 := by decide +kernel
    have fits : ([] : List Byte).length + (writerLines.flatMap Mkdata.ascii).length ≤ 2048 := by
      change 0 + logText.length ≤ 2048
      omega
    refine (writeLines_ends slot file writerLines lines unwritten fits).bind ?_
    rintro _ _ ⟨rfl, g, written, rfl⟩
    have whole : [] ++ writerLines.flatMap Mkdata.ascii = logText := rfl
    rw [whole] at written ⊢
    refine putstr_then (constants₂.literal "[writer] wrote " (by simp [writerTexts])) ?_
    refine putu32_then l.c_valid _ fun mem₃ kept₃ => ?_
    have constants₃ := keepC constants₂ kept₃
    refine putstr_then (constants₃.literal " bytes\n" (by simp [writerTexts])) ?_
    have nonempty : logText ≠ [] := by decide +kernel
    refine (writerBack_ends constants₃ slot written.held nonempty (by omega) logText.length).bind ?_
    rintro _ _ ⟨mem₄, constants₄, rfl⟩
    -- `close` stores the file if there is room.
    have string : ∀ c ∈ logName, c ≠ 0 := name.string
    have alive : (normName logName).getD 0 0 ≠ 0xE5 := by decide +kernel
    have spc := geo.spc.2
    have place : Fits vol reserved files (normName logName) logText.length ∨
        (files (normName logName)).getD [] = [] := by
      cases ok with
      | true => exact .inl (room.mp rfl)
      | false => exact .inr (by rw [new rfl, Option.getD_none])
    have data : (List.range logText.length).map g.data = logText := written.held.data
    obtain ⟨io, stored, storesF⟩ : ∃ io, fatWrite (device faults) vol logName g.data logText.length
        (fatReadBuf (device faults) vol logName 2048 table.io).2 = (ok, io) ∧
        Stores vol io.disk (if ok = true then Function.update files (normName logName) (some logText) else files)
          reserved := by
      rcases fatWrite_bounded geo reliable storesS g.data string alive (by omega) place with
        ⟨enough, io, call, stores'⟩ | ⟨few, io, call, stores'⟩
      · rw [data] at stores'
        rw [room.mpr enough, if_pos rfl]
        exact ⟨io, call, stores'⟩
      · have failed : ok = false := Bool.eq_false_iff.mpr fun yes => few (room.mp yes)
        rw [failed, if_neg Bool.false_ne_true]
        exact ⟨io, call, stores'⟩
    have found : (if ok = true then Function.update files (normName logName) (some logText) else files)
        (normName logName) = if ok then some logText else none := by
      cases ok with
      | true => rw [if_pos rfl, if_pos rfl, Function.update_self]
      | false => rw [if_neg Bool.false_ne_true, if_neg Bool.false_ne_true, new rfl]
    refine (writerClose_ends constants₄ slot written logText.length stored).bind ?_
    rintro _ _ ⟨mem₅, closed, constants₅, unused', rfl⟩
    refine (writerStat_ends geo reliable constants₅ storesF found (by omega)).bind ?_
    rintro _ _ ⟨mem₆, io', constants₆, storesF', rfl⟩
    have free' : (allocFd ({ table with io := io' }.set fd closed)).isSome :=
      allocFd_free file slot (by rw [Files.set_same]; exact unused')
    refine (writerReopen_ends geo reliable constants₆ storesF' found (by omega) free' (by decide +kernel)).bind ?_
    rintro _ _ ⟨mem₇, table', constants₇, storesF'', undisturbed, rfl⟩
    refine putstr_then (constants₇.literal "[writer] leaving log.txt on disk for inspection\n" (by simp [writerTexts]))
      ?_
    refine putstr_then (constants₇.literal "[writer] done\n" (by simp [writerTexts])) (Ends.pure ?_)
    simp only [some', Option.isSome_some, true_and, if_true]
    refine ⟨?_, storesF'', (free io' closed unused').trans undisturbed⟩
    simp only [writerOutput, List.append_assoc]

end Writes

def stackLocals : Locals where
  c := 0x2EFD00
  buf := 0x2EFD80
  vb := 0x2EFE00
  size := 0x2EFE80
  c_valid := by decide
  buf_valid := by decide
  vb_valid := by decide
  size_valid := by decide
  c_buf := by decide
  c_vb := by decide
  c_size := by decide

theorem writer_stores_blank :
    Ends (writerStart (device noFaults) floppy (constantAt writerTexts) stackLocals 7)
      ⟨constantsMem writerTexts, bootFiles, []⟩ fun code q =>
      code = (if (allocFd bootFiles).isSome then 0 else 1) ∧
        q.screen = [] ++ writerOutput 7 (allocFd bootFiles) true ∧
        Stores floppy q.files.io.disk (if (allocFd bootFiles).isSome ∧ true = true then
          Function.update (fun _ => none) (normName logName) (some logText) else fun _ => none) 0 ∧
        Undisturbed bootFiles q.files := by
  have strings : ∀ t ∈ writerTexts, ∀ c ∈ Mkdata.ascii t, c ≠ 0 := by
    have all : (writerTexts.all fun t => (Mkdata.ascii t).all fun c => c != 0) = true := by
      decide +kernel
    simpa only [List.all_eq_true, bne_iff_ne] using all
  have length : (constantsImage writerTexts).length < 2 ^ 10 := by decide +kernel
  have placed :=
    fun t (member : t ∈ writerTexts) => constantsMem_literal member (strings t member) (by omega)
  have apart : ∀ x : Word, x.toNat < 0x200400 → ¬ stackLocals.holds x := by
    intro x low
    simp only [Locals.holds, stackLocals]
    bv_omega
  have stores : Stores floppy bootFiles.io.disk (fun _ => none) 0 := blank_stores floppy
  have room : Fits floppy 0 (fun _ => none) (normName logName) logText.length := by
    have none' : fileCount (fun _ => none) = 0 := by simp [fileCount]
    have unused : usedClusters floppy (Function.update (fun _ => none) (normName logName) none) = 0 := by
      have same : Function.update (fun _ => none) (normName logName) none = (fun _ => none : FileMap) :=
        Function.update_eq_self _ _
      rw [same]
      simp [usedClusters]
    refine ⟨.inr ?_, ?_⟩
    · rw [none']
      decide
    · rw [unused]
      decide +kernel
  exact writer_stores floppy_geometry noFaults_reliable stores ⟨fun t member => (placed t member).1,
    fun t member i low =>
      apart _ (by have := (placed t member).2 i low; omega)⟩ 7 (iff_of_true rfl room)
    fun failed => absurd failed (by decide)

end Userland

end NovaKernel
