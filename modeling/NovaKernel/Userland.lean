import NovaKernel.SessionFile
import NovaKernel.ByteFile
import NovaKernel.FatMap
import NovaKernel.Strings
import NovaKernel.PrintfBounds
import NovaKernel.MkdataImage
import NovaKernel.Lib.Commands

set_option autoImplicit false

namespace NovaKernel

open Commands

namespace Userland

/-- A process with the descriptors, the disk, and the bytes the screen has received. -/
structure Process where
  mem : UserMem
  files : Files
  screen : List Byte

abbrev Prog (α : Type) := Command Process α

def bytesAt (mem : UserMem) (a : Word) (n : Nat) : List Byte :=
    (List.range n).map fun i => mem (a + BitVec.ofNat 32 i)

def storeAt (a : Word) (bytes : List Byte) (mem : UserMem) : UserMem :=
  fun x => bytes.getD (x - a).toNat (mem x)

namespace Process

variable (ata : Ata) (vol : Volume) (p : Process)

def sysWrite (fd buf len : Word) : Word × Process :=
  if fd < 3 then
    if !userRangeOk buf len then (refused, p)
    else (len, { p with screen := p.screen ++ bytesAt p.mem buf len.toNat })
  else
    let (n, files) := sysWriteFile p.mem fd buf len p.files
    (n, { p with files })

def sysOpen (name len flags : Word) : Word × Process :=
  let (fd, files) := NovaKernel.sysOpen ata vol p.mem name len flags p.files
  (fd, { p with files })

def sysRead (fd buf len : Word) : Word × Process :=
  let ((n, bytes), files) := NovaKernel.sysRead fd buf len p.files
  (n, { p with files, mem := storeAt buf bytes p.mem })

def sysClose (fd : Word) : Word × Process :=
  let (rc, files) := NovaKernel.sysClose ata vol fd p.files
  (rc, { p with files })

end Process

section Programs

variable (ata : Ata) (vol : Volume)

def slen (s : Word) : Prog Word := fun p => (Libc.strlen p.mem s).map (·, p)

def write (fd buf len : Word) : Prog Word := Command.call fun p => p.sysWrite fd buf len

def openFile (name len flags : Word) : Prog Word :=
  Command.call fun p => p.sysOpen ata vol name len flags

def read (fd buf len : Word) : Prog Word := Command.call fun p => p.sysRead fd buf len

def close (fd : Word) : Prog Word := Command.call fun p => p.sysClose ata vol fd

def putstr (s : Word) : Prog Unit := do
  let n ← slen s
  let _ ← write 1 s n

def poke (a : Word) (b : Byte) : Prog Unit :=
  Command.call fun p => ((), { p with mem := storeAt a [b] p.mem })

-- The array `d`; ten of its twelve bytes are enough for a word.
def digits (v : Word) : List Byte :=
  if v = 0 then [0x30] else (Printf.digitLoop 10 10 v.toNat).map fun d => 0x30 + u8 d

-- `c` is the variable of that name on the stack.
def putChars (c : Word) : List Byte → Prog Unit
  | [] => pure ()
  | d :: rest => do
    poke c d
    let _ ← write 1 c 1
    putChars c rest

def putu32 (c v : Word) : Prog Unit := putChars c (digits v).reverse

end Programs

/-- A string in user memory, with its NUL. -/
structure Literal (mem : UserMem) (a : Word) (s : List Byte) : Prop where
  chars : bytesAt mem a s.length = s
  nul : mem (a + BitVec.ofNat 32 s.length) = 0
  string : ∀ c ∈ s, c ≠ 0
  short : s.length < 2 ^ 32
  inside : userRangeOk a (BitVec.ofNat 32 s.length) = true

section Strings

variable {mem mem' : UserMem} {a : Word} {s : List Byte}

theorem bytesAt_length (mem : UserMem) (a : Word) (n : Nat) : (bytesAt mem a n).length = n := by
  rw [bytesAt, List.length_map, List.length_range]

theorem bytesAt_congr {n : Nat}
    (same : ∀ i < n, mem' (a + BitVec.ofNat 32 i) = mem (a + BitVec.ofNat 32 i)) :
    bytesAt mem' a n = bytesAt mem a n :=
  List.map_congr_left fun i member => same i (List.mem_range.mp member)

theorem bytesAt_storeAt (bytes : List Byte) (short : bytes.length < 2 ^ 32) (mem : UserMem) :
    bytesAt (storeAt a bytes mem) a bytes.length = bytes := by
  refine List.ext_getElem (bytesAt_length _ _ _) fun i low low' => ?_
  have index : (BitVec.ofNat 32 i).toNat = i := by
    rw [BitVec.toNat_ofNat, Nat.mod_eq_of_lt (by omega)]
  simp only [bytesAt, List.getElem_map, List.getElem_range]
  rw [storeAt, Libc.offset_self, index, List.getD_eq_getElem _ _ low']

theorem storeAt_kept {bytes : List Byte} {x : Word} (out : bytes.length ≤ (x - a).toNat) :
    storeAt a bytes mem x = mem x := List.getD_eq_default _ _ out

theorem storeAt_one {b : Byte} {x : Word} (other : x ≠ a) : storeAt a [b] mem x = mem x := by
  refine storeAt_kept ?_
  have apart : (x - a).toNat ≠ 0 :=
    fun zero => other ((Libc.offset_eq (by decide)).mpr zero |>.trans (by simp))
  rw [List.length_singleton]
  omega

theorem Literal.strlen (literal : Literal mem a s) :
    Libc.strlen mem a = some (BitVec.ofNat 32 s.length) := by
  have length : (BitVec.ofNat 32 s.length).toNat = s.length := by
    rw [BitVec.toNat_ofNat, Nat.mod_eq_of_lt literal.short]
  refine Libc.strlen_some.mpr ⟨fun i low => ?_, literal.nul⟩
  have below : i.toNat < s.length := by
    rw [BitVec.lt_def, length] at low
    exact low
  have char : mem (a + i) = s[i.toNat] := by
    have chars := List.getElem_of_eq literal.chars (i := i.toNat)
      (by rw [bytesAt_length]; exact below)
    simpa only [bytesAt, List.getElem_map, List.getElem_range, BitVec.ofNat_toNat,
      BitVec.setWidth_eq] using chars
  rw [char]
  exact literal.string _ (List.getElem_mem below)

theorem Literal.keep (literal : Literal mem a s)
    (same : ∀ i ≤ s.length, mem' (a + BitVec.ofNat 32 i) = mem (a + BitVec.ofNat 32 i)) :
    Literal mem' a s where
  chars := (bytesAt_congr fun i low => same i (Nat.le_of_lt low)).trans literal.chars
  nul := (same s.length (Nat.le_refl _)).trans literal.nul
  string := literal.string
  short := literal.short
  inside := literal.inside

theorem Literal.copyName (literal : Literal mem a s) :
    copyName mem a (BitVec.ofNat 32 s.length) = s := by
  have length : (BitVec.ofNat 32 s.length).toNat = s.length := by
    rw [BitVec.toNat_ofNat, Nat.mod_eq_of_lt literal.short]
  have chars := literal.chars
  rw [bytesAt] at chars
  rw [NovaKernel.copyName, length, chars, List.takeWhile_eq_self_iff]
  exact fun c member => decide_eq_true (literal.string c member)

end Strings

/-- The string constants of a program, apart from the memory of its locals. -/
structure Constants (text : String → Word) (texts : List String) (locals : Word → Prop)
    (mem : UserMem) :
    Prop where
  literal : ∀ t ∈ texts, Literal mem (text t) (Mkdata.ascii t)
  apart : ∀ t ∈ texts, ∀ i ≤ (Mkdata.ascii t).length, ¬ locals (text t + BitVec.ofNat 32 i)

theorem Constants.keep {text : String → Word} {texts : List String} {locals : Word → Prop}
    {mem mem' : UserMem} (constants : Constants text texts locals mem)
    (same : ∀ x, ¬ locals x → mem' x = mem x) :
    Constants text texts locals mem' where
  literal := fun t member => (constants.literal t member).keep fun i low => same _ (constants.apart t member i low)
  apart := constants.apart

section Printing

variable {mem : UserMem} {files : Files} {screen : List Byte} {a : Word} {s : List Byte}

section Steps

variable {α : Type} {post : α → Process → Prop}

theorem slen_then (literal : Literal mem a s) {next : Word → Prog α}
    (ends : Ends (next (BitVec.ofNat 32 s.length)) ⟨mem, files, screen⟩ post) :
    Ends (slen a >>= next) ⟨mem, files, screen⟩ post := by
  have found : Ends (slen a) ⟨mem, files, screen⟩ fun n q =>
      n = BitVec.ofNat 32 s.length ∧ ⟨mem, files, screen⟩ = q := by
    refine ⟨_, ⟨mem, files, screen⟩, ?_, rfl, rfl⟩
    rw [slen, literal.strlen]
    rfl
  refine found.bind ?_
  rintro _ _ ⟨rfl, rfl⟩
  exact ends

theorem write_then {n : Word} {next : Word → Prog α} (inside : userRangeOk a n = true)
    (ends : Ends (next n) ⟨mem, files, screen ++ bytesAt mem a n.toNat⟩ post) :
    Ends (write 1 a n >>= next) ⟨mem, files, screen⟩ post := by
  refine Ends.call_bind ?_ ends
  have console : (1 : Word) < 3 := by decide
  rw [Process.sysWrite, if_pos console, inside]
  rfl

theorem poke_then {b : Byte} {rest : Prog α}
    (ends : Ends rest ⟨storeAt a [b] mem, files, screen⟩ post) :
    Ends (do poke a b; rest) ⟨mem, files, screen⟩ post := Ends.call_bind rfl ends

end Steps

theorem putstr_ends {post : Unit → Process → Prop} (literal : Literal mem a s)
    (holds : post () ⟨mem, files, screen ++ s⟩) : Ends (putstr a) ⟨mem, files, screen⟩ post := by
  have length : (BitVec.ofNat 32 s.length).toNat = s.length := by
    rw [BitVec.toNat_ofNat, Nat.mod_eq_of_lt literal.short]
  refine slen_then literal (write_then literal.inside (Ends.pure ?_))
  rwa [length, literal.chars]

theorem putstr_then {α : Type} {post : α → Process → Prop} (literal : Literal mem a s)
    {rest : Prog α} (ends : Ends rest ⟨mem, files, screen ++ s⟩ post) :
    Ends (do putstr a; rest) ⟨mem, files, screen⟩ post := by
  have printed : Ends (putstr a) ⟨mem, files, screen⟩ fun _ q => ⟨mem, files, screen ++ s⟩ = q :=
    putstr_ends literal rfl
  refine printed.bind ?_
  rintro _ _ rfl
  exact ends

def decimalText (v : Word) : List Byte := (Printf.numeral 10 v.toNat).map fun d => 0x30 + u8 d

theorem digits_reverse (v : Word) : (digits v).reverse = decimalText v := by
  by_cases zero : v = 0
  · subst zero
    rfl
  · have nonzero : v.toNat ≠ 0 := fun none' => zero (BitVec.eq_of_toNat_eq none')
    have bound : v.toNat < 10 ^ 10 := Nat.lt_of_lt_of_le v.isLt (by decide)
    rw [digits, if_neg zero, decimalText, Printf.numeral, if_neg nonzero,
      Printf.digitLoop_eq (by decide) bound, List.map_reverse]

theorem putChars_ends {c : Word} (valid : userRangeOk c 1 = true) (chars : List Byte) :
    Ends (putChars c chars) ⟨mem, files, screen⟩ fun _ q =>
      ∃ mem', (∀ x, x ≠ c → mem' x = mem x) ∧ ⟨mem', files, screen ++ chars⟩ = q := by
  induction chars generalizing mem screen with
  | nil => exact Ends.pure ⟨mem, fun _ _ => rfl, by rw [List.append_nil]⟩
  | cons d rest ih =>
    have short : [d].length < 2 ^ 32 := by
      rw [List.length_singleton]
      decide
    have one : bytesAt (storeAt c [d] mem) c (1 : Word).toNat = [d] :=
      bytesAt_storeAt (a := c) [d] short mem
    refine poke_then (write_then valid ?_)
    rw [one]
    refine ih.mono fun _ q after => ?_
    obtain ⟨mem', kept, rfl⟩ := after
    exact ⟨mem', fun x other => (kept x other).trans (storeAt_one other),
      by rw [List.append_assoc]; rfl⟩

theorem putu32_then {α : Type} {post : α → Process → Prop} {c : Word}
    (valid : userRangeOk c 1 = true) (v : Word) {rest : Prog α}
    (ends : ∀ mem', (∀ x, x ≠ c → mem' x = mem x) → Ends rest ⟨mem', files, screen ++ decimalText v⟩ post) :
    Ends (do putu32 c v; rest) ⟨mem, files, screen⟩ post := by
  refine (putChars_ends valid _).bind ?_
  rintro _ _ ⟨mem', kept, rfl⟩
  rw [digits_reverse]
  exact ends mem' kept

end Printing

structure Held (f : OpenFile) (bytes : List Byte) : Prop where
  used : f.used = true
  size : f.size.toNat = bytes.length
  short : bytes.length ≤ 2048
  data : (List.range bytes.length).map f.data = bytes

def OpenFile.at (f : OpenFile) (pos : Nat) : OpenFile := { f with pos := BitVec.ofNat 32 pos }

section Reading

variable {f : OpenFile} {bytes : List Byte} (held : Held f bytes)

include held

theorem Held.read {pos : Nat} (within : pos ≤ bytes.length) (len : Word) :
    (OpenFile.at f pos).read len =
      ((bytes.drop pos).take len.toNat, OpenFile.at f (pos + min len.toNat (bytes.length - pos))) := by
  have short := held.short
  have here : (OpenFile.at f pos).pos.toNat = pos := by
    rw [OpenFile.at, BitVec.toNat_ofNat, Nat.mod_eq_of_lt (by omega)]
  have size : (OpenFile.at f pos).size.toNat = bytes.length := held.size
  have spec := OpenFile.read_spec (f := OpenFile.at f pos)
    (by rw [BitVec.le_def, here, size]; exact within)
    (by rw [size]; exact short) len
  rw [here, size] at spec
  obtain ⟨read, next, rest⟩ := spec
  refine Prod.ext ?_ ?_
  · rw [read]
    refine List.ext_getElem ?_ fun i low low' => ?_
    · simp only [List.length_map, List.length_range, List.length_take, List.length_drop]
    · rw [List.length_map, List.length_range] at low
      have data := List.getElem_of_eq held.data (i := pos + i) (by
        rw [List.length_map, List.length_range]
        omega)
      rw [List.getElem_map, List.getElem_range] at data
      rw [List.getElem_map, List.getElem_range, List.getElem_take, List.getElem_drop, ← data]
      rfl
  · have place : ((OpenFile.at f pos).read len).2.pos =
        BitVec.ofNat 32 (pos + min len.toNat (bytes.length - pos)) := by
      rw [← next, BitVec.ofNat_toNat, BitVec.setWidth_eq]
    rw [rest, place]
    rfl

end Reading

section Slots

variable {s : Files} {fd : Nat} {f : OpenFile}

theorem set_set (g : OpenFile) : (s.set fd f).set fd g = s.set fd g := by
  simp only [Files.set, Function.update_idem]

theorem slot_number (slot : fd < maxOpenFiles) : (BitVec.ofNat 32 fd).toNat = fd := by
  rw [BitVec.toNat_ofNat]
  simp only [maxOpenFiles] at slot
  omega

theorem sysRead_used (slot : fd < maxOpenFiles) (used : (s.ofiles fd).used = true) {buf len : Word}
    (room : userRangeOk buf len = true) {bytes : List Byte} {g : OpenFile}
    (read : (s.ofiles fd).read len = (bytes, g)) :
    NovaKernel.sysRead (BitVec.ofNat 32 fd) buf len s =
      ((BitVec.ofNat 32 bytes.length, bytes), s.set fd g) := by
  have inside : ¬ maxOpenFiles ≤ (BitVec.ofNat 32 fd).toNat := by
    rw [slot_number slot]
    omega
  rw [NovaKernel.sysRead, if_neg inside, slot_number slot]
  simp only [used, room, Bool.not_true, Bool.false_eq_true, if_false, read]

theorem read_then {α : Type} {post : α → Process → Prop} {next : Word → Prog α} {mem : UserMem}
    {screen : List Byte}
    {bytes : List Byte} {pos : Nat} {buf len : Word} (slot : fd < maxOpenFiles)
    (held : Held f bytes) (within : pos ≤ bytes.length) (room : userRangeOk buf len = true)
    (ends : Ends (next (BitVec.ofNat 32 ((bytes.drop pos).take len.toNat).length))
      ⟨storeAt buf ((bytes.drop pos).take len.toNat) mem,
        s.set fd (OpenFile.at f (pos + min len.toNat (bytes.length - pos))), screen⟩ post) :
    Ends (read (BitVec.ofNat 32 fd) buf len >>= next) ⟨mem, s.set fd (OpenFile.at f pos), screen⟩ post := by
  have used : (OpenFile.at f pos).used = true := held.used
  have entry := Files.set_same s fd (OpenFile.at f pos)
  have read := sysRead_used slot (by rw [entry]; exact used) room
    ((congrArg (·.read len) entry).trans (held.read within len))
  rw [set_set] at read
  refine Ends.call_bind ?_ ends
  rw [Process.sysRead, read]

theorem ne_refused {n : Nat} (small : n < 2 ^ 31) : BitVec.ofNat 32 n ≠ refused := by
  intro same
  have number := congrArg BitVec.toNat same
  rw [BitVec.toNat_ofNat, Nat.mod_eq_of_lt (by omega)] at number
  have large : refused.toNat = 0xFFFFFFFF := rfl
  omega

theorem slot_answered (slot : fd < maxOpenFiles) : BitVec.ofNat 32 fd ≠ refused := by
  have few : maxOpenFiles = 8 := rfl
  exact ne_refused (by omega)

end Slots

theorem userRangeOk_mono {a n m : Word} (valid : userRangeOk a n = true) (shorter : m ≤ n) :
    userRangeOk a m = true := by
  unfold userRangeOk at valid ⊢
  by_cases empty : m = 0
  · rw [if_pos empty]
  have some' : ¬ n = 0 := by bv_omega
  rw [if_neg some'] at valid
  rw [if_neg empty]
  by_cases low : a < userMemStart
  · rw [if_pos low] at valid
    cases valid
  by_cases high : userMemEnd < a
  · rw [if_neg low, if_pos high] at valid
    cases valid
  rw [if_neg low, if_neg high] at valid ⊢
  by_cases long : userMemEnd - a < n
  · rw [if_pos long] at valid
    cases valid
  · have fits : ¬ userMemEnd - a < m := by bv_omega
    rw [if_neg fits]

section Opening

variable (ata : Ata) (vol : Volume)

/-- What `open` finds: a name of 1 to 31 characters, a free descriptor, and a file that can be read. -/
def opens (path : List Byte) (s : Files) : Option (List Byte) :=
  if path ≠ [] ∧ path.length < nameSize ∧ (allocFd s).isSome then (fatRead ata vol path 2048 s.io).1.map Prod.snd
  else none

structure Undisturbed (s s' : Files) : Prop where
  used : ∀ i, (s'.ofiles i).used = (s.ofiles i).used
  kept : ∀ i, (s.ofiles i).used = true → s'.ofiles i = s.ofiles i

omit ata vol in
theorem undisturbed_set {s : Files} {fd : Nat} (unused : (s.ofiles fd).used = false) {f : OpenFile}
    (free : f.used = false) (io : Io) : Undisturbed s ({ s with io := io }.set fd f) := by
  refine ⟨fun i => ?_, fun i used => ?_⟩
  · by_cases here : i = fd
    · subst here
      rw [Files.set_same, free, unused]
    · exact congrArg OpenFile.used (Function.update_of_ne here _ _)
  · have other : i ≠ fd := by
      rintro rfl
      rw [unused] at used
      cases used
    exact Function.update_of_ne other _ _

omit ata vol in
theorem Undisturbed.trans {s s' s'' : Files} (first : Undisturbed s s')
    (second : Undisturbed s' s'') :
    Undisturbed s s'' where
  used := fun i => (second.used i).trans (first.used i)
  kept := fun i used => (second.kept i ((first.used i).trans used)).trans (first.kept i used)

theorem open_cases {mem : UserMem} {a : Word} {path : List Byte} (literal : Literal mem a path)
    (s : Files) :
    (∃ s', NovaKernel.sysOpen ata vol mem a (BitVec.ofNat 32 path.length) 0 s = (refused, s') ∧
      opens ata vol path s = none ∧ Undisturbed s s' ∧
      (s'.io = s.io ∨ s'.io = (fatReadBuf ata vol path 2048 s.io).2)) ∨
      ∃ fd f bytes, fd < maxOpenFiles ∧ (s.ofiles fd).used = false ∧ Held f bytes ∧
        f.dirty = false ∧
        opens ata vol path s = some bytes ∧
        NovaKernel.sysOpen ata vol mem a (BitVec.ofNat 32 path.length) 0 s = (BitVec.ofNat 32 fd,
          { s with io := (fatReadBuf ata vol path 2048 s.io).2 }.set fd (OpenFile.at f 0)) := by
  have length : (BitVec.ofNat 32 path.length).toNat = path.length := by
    rw [BitVec.toNat_ofNat, Nat.mod_eq_of_lt literal.short]
  have zero : BitVec.ofNat 32 path.length = 0 ↔ path = [] := by
    rw [← List.length_eq_zero_iff, BitVec.toNat_eq, length]
    exact Iff.rfl
  have cap : ofileCap.toNat = 2048 := rfl
  have same : Undisturbed s s := ⟨fun _ => rfl, fun _ _ => rfl⟩
  simp only [NovaKernel.sysOpen, literal.inside, literal.copyName, length, zero, cap, Bool.not_true,
    Bool.false_eq_true,
    if_false]
  by_cases bad : path = [] ∨ nameSize - 1 < path.length
  · rw [if_pos bad]
    refine .inl ⟨s, rfl, if_neg fun good => ?_, same, .inl rfl⟩
    rcases bad with empty | long
    · exact good.1 empty
    · have := good.2.1
      omega
  rw [if_neg bad]
  rw [not_or] at bad
  have short : path.length < nameSize := by
    have width : nameSize = 32 := rfl
    omega
  cases free : allocFd s with
  | none => exact .inl ⟨s, rfl, if_neg fun good => by simp [free] at good, same, .inl rfl⟩
  | some fd =>
    obtain ⟨-, slot, unused⟩ := allocFd_slot free
    have good : path ≠ [] ∧ path.length < nameSize ∧ (allocFd s).isSome :=
      ⟨bad.1, short, by rw [free]; rfl⟩
    have found : opens ata vol path s =
        (fatRead ata vol path 2048 s.io).1.map Prod.snd := if_pos good
    obtain ⟨bound, size⟩ := fatReadBuf_length ata vol path 2048 s.io
    rw [fatRead_eq] at found
    dsimp only
    generalize read : fatReadBuf ata vol path 2048 s.io = r at found bound size ⊢
    have flags : (0 : Word) &&& oCreat = 0 ∧ (0 : Word) &&& oTrunc = 0 ∧
        (0 : Word) &&& (oWronly ||| oCreat ||| oTrunc) = 0 := by decide
    obtain ⟨noCreat, noTrunc, noFlag⟩ := flags
    obtain ⟨⟨_ | count, bytes⟩, io⟩ := r
    · rw [if_pos ⟨rfl, noCreat⟩]
      exact .inl ⟨_, rfl, found, undisturbed_set unused (by exact unused) io, .inr rfl⟩
    · have stored := size count rfl
      have whole : BitVec.ofNat 32 count = BitVec.ofNat 32 bytes.length :=
        congrArg (BitVec.ofNat 32) stored
      have small : bytes.length ≤ 2048 := bound
      let f : OpenFile :=
        { used := true, writable := false, dirty := false, size := BitVec.ofNat 32 count, pos := 0, name := path,
          data := fun i => bytes.getD i ((s.ofiles fd).data i) }
      have held : Held f bytes := by
        refine ⟨rfl, ?_, small, List.ext_getElem (by rw [List.length_map, List.length_range]) fun i low low' => ?_⟩
        · change (BitVec.ofNat 32 count).toNat = bytes.length
          rw [whole, BitVec.toNat_ofNat, Nat.mod_eq_of_lt (by omega)]
        · rw [List.getElem_map, List.getElem_range]
          exact List.getD_eq_getElem _ _ low'
      have missing : ¬ (some count = none ∧ (0 : Word) &&& oCreat = 0) :=
        fun h => Option.some_ne_none count h.1
      refine .inr ⟨fd, f, bytes, slot, unused, held, rfl, found, ?_⟩
      rw [if_neg missing, set_set]
      simp only [noTrunc, noFlag]
      rfl

theorem sysClose_clean {s : Files} {fd : Nat} {f : OpenFile} (slot : fd < maxOpenFiles)
    (used : f.used = true) (clean : f.dirty = false) (entry : s.ofiles fd = f) :
    NovaKernel.sysClose ata vol (BitVec.ofNat 32 fd) s =
      (0, s.set fd { f with used := false, writable := false, dirty := false }) := by
  have inside : ¬ maxOpenFiles ≤ fd := Nat.not_le_of_lt slot
  have other : (0 : Word) ≠ refused := by decide
  simp only [NovaKernel.sysClose, sysSync, slot_number slot, if_neg inside, entry, used, clean,
    Bool.not_true, Bool.not_false, Bool.or_true, Bool.false_eq_true, if_false, if_true,
    if_neg other]

end Opening

section Represented

variable {faults : Faults} {vol : Volume} {files : FileMap}

theorem opens_represents (geo : Geometry vol) (reliable : Reliable faults) (path : List Byte)
    {s : Files} (represents : Represents vol s.io.disk files) :
    opens (device faults) vol path s =
        (if path ≠ [] ∧ path.length < nameSize ∧ (allocFd s).isSome then (files (normName path)).map (List.take 2048)
        else none) ∧
      (fatReadBuf (device faults) vol path 2048 s.io).2.disk = s.io.disk := by
  have answer := (StoreCall.onDisk_represents geo reliable represents (.read path 2048) trivial).1
  have read := StoreResult.bytes.inj answer
  constructor
  · simp only [opens]
    refine ite_congr rfl (fun _ => ?_) fun _ => rfl
    rw [show (fatRead (device faults) vol path 2048 s.io).1 = _ from read, Option.map_map]
    rfl
  · obtain ⟨agree, last, chain, layout, -⟩ := represents
    rcases layout.find_cases (normName path) with ⟨k, -, live, named⟩ | ⟨-, absent⟩
    · exact (fatReadBuf_found geo reliable layout live named 2048).2
    · exact (fatReadBuf_absent geo reliable layout absent 2048).2

end Represented

-- The constants of a program one after the other from the start of user memory on.
def constantsImage (texts : List String) : List Byte := texts.flatMap fun t => Mkdata.ascii t ++ [0]

def constantAt (texts : List String) (t : String) : Word :=
  0x200000 + BitVec.ofNat 32 (constantsImage (texts.takeWhile (· ≠ t))).length

def constantsMem (texts : List String) : UserMem :=
  storeAt 0x200000 (constantsImage texts) fun _ => 0

theorem split_at {texts : List String} {t : String} (member : t ∈ texts) :
    ∃ rest, texts = texts.takeWhile (· ≠ t) ++ t :: rest := by
  induction texts with
  | nil => cases member
  | cons u texts ih =>
    by_cases here : u = t
    · subst here
      exact ⟨texts, by simp⟩
    · obtain ⟨rest, split⟩ := ih ((List.mem_cons.mp member).resolve_left fun same => here same.symm)
      refine ⟨rest, ?_⟩
      rw [List.takeWhile_cons_of_pos (by simpa using here), List.cons_append, ← split]

theorem constantsMem_literal {texts : List String} {t : String} (member : t ∈ texts)
    (string : ∀ c ∈ Mkdata.ascii t, c ≠ 0) (short : (constantsImage texts).length < 2 ^ 20) :
    Literal (constantsMem texts) (constantAt texts t) (Mkdata.ascii t) ∧
      ∀ i ≤ (Mkdata.ascii t).length, (constantAt texts t + BitVec.ofNat 32 i).toNat < 0x200000 +
        (constantsImage texts).length := by
  obtain ⟨rest, split⟩ := split_at member
  have image : constantsImage texts = constantsImage (texts.takeWhile (· ≠ t)) ++
      (Mkdata.ascii t ++ [0] ++ constantsImage rest) := by
    conv_lhs => rw [split]
    rw [constantsImage, constantsImage, constantsImage, List.flatMap_append, List.flatMap_cons]
  rw [constantAt]
  generalize constantsImage (texts.takeWhile (· ≠ t)) = before at image
  generalize Mkdata.ascii t = s at image string
  have length := congrArg List.length image
  simp only [List.length_append, List.length_singleton] at length
  have base : (0x200000 : Word).toNat = 0x200000 := rfl
  have place : ∀ i ≤ s.length, (0x200000 + BitVec.ofNat 32 before.length + BitVec.ofNat 32 i - 0x200000 : Word).toNat =
      before.length + i := by
    intro i low
    rw [BitVec.add_assoc, Libc.offset_self, ← BitVec.ofNat_add, BitVec.toNat_ofNat,
      Nat.mod_eq_of_lt (by omega)]
  have byte : ∀ i ≤ s.length, constantsMem texts (0x200000 + BitVec.ofNat 32 before.length + BitVec.ofNat 32 i) =
      (s ++ [0]).getD i 0 := by
    intro i low
    have inside : i < (s ++ [0]).length := by
      rw [List.length_append, List.length_singleton]
      omega
    rw [constantsMem, storeAt, place i low, image,
      List.getD_append_right _ _ _ _ (Nat.le_add_right _ _), Nat.add_sub_cancel_left,
      List.getD_append _ _ _ _ inside, List.getD_eq_getElem _ _ inside]
  have low : ∀ i ≤ s.length, (0x200000 + BitVec.ofNat 32 before.length + BitVec.ofNat 32 i : Word).toNat =
      0x200000 + before.length + i := by
    intro i low
    have sum := place i low
    rw [BitVec.toNat_add, BitVec.toNat_add, BitVec.toNat_ofNat, BitVec.toNat_ofNat, base]
    omega
  refine ⟨⟨?_, ?_, string, by omega, ?_⟩, fun i within => by rw [low i within]; omega⟩
  · refine List.ext_getElem (bytesAt_length _ _ _) fun i below below' => ?_
    simp only [bytesAt, List.getElem_map, List.getElem_range]
    rw [byte i (by omega), List.getD_append _ _ _ _ below', List.getD_eq_getElem _ _ below']
  · rw [byte _ (Nat.le_refl _), List.getD_append_right _ _ _ _ (Nat.le_refl _), Nat.sub_self]
    rfl
  · have start := low 0 (Nat.zero_le _)
    have sum : (0x200000 + BitVec.ofNat 32 before.length : Word).toNat =
        0x200000 + before.length := by
      simpa using start
    have count : (BitVec.ofNat 32 s.length).toNat = s.length := by
      rw [BitVec.toNat_ofNat, Nat.mod_eq_of_lt (by omega)]
    generalize (0x200000 + BitVec.ofNat 32 before.length : Word) = a at sum
    generalize BitVec.ofNat 32 s.length = n at count
    have start' : ¬ a < userMemStart := by
      simp only [userMemStart]
      bv_omega
    have end' : ¬ userMemEnd < a := by
      simp only [userMemEnd]
      bv_omega
    have fits : ¬ userMemEnd - a < n := by
      simp only [userMemEnd]
      bv_omega
    rw [userRangeOk, if_neg start', if_neg end', if_neg fits]
    split <;> rfl

end Userland

end NovaKernel
