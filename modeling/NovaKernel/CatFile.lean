import NovaKernel.Userland

set_option autoImplicit false

namespace NovaKernel

open Commands

namespace Userland

section Programs

variable (ata : Ata) (vol : Volume) (text : String → Word)

-- The body of the loop over the file. `text` is where the compiler has put a string constant.
def catChunk (buf fd : Word) : Prog Bool := do
  let n ← read fd buf 256
  if n = refused then
    putstr (text "[ring3] read error\n")
    return false
  if n = 0 then
    return false
  let _ ← write 1 buf n
  return true

def catFile (buf name : Word) (rounds : Nat) : Prog Unit := do
  let len ← slen name
  let fd ← openFile ata vol name len 0
  if fd = refused then
    putstr (text "[ring3] open failed: ")
    putstr name
    putstr (text "\n")
    return
  putstr (text "[ring3] --- ")
  putstr name
  putstr (text " ---\n")
  forever (catChunk text buf fd) rounds
  let _ ← close ata vol fd
  putstr (text "\n[ring3] --- end ---\n")

end Programs

def catTexts : List String :=
  ["[ring3] read error\n", "[ring3] open failed: ", "\n", "[ring3] --- ", " ---\n", "\n[ring3] --- end ---\n"]

def catOutput (path : List Byte) : Option (List Byte) → List Byte
  | none => Mkdata.ascii "[ring3] open failed: " ++ path ++ Mkdata.ascii "\n"
  | some bytes => Mkdata.ascii "[ring3] --- " ++ path ++ Mkdata.ascii " ---\n" ++ bytes ++
      Mkdata.ascii "\n[ring3] --- end ---\n"

section Cat

variable {text : String → Word} {buf : Word} {fd : Nat} {f : OpenFile} {bytes : List Byte}
    {start : Process}

structure Shown (start : Process) (buf : Word) (fd : Nat) (f : OpenFile) (bytes : List Byte)
    (pos : Nat) (q : Process) : Prop where
  within : pos ≤ bytes.length
  screen : q.screen = start.screen ++ bytes.take pos
  files : q.files = start.files.set fd (OpenFile.at f pos)
  mem : ∀ x, ¬ (x - buf).toNat < 256 → q.mem x = start.mem x

theorem catChunk_ends (held : Held f bytes) (slot : fd < maxOpenFiles)
    (room : userRangeOk buf 256 = true) {pos : Nat}
    {q : Process} (shown : Shown start buf fd f bytes pos q) :
    Ends (catChunk text buf (BitVec.ofNat 32 fd)) q fun more r =>
      if more then ∃ pos', pos < pos' ∧ (pos' = bytes.length ∨ pos' = pos + 256) ∧
        Shown start buf fd f bytes pos' r
      else Shown start buf fd f bytes bytes.length r := by
  obtain ⟨within, screen, files, mem⟩ := shown
  obtain ⟨mem', files', screen'⟩ := q
  obtain rfl : files' = _ := files
  have short := held.short
  have whole : (256 : Word).toNat = 256 := rfl
  have length : ((bytes.drop pos).take 256).length = min 256 (bytes.length - pos) := by
    rw [List.length_take, List.length_drop]
  have kept : ∀ x, ¬ (x - buf).toNat < 256 →
      storeAt buf ((bytes.drop pos).take 256) mem' x = start.mem x := by
    intro x out
    rw [storeAt_kept (by rw [length]; omega)]
    exact mem x out
  have count : (BitVec.ofNat 32 (min 256 (bytes.length - pos))).toNat =
      min 256 (bytes.length - pos) := by
    rw [BitVec.toNat_ofNat, Nat.mod_eq_of_lt (by omega)]
  refine read_then slot held within room ?_
  rw [whole, length, if_neg (ne_refused (by omega))]
  by_cases ended : pos = bytes.length
  · have none' : BitVec.ofNat 32 (min 256 (bytes.length - pos)) = 0 := by
      rw [ended, Nat.sub_self]
      rfl
    rw [if_pos none']
    refine Ends.pure ⟨Nat.le_refl _, ?_, ?_, kept⟩
    · exact screen.trans (by rw [ended])
    · rw [ended, Nat.sub_self, Nat.min_zero, Nat.add_zero]
  · have some' : BitVec.ofNat 32 (min 256 (bytes.length - pos)) ≠ 0 := by
      intro same
      have number := congrArg BitVec.toNat same
      rw [count] at number
      have zero : (0 : Word).toNat = 0 := rfl
      omega
    have inside : userRangeOk buf (BitVec.ofNat 32 (min 256 (bytes.length - pos))) = true := by
      refine userRangeOk_mono room ?_
      rw [BitVec.le_def, count]
      exact Nat.min_le_left 256 _
    rw [if_neg some']
    refine write_then inside (Ends.pure ⟨pos + min 256 (bytes.length - pos), by omega, by omega, by omega, ?_, rfl, kept⟩)
    have piece : (bytes.drop pos).take 256 =
        (bytes.drop pos).take (min 256 (bytes.length - pos)) := by
      rw [List.take_eq_take_iff, List.length_drop]
      omega
    have printed : bytesAt (storeAt buf ((bytes.drop pos).take 256) mem') buf
        (BitVec.ofNat 32 (min 256 (bytes.length - pos))).toNat = (bytes.drop pos).take 256 := by
      rw [count, ← length, bytesAt_storeAt _ (by rw [length]; omega)]
    change screen' ++ _ = _
    have before : screen' = start.screen ++ bytes.take pos := screen
    rw [printed, before, List.append_assoc, piece, ← List.take_add]

theorem catLoop_ends (held : Held f bytes) (slot : fd < maxOpenFiles)
    (room : userRangeOk buf 256 = true) {rounds : Nat} (enough : 8 < rounds)
    (opened : start.files.ofiles fd = OpenFile.at f 0) :
    Ends (forever (catChunk text buf (BitVec.ofNat 32 fd)) rounds) start fun _ q =>
      Shown start buf fd f bytes bytes.length q := by
  have short := held.short
  let inv : Nat → Process → Prop := fun k q =>
    ∃ pos, k = (bytes.length - pos + 255) / 256 ∧ Shown start buf fd f bytes pos q
  have first : inv ((bytes.length + 255) / 256) start := by
    refine ⟨0, rfl, Nat.zero_le _, ?_, ?_, fun _ _ => rfl⟩
    · rw [List.take_zero, List.append_nil]
    · rw [← opened, Files.set, Function.update_eq_self]
  refine Ends.forever inv ?_ (show (bytes.length + 255) / 256 < rounds by omega) first
  rintro k q ⟨pos, rfl, shown⟩
  refine (catChunk_ends held slot room shown).mono fun more r after => ?_
  cases more with
  | true =>
    obtain ⟨pos', further, step, shown'⟩ := after
    have within := shown'.within
    exact ⟨_, by omega, pos', rfl, shown'⟩
  | false => exact after

end Cat

section Cat

variable {ata : Ata} {vol : Volume} {text : String → Word} {buf name : Word} {p : Process}
    {path : List Byte}

theorem catFile_ends (constants : Constants text catTexts (fun x => (x - buf).toNat < 256) p.mem)
    (named : Literal p.mem name path)
    (room : userRangeOk buf 256 = true) {rounds : Nat} (enough : 8 < rounds) :
    Ends (catFile ata vol text buf name rounds) p fun _ q =>
      q.screen = p.screen ++ catOutput path (opens ata vol path p.files) ∧
        Undisturbed p.files q.files ∧
        (q.files.io = p.files.io ∨ q.files.io = (fatReadBuf ata vol path 2048 p.files.io).2) := by
  refine slen_then named ?_
  rcases open_cases ata vol named p.files with ⟨s', failed, none', undisturbed, io⟩ |
    ⟨fd, f, bytes, slot, unused, held, clean, found, opened⟩
  · refine Ends.call_bind (a := refused) (t := { p with files := s' })
      (by rw [Process.sysOpen, failed]) ?_
    rw [if_pos rfl, none']
    refine putstr_then (constants.literal "[ring3] open failed: " (by simp [catTexts])) ?_
    refine putstr_then named ?_
    refine putstr_then (constants.literal "\n" (by simp [catTexts])) (Ends.pure ⟨?_, undisturbed, io⟩)
    simp only [catOutput, List.append_assoc]
  · refine Ends.call_bind (a := BitVec.ofNat 32 fd) (t := { p with
      files := { p.files with io := (fatReadBuf ata vol path 2048 p.files.io).2 }.set fd (OpenFile.at f 0) })
      (by rw [Process.sysOpen, opened]) ?_
    rw [if_neg (slot_answered slot), found]
    refine putstr_then (constants.literal "[ring3] --- " (by simp [catTexts])) ?_
    refine putstr_then named ?_
    refine putstr_then (constants.literal " ---\n" (by simp [catTexts])) ?_
    refine (catLoop_ends held slot room enough (Files.set_same _ fd _)).bind fun _ q shown => ?_
    obtain ⟨-, screen, files, mem⟩ := shown
    obtain ⟨mem', files', screen'⟩ := q
    obtain rfl : files' = _ := files
    obtain rfl : screen' = _ := screen
    have constants' := constants.keep mem
    rw [set_set]
    have used : (OpenFile.at f bytes.length).used = true := held.used
    have unwritten : (OpenFile.at f bytes.length).dirty = false := clean
    refine Ends.call_bind (by rw [Process.sysClose, sysClose_clean ata vol slot used unwritten (Files.set_same _ fd _),
      set_set]) ?_
    refine putstr_ends (constants'.literal "\n[ring3] --- end ---\n" (by simp [catTexts])) ⟨?_, ?_⟩
    · simp only [catOutput, List.append_assoc, List.take_length]
    · exact ⟨undisturbed_set unused rfl _, .inr rfl⟩

end Cat

section Shows

variable {faults : Faults} {vol : Volume} {text : String → Word} {buf name : Word} {p : Process}
    {path : List Byte}
  {files : FileMap}

/-- On a well-formed volume `cat_file` prints the first 2048 bytes of the file of that name, in nine
rounds at most. -/
theorem catFile_shows (geo : Geometry vol) (reliable : Reliable faults)
    (represents : Represents vol p.files.io.disk files)
    (constants : Constants text catTexts (fun x => (x - buf).toNat < 256) p.mem)
    (named : Literal p.mem name path) (room : userRangeOk buf 256 = true) {rounds : Nat}
    (enough : 8 < rounds) :
    Ends (catFile (device faults) vol text buf name rounds) p fun _ q =>
      q.screen = p.screen ++ catOutput path
          (if path ≠ [] ∧ path.length < nameSize ∧ (allocFd p.files).isSome then
            (files (normName path)).map (List.take 2048) else none) ∧
        q.files.io.disk = p.files.io.disk ∧ Undisturbed p.files q.files := by
  obtain ⟨found, unchanged⟩ := opens_represents geo reliable path represents
  refine (catFile_ends constants named room enough).mono fun _ q after => ?_
  obtain ⟨screen, undisturbed, io⟩ := after
  rw [found] at screen
  refine ⟨screen, ?_, undisturbed⟩
  rcases io with same | once
  · rw [same]
  · rw [once, unchanged]

end Shows

theorem catFile_shows_letter : ∃ files, Represents floppy (lettersFile 1).io.disk files ∧
    Ends (catFile (device noFaults) floppy (constantAt ("A" :: catTexts)) 0x2EFE00 (constantAt ("A" :: catTexts) "A") 9)
      ⟨constantsMem ("A" :: catTexts), lettersFile 1, []⟩ fun _ q =>
      q.screen = [] ++ catOutput [0x41]
          (if ([0x41] : List Byte) ≠ [] ∧ [0x41].length < nameSize ∧ (allocFd (lettersFile 1)).isSome then
            (files (normName [0x41])).map (List.take 2048) else none) ∧
        q.files.io.disk = (lettersFile 1).io.disk ∧ Undisturbed (lettersFile 1) q.files := by
  have wellFormed : WellFormed floppy (lettersFile 1).io.disk :=
    writeLetters_wellFormed (by decide) (by decide +kernel)
  obtain ⟨files, represents⟩ := wellFormed.represents
  have strings : ∀ t ∈ "A" :: catTexts, ∀ c ∈ Mkdata.ascii t, c ≠ 0 := by
    have all : (("A" :: catTexts).all fun t => (Mkdata.ascii t).all fun c => c != 0) = true := by decide +kernel
    simpa only [List.all_eq_true, bne_iff_ne] using all
  have length : (constantsImage ("A" :: catTexts)).length < 2 ^ 10 := by decide +kernel
  have placed := fun t (member : t ∈ "A" :: catTexts) => constantsMem_literal member (strings t member) (by omega)
  have stack : (0x2EFE00 : Word).toNat = 0x2EFE00 := rfl
  have name := (placed "A" (List.mem_cons_self ..)).1
  refine ⟨files, represents, catFile_shows floppy_geometry noFaults_reliable represents ⟨fun t member => ?_,
    fun t member i low => ?_⟩ name (by decide) (by decide)⟩
  · exact (placed t (List.mem_cons_of_mem _ member)).1
  · have below := (placed t (List.mem_cons_of_mem _ member)).2 i low
    rw [BitVec.toNat_sub, stack]
    omega

end Userland

end NovaKernel
