import NovaKernel.DescriptorOwners
import NovaKernel.Lib.Checked

set_option autoImplicit false

namespace NovaKernel

open Machine Checked

def nrBrk : Nat := 8
def nrUnlink : Nat := 10
def nrStat : Nat := 11
def nrTime : Nat := 12

namespace Machine

/-- A load of ring 0 through the loaded page tables, from which no cached translation differs; the error is a page
fault at this address. -/
def loadByte (m : Machine) (a : Word) : Except Word Byte :=
  match m.walk (a.toNat / 0x1000) with
  | some t => .ok (m.getByte t.frame (a.toNat % 0x1000))
  | none => .error a

-- A store; CR0.WP is set.
def storeByte (m : Machine) (a : Word) (value : Byte) : Except Word Machine :=
  match m.walk (a.toNat / 0x1000) with
  | some t => if t.writable then .ok (m.putByte t.frame (a.toNat % 0x1000) value) else .error a
  | none => .error a

def copyIn (m : Machine) (a : Word) : Nat → Except Word (List Byte)
  | 0 => .ok []
  | n + 1 => do
    let b ← m.loadByte a
    let rest ← m.copyIn (a + 1) n
    return b :: rest

def copyOut (m : Machine) (a : Word) : List Byte → Except Word Machine
  | [] => .ok m
  | b :: rest => do
    let m ← m.storeByte a b
    m.copyOut (a + 1) rest

def userMem (m : Machine) : UserMem := fun a =>
  match m.loadByte a with
  | .ok b => b
  | .error _ => 0

end Machine

def wordBytes (w : Nat) : List Byte :=
  (List.range 4).map fun i => BitVec.ofNat 8 (w / 2 ^ (8 * i))

def sysWrite (m : Machine) (fd buf len : Word) (s : Files) : Except Word (Word × Files) :=
  if fd < 3 then
    if !userRangeOk buf len then .ok (refused, s)
    else do
      -- Each byte goes to the screen and to the serial line.
      let _ ← m.copyIn buf len.toNat
      return (len, s)
  -- `sys_write_file`
  else if maxOpenFiles ≤ fd.toNat then .ok (refused, s)
  else
    let f := s.ofiles fd.toNat
    if !f.used || !f.writable then .ok (refused, s)
    else if !userRangeOk buf len then .ok (refused, s)
    else do
      let room := ofileCap - f.pos
      let _ ← m.copyIn buf (if room < len then room else len).toNat
      let (n, f) := f.write m.userMem buf len
      return (n, s.set fd.toNat f)

/-- The copy of a name; without one the call is refused. -/
def copyPath (m : Machine) (name len : Word) : Except Word (Option (List Byte)) :=
  if !userRangeOk name len then .ok none
  else if len = 0 ∨ nameSize - 1 < len.toNat then .ok none
  else do
    let bytes ← m.copyIn name len.toNat
    return some (bytes.takeWhile (· ≠ 0))

section Calls

variable (ata : Ata) (vol : Volume) (m : Machine)

def sysUnlink (name len : Word) (s : Files) : Except Word (Word × Files) := do
  let path ← copyPath m name len
  match path with
  | none => return (refused, s)
  | some path =>
    let (ok, io) := fatDelete ata vol path s.io
    return (if ok then 0 else refused, { s with io })

def sysStat (name len sizeOut : Word) (s : Files) : Except Word (Word × Files × Machine) := do
  let path ← copyPath m name len
  match path with
  | none => return (refused, s, m)
  | some path =>
    match fatStat ata vol path s.io with
    | (none, io) => return (refused, { s with io }, m)
    | (some stat, io) =>
      if sizeOut ≠ 0 ∧ userRangeOk sizeOut 4 then do
        let m ← m.copyOut sizeOut (wordBytes stat.size)
        return (0, { s with io }, m)
      else return (0, { s with io }, m)

/-- The value for `eax`, the descriptors with the disk, and the memory. -/
def fileCall (ticks : Word) (nr : Nat) (ebx ecx edx : Word) (s : Files) :
    Except Word (Word × Files × Machine) :=
  if nr = nrWrite then do
    let (value, s) ← sysWrite m ebx ecx edx s
    return (value, s, m)
  else if nr = nrOpen then do
    -- The name is copied before the call looks for a descriptor.
    let _ ← copyPath m ebx ecx
    let (value, s) := sysOpen ata vol m.userMem ebx ecx edx s
    return (value, s, m)
  else if nr = nrRead then do
    let ((value, bytes), s) := sysRead ebx ecx edx s
    let m ← m.copyOut ecx bytes
    return (value, s, m)
  else if nr = nrClose then
    let (value, s) := sysClose ata vol ebx s
    .ok (value, s, m)
  else if nr = nrBrk then .ok (if ebx = 0 then userMemEnd else refused, s, m)
  else if nr = nrLseek then
    let (value, s) := sysLseek ebx ecx edx s
    .ok (value, s, m)
  else if nr = nrUnlink then do
    let (value, s) ← sysUnlink ata vol m ebx ecx s
    return (value, s, m)
  else if nr = nrStat then sysStat ata vol m ebx ecx edx s
  else if nr = nrTime then .ok (ticks, s, m)
  else .ok (refused, s, m)

end Calls

def Regs.offEdx : Nat := 36
def Regs.offEcx : Nat := 40

-- The calls in `syscall_dispatch`, which finds its arguments in the frame.
def fileOthers (ata : Ata) (vol : Volume) (ticks : Word) (s : Files) (k : Kernel) (r : Nat) :
    Option Kernel :=
  match fileCall ata vol k.sys.machine ticks (k.word (r + Regs.offEax))
    (BitVec.ofNat 32 (k.word (r + Regs.offEbx))) (BitVec.ofNat 32 (k.word (r + Regs.offEcx)))
    (BitVec.ofNat 32 (k.word (r + Regs.offEdx))) s with
  | .error _ => none
  | .ok (value, _, m) => some ({ k with sys := ⟨m, k.sys.live⟩ : Kernel }.setEax r value.toNat)

def Spans (holds : Word → Prop) (a : Word) (n : Nat) : Prop :=
  ∀ i < n, holds (a + BitVec.ofNat 32 i)

theorem next_address (a : Word) (i : Nat) :
    a + 1 + BitVec.ofNat 32 i = a + BitVec.ofNat 32 (i + 1) := by
  rw [BitVec.ofNat_add, BitVec.add_assoc, BitVec.add_comm 1]
  rfl

theorem first_address (a : Word) : a + BitVec.ofNat 32 0 = a := BitVec.add_zero a

section Spans

variable {holds : Word → Prop} {a : Word}

theorem spans_zero : Spans holds a 0 := fun i low => absurd low i.not_lt_zero

theorem spans_succ {n : Nat} : Spans holds a (n + 1) ↔ holds a ∧ Spans holds (a + 1) n := by
  rw [Spans, forall_lt_succ, first_address]
  exact and_congr_right' (forall₂_congr fun i _ => by rw [next_address])

theorem Spans.congr {other : Word → Prop} {n : Nat}
    (same : ∀ i < n, (holds (a + BitVec.ofNat 32 i) ↔ other (a + BitVec.ofNat 32 i))) :
    Spans holds a n ↔ Spans other a n :=
  forall₂_congr same

end Spans

namespace Machine

variable {m : Machine}

def Loadable (m : Machine) (a : Word) : Prop := ∃ t, m.walk (a.toNat / 0x1000) = some t

def Storable (m : Machine) (a : Word) : Prop :=
  ∃ t, m.walk (a.toNat / 0x1000) = some t ∧ t.writable = true

theorem loadByte_exactly (a : Word) : Exactly (m.Loadable a) (· = m.userMem a) (m.loadByte a) := by
  constructor
  · rintro ⟨t, found⟩
    exact ⟨_, by rw [loadByte, found], by rw [userMem, loadByte, found]⟩
  · intro unmapped
    refine ⟨a, ?_⟩
    cases found : m.walk (a.toNat / 0x1000) with
    | none => rw [loadByte, found]
    | some t => exact absurd ⟨t, found⟩ unmapped

theorem copyIn_exactly (a : Word) (n : Nat) : Exactly (Spans m.Loadable a n)
    (· = (List.range n).map fun i => m.userMem (a + BitVec.ofNat 32 i)) (m.copyIn a n) := by
  induction n generalizing a with
  | zero =>
    have done : Exactly True (· = []) (m.copyIn a 0) := Exactly.ok rfl
    exact done.congr ⟨fun _ => spans_zero, fun _ => trivial⟩
  | succ n ih =>
    have whole : m.userMem a :: ((List.range n).map fun i => m.userMem (a + 1 + BitVec.ofNat 32 i)) =
        (List.range (n + 1)).map fun i => m.userMem (a + BitVec.ofNat 32 i) := by
      rw [List.range_succ_eq_map, List.map_cons, List.map_map, first_address]
      exact congrArg _ (List.map_congr_left fun i _ => congrArg m.userMem (next_address a i))
    have run : Exactly _ (· = (List.range (n + 1)).map fun i => m.userMem (a + BitVec.ofNat 32 i))
        (m.copyIn a (n + 1)) :=
      (loadByte_exactly a).bind fun _ b byte => (ih (a + 1)).bind fun _ bytes same =>
        Exactly.ok (by rw [byte, same, whole])
    refine run.congr ?_
    rw [spans_succ, and_true]

theorem storeByte_exactly (a : Word) (b : Byte) : Exactly (m.Storable a)
    (fun m' => ∃ t, m.walk (a.toNat / 0x1000) = some t ∧ t.writable = true ∧
      m' = m.putByte t.frame (a.toNat % 0x1000) b) (m.storeByte a b) := by
  constructor
  · rintro ⟨t, found, writable⟩
    refine ⟨_, ?_, t, found, writable, rfl⟩
    rw [storeByte, found]
    exact if_pos writable
  · intro refused
    refine ⟨a, ?_⟩
    cases found : m.walk (a.toNat / 0x1000) with
    | none => rw [storeByte, found]
    | some t =>
      rw [storeByte, found]
      exact if_neg fun writable => refused ⟨t, found, writable⟩

section Stores

variable {within : Nat → Prop} {live : Finset Nat}

theorem putByte_ready (ready : Ready within m live) {v : Nat} {t : Translation}
    (window : InUserWindow v) (found : m.walk v = some t) (off : Nat) (value : Byte) :
    Ready within (m.putByte t.frame off value) live ∧
      ∀ w, InUserWindow w → (m.putByte t.frame off value).walk w = m.walk w := by
  obtain ⟨member, user⟩ := walk_user ready window found
  obtain ⟨-, present, frame, -⟩ :=
    user_page ready.spaces member (Nat.lt_trans window.2 (by decide)) found user
  have tables := ready.spaces.mapped_ne_table member member window present
  rw [frame]
  refine ⟨ready_putByte ready member window present off value, fun w inside => ?_⟩
  have first : w / 1024 = 0 := Nat.div_eq_of_lt (Nat.lt_trans inside.2 (by decide))
  refine walk_congr rfl ?_ ?_
  · exact congrFun (setWord_mem_ne _ _ _ (Ne.symm tables.1)) _
  · rw [first]
    exact congrFun (setWord_mem_ne _ _ _ (Ne.symm tables.2)) _

theorem copyOut_exactly (bytes : List Byte) {a : Word} (ready : Ready within m live)
    (inside : Spans (fun x => InUserWindow (x.toNat / 0x1000)) a bytes.length) :
    Exactly (Spans m.Storable a bytes.length) (fun _ => True) (m.copyOut a bytes) := by
  induction bytes generalizing a m with
  | nil =>
    have done : Exactly True (fun _ => True) (m.copyOut a []) := Exactly.ok trivial
    exact done.congr ⟨fun _ => spans_zero, fun _ => trivial⟩
  | cons b rest ih =>
    rw [List.length_cons, spans_succ] at inside ⊢
    refine (storeByte_exactly a b).bind fun _ m' stored => ?_
    obtain ⟨t, found, -, rfl⟩ := stored
    obtain ⟨ready', kept⟩ := putByte_ready ready inside.1 found (a.toNat % 0x1000) b
    refine (ih ready' inside.2).congr (Spans.congr fun i low => ?_)
    rw [Storable, Storable, kept _ (inside.2 i low)]

end Stores

theorem copyOut_stored (bytes : List Byte) {a : Word} {m' : Machine}
    (inside : Spans (fun x => InUserWindow (x.toNat / 0x1000)) a bytes.length)
    (copied : m.copyOut a bytes = .ok m') : UserStored m m' := by
  induction bytes generalizing a m with
  | nil =>
    obtain rfl := Except.ok.inj copied
    exact .nil
  | cons b rest ih =>
    rw [List.length_cons, spans_succ] at inside
    rw [copyOut] at copied
    cases stored : m.storeByte a b with
    | error e =>
      rw [stored] at copied
      cases copied
    | ok m₁ =>
      obtain ⟨t, found, writable, rfl⟩ := (storeByte_exactly a b).holds stored
      rw [stored] at copied
      exact .cons inside.1 (Nat.mod_lt _ (by decide)) found writable (ih inside.2 copied)

end Machine

theorem range_window {a len : Word} (valid : userRangeOk a len = true) :
    Spans (fun x => InUserWindow (x.toNat / 0x1000)) a len.toNat := by
  intro i low
  have start : userMemStart.toNat = 0x200000 := rfl
  have stop : userMemEnd.toNat = 0x300000 := rfl
  have some' : len ≠ 0 := by
    rintro rfl
    exact absurd low i.not_lt_zero
  simp only [userRangeOk, if_neg some'] at valid
  split at valid
  next => cases valid
  next above =>
    split at valid
    next => cases valid
    next below =>
      split at valid
      next => cases valid
      next room =>
        rw [BitVec.lt_def] at above below room
        have left : (userMemEnd - a).toNat = 0x300000 - a.toNat := by
          rw [sub_toNat (by omega), stop]
        rw [BitVec.toNat_add, BitVec.toNat_ofNat]
        simp only [InUserWindow, userPgStart, userPgEnd]
        omega

def NameTaken (name len : Word) : Prop :=
  userRangeOk name len = true ∧ len ≠ 0 ∧ len.toNat ≤ nameSize - 1

/-- The bytes a call reads from its caller may be loaded and those that it stores may be stored: of a buffer, as
many as the file has or takes. -/
def Touchable (ata : Ata) (vol : Volume) (mem : UserMem) (loads stores : Word → Prop) (nr : Nat)
    (ebx ecx edx : Word) (s : Files) : Prop :=
  if nr = nrWrite then
    userRangeOk ecx edx = true →
      if ebx < 3 then Spans loads ecx edx.toNat
      else ebx.toNat < maxOpenFiles → (s.ofiles ebx.toNat).used = true →
        (s.ofiles ebx.toNat).writable = true →
        Spans loads ecx (min edx.toNat (ofileCap - (s.ofiles ebx.toNat).pos).toNat)
  else if nr = nrOpen ∨ nr = nrUnlink then NameTaken ebx ecx → Spans loads ebx ecx.toNat
  else if nr = nrRead then
    userRangeOk ecx edx = true → ebx.toNat < maxOpenFiles → (s.ofiles ebx.toNat).used = true →
      Spans stores ecx (min edx.toNat ((s.ofiles ebx.toNat).size - (s.ofiles ebx.toNat).pos).toNat)
  else if nr = nrStat then
    NameTaken ebx ecx → Spans loads ebx ecx.toNat ∧
      ((fatStat ata vol (copyName mem ebx ecx) s.io).1.isSome = true → edx ≠ 0 → userRangeOk edx 4 = true →
        Spans stores edx 4)
  else True

theorem NameTaken.window {name len : Word} (taken : NameTaken name len) :
    Spans (fun x => InUserWindow (x.toNat / 0x1000)) name len.toNat := range_window taken.1

theorem Spans.shorter {holds : Word → Prop} {a : Word} {n k : Nat} (spans : Spans holds a n)
    (le : k ≤ n) :
    Spans holds a k := fun i low => spans i (Nat.lt_of_lt_of_le low le)

theorem branch_iff {condition p q p' q' : Prop} [Decidable condition] (yes : p ↔ p') (no : q ↔ q') :
    (if condition then p else q) ↔ if condition then p' else q' := by
  rw [yes, no]

theorem Touchable.congr {ata : Ata} {vol : Volume} {mem : UserMem}
    {loads loads' stores stores' : Word → Prop} {nr : Nat} {ebx ecx edx : Word} {s : Files}
    (load : ∀ x : Word, InUserWindow (x.toNat / 0x1000) → (loads x ↔ loads' x))
    (store : ∀ x : Word, InUserWindow (x.toNat / 0x1000) → (stores x ↔ stores' x)) :
    Touchable ata vol mem loads stores nr ebx ecx edx s ↔
      Touchable ata vol mem loads' stores' nr ebx ecx edx s := by
  have loaded : ∀ {a : Word} {n : Nat}, Spans (fun x => InUserWindow (x.toNat / 0x1000)) a n →
      (Spans loads a n ↔ Spans loads' a n) :=
        fun inside => Spans.congr fun i low => load _ (inside i low)
  have stored : ∀ {a : Word} {n : Nat}, Spans (fun x => InUserWindow (x.toNat / 0x1000)) a n →
      (Spans stores a n ↔ Spans stores' a n) :=
        fun inside => Spans.congr fun i low => store _ (inside i low)
  unfold Touchable
  refine branch_iff ?_ (branch_iff ?_ (branch_iff ?_ (branch_iff ?_ Iff.rfl)))
  · refine forall_congr' fun valid => ?_
    have inside := range_window valid
    split
    next => exact loaded inside
    next => exact forall₃_congr fun _ _ _ => loaded (inside.shorter (Nat.min_le_left _ _))
  · exact forall_congr' fun taken => loaded taken.window
  · refine forall_congr' fun valid => forall₂_congr fun _ _ => ?_
    exact stored ((range_window valid).shorter (Nat.min_le_left _ _))
  · refine forall_congr' fun taken => and_congr (loaded taken.window) ?_
    exact forall₃_congr fun _ _ valid => stored (range_window valid)

section Calls

variable {within : Nat → Prop} {live : Finset Nat} (ata : Ata) (vol : Volume) {m : Machine}

theorem sysWrite_console {fd : Word} (console : fd < 3) (buf len : Word) (s : Files) :
    Exactly (userRangeOk buf len = true → Spans m.Loadable buf len.toNat) (fun r => r.2 = s)
      (sysWrite m fd buf len s) := by
  simp only [sysWrite, if_pos console]
  by_cases valid : userRangeOk buf len = true
  · have run : Exactly _ (fun r : Word × Files => r.2 = s) _ :=
      (copyIn_exactly (m := m) buf len.toNat).bind fun _ _ _ => Exactly.ok (a := (len, s)) rfl
    simp only [valid, Bool.not_true, Bool.false_eq_true, if_false]
    exact run.congr (by simp)
  · rw [if_pos (by simpa using valid)]
    exact Exactly.early (fun valid' => absurd valid' valid) rfl

theorem sysWrite_file {fd : Word} (file : ¬ fd < 3) (buf len : Word) (s : Files) :
    Exactly (userRangeOk buf len = true → fd.toNat < maxOpenFiles → (s.ofiles fd.toNat).used = true →
        (s.ofiles fd.toNat).writable = true →
          Spans m.Loadable buf (min len.toNat (ofileCap - (s.ofiles fd.toNat).pos).toNat))
      (· = sysWriteFile m.userMem fd buf len s) (sysWrite m fd buf len s) := by
  simp only [sysWrite, sysWriteFile, if_neg file]
  by_cases slot : maxOpenFiles ≤ fd.toNat
  · simp only [if_pos slot]
    exact Exactly.early (fun _ inside => absurd slot (Nat.not_le.mpr inside)) rfl
  · simp only [if_neg slot]
    by_cases closed : (!(s.ofiles fd.toNat).used || !(s.ofiles fd.toNat).writable) = true
    · simp only [if_pos closed]
      refine Exactly.early (fun _ _ used writable => ?_) rfl
      simp [used, writable] at closed
    · simp only [if_neg closed]
      by_cases valid : userRangeOk buf len = true
      · simp only [valid, Bool.not_true, Bool.false_eq_true, if_false, clip_toNat]
        have open' : (s.ofiles fd.toNat).used = true ∧
            (s.ofiles fd.toNat).writable = true := by simpa using closed
        have run : Exactly _ (· = ((OpenFile.write (s.ofiles fd.toNat) m.userMem buf len).1,
            s.set fd.toNat (OpenFile.write (s.ofiles fd.toNat) m.userMem buf len).2)) _ :=
          (copyIn_exactly (m := m) buf (min len.toNat (ofileCap - (s.ofiles fd.toNat).pos).toNat)).bind
            fun _ _ _ => Exactly.ok rfl
        refine run.congr ?_
        simp only [and_true, open', forall_const, Nat.not_le.mp slot]
      · simp only [if_pos (show (!userRangeOk buf len) = true by simpa using valid)]
        exact Exactly.early (fun valid' => absurd valid' valid) rfl

theorem copyPath_exactly (name len : Word) :
    Exactly (NameTaken name len → Spans m.Loadable name len.toNat)
      (fun path => (path.isSome = true ↔ NameTaken name len) ∧
        ∀ p, path = some p → p = copyName m.userMem name len)
      (copyPath m name len) := by
  unfold copyPath
  by_cases valid : userRangeOk name len = true
  · simp only [valid, Bool.not_true, Bool.false_eq_true, if_false]
    by_cases sized : len = 0 ∨ nameSize - 1 < len.toNat
    · have refused : ¬ NameTaken name len := fun taken => by
        have short := taken.2.2
        exact sized.elim taken.2.1 fun long => absurd long (by omega)
      rw [if_pos sized]
      exact Exactly.early (fun taken => absurd taken refused) ⟨by simp [refused], by simp⟩
    · rw [if_neg sized]
      rw [not_or, Nat.not_lt] at sized
      have taken : NameTaken name len := ⟨valid, sized⟩
      have run : Exactly _ (fun path : Option (List Byte) => (path.isSome = true ↔ NameTaken name len) ∧
          ∀ p, path = some p → p = copyName m.userMem name len) _ :=
        (copyIn_exactly (m := m) name len.toNat).bind fun _ bytes same =>
          Exactly.ok (a := some (bytes.takeWhile (· ≠ 0)))
            ⟨by simp [taken], fun p found => by rw [← Option.some.inj found, same, copyName]⟩
      exact run.congr (by simp [taken])
  · have refused : ¬ NameTaken name len := fun taken => valid taken.1
    rw [if_pos (by simpa using valid)]
    exact Exactly.early (fun taken => absurd taken refused) ⟨by simp [refused], by simp⟩

theorem sysRead_bytes (fd buf len : Word) (s : Files) :
    (sysRead fd buf len s).1.2.length =
      if userRangeOk buf len = true ∧ fd.toNat < maxOpenFiles ∧ (s.ofiles fd.toNat).used = true then
        min len.toNat ((s.ofiles fd.toNat).size - (s.ofiles fd.toNat).pos).toNat
      else 0 := by
  unfold sysRead
  by_cases slot : maxOpenFiles ≤ fd.toNat
  · rw [if_pos slot, if_neg fun open' => absurd slot (Nat.not_le.mpr open'.2.1)]
    rfl
  · rw [if_neg slot]
    by_cases used : (s.ofiles fd.toNat).used = true
    · by_cases valid : userRangeOk buf len = true
      · simp [used, valid, Nat.not_le.mp slot, OpenFile.read, clip_toNat]
      · simp [used, valid]
    · simp [used]

theorem read_exactly (ready : Ready within m live) (fd buf len : Word) (s : Files) :
    Exactly (userRangeOk buf len = true → fd.toNat < maxOpenFiles → (s.ofiles fd.toNat).used = true →
      Spans m.Storable buf (min len.toNat ((s.ofiles fd.toNat).size - (s.ofiles fd.toNat).pos).toNat))
      (fun _ => True) (m.copyOut buf (sysRead fd buf len s).1.2) := by
  have count := sysRead_bytes fd buf len s
  by_cases open' : userRangeOk buf len = true ∧ fd.toNat < maxOpenFiles ∧
    (s.ofiles fd.toNat).used = true
  · rw [if_pos open'] at count
    have inside := (range_window open'.1).shorter
      (Nat.min_le_left _ ((s.ofiles fd.toNat).size - (s.ofiles fd.toNat).pos).toNat)
    rw [← count] at inside ⊢
    refine (copyOut_exactly _ ready inside).congr ?_
    simp only [open', forall_const]
  · rw [if_neg open'] at count
    rw [List.length_eq_zero_iff.mp count]
    exact Exactly.early (fun valid slot used => absurd ⟨valid, slot, used⟩ open') trivial

theorem sysUnlink_exactly (name len : Word) (s : Files) :
    Exactly (NameTaken name len → Spans m.Loadable name len.toNat) (fun _ => True)
      (sysUnlink ata vol m name len s) := by
  refine ((copyPath_exactly name len).bind (q := True) fun _ path _ => ?_).congr
    (and_iff_left trivial)
  cases path with
  | none => exact Exactly.ok trivial
  | some path => exact Exactly.ok trivial

theorem sysStat_exactly (ready : Ready within m live) (name len sizeOut : Word) (s : Files) :
    Exactly (NameTaken name len → Spans m.Loadable name len.toNat ∧
      ((fatStat ata vol (copyName m.userMem name len) s.io).1.isSome = true → sizeOut ≠ 0 →
        userRangeOk sizeOut 4 = true → Spans m.Storable sizeOut 4)) (fun _ => True)
      (sysStat ata vol m name len sizeOut s) := by
  have run : Exactly _ (fun _ => True) (sysStat ata vol m name len sizeOut s) :=
    (copyPath_exactly name len).bind (q := NameTaken name len →
      (fatStat ata vol (copyName m.userMem name len) s.io).1.isSome = true → sizeOut ≠ 0 →
        userRangeOk sizeOut 4 = true → Spans m.Storable sizeOut 4) fun _ path same => by
      obtain ⟨taken, named⟩ := same
      cases path with
      | none => exact Exactly.early (fun taken' => absurd (taken.mpr taken') (by simp)) trivial
      | some path =>
        obtain rfl := named path rfl
        rcases found : fatStat ata vol (copyName m.userMem name len) s.io with ⟨_ | stat, io⟩
        · simp only [found]
          exact Exactly.early (fun _ some' => absurd some' (by simp)) trivial
        · simp only [found]
          by_cases stores : sizeOut ≠ 0 ∧ userRangeOk sizeOut 4 = true
          · rw [if_pos stores]
            have run : Exactly _ (fun _ : Word × Files × Machine => True) _ :=
              (copyOut_exactly (wordBytes stat.size) ready (range_window stores.2)).bind fun _ m' _ =>
                Exactly.ok (a := (0, { s with io }, m')) trivial
            exact run.congr ⟨fun holds _ _ _ _ => holds.1, fun holds =>
              ⟨holds (taken.mp rfl) rfl stores.1 stores.2, trivial⟩⟩
          · rw [if_neg stores]
            exact Exactly.early (fun _ _ some' valid => absurd ⟨some', valid⟩ stores) trivial
  refine run.congr ?_
  rw [← forall_and]

theorem fileCall_exactly (ready : Ready within m live) (ticks : Word) (nr : Nat)
    (ebx ecx edx : Word) (s : Files) :
    Exactly (Touchable ata vol m.userMem m.Loadable m.Storable nr ebx ecx edx s) (fun _ => True)
      (fileCall ata vol m ticks nr ebx ecx edx s) := by
  have wrap : ∀ {α β : Type} {p : Prop} {post : α → Prop} {call : Except Word α} (result : α → β),
      Exactly p post call → Exactly p (fun _ => True) (call >>= fun a => .ok (result a)) :=
        fun result exact' =>
    (exact'.bind fun _ _ _ => Exactly.ok trivial).congr (and_iff_left trivial)
  by_cases write : nr = nrWrite
  · simp only [Touchable, fileCall, if_pos write]
    by_cases console : ebx < 3
    · simp only [if_pos console]
      exact wrap _ (sysWrite_console console ecx edx s)
    · simp only [if_neg console]
      exact wrap _ (sysWrite_file console ecx edx s)
  · by_cases open' : nr = nrOpen
    · simp only [Touchable, fileCall, open', true_or, if_true]
      exact wrap _ (copyPath_exactly ebx ecx)
    · by_cases unlink : nr = nrUnlink
      · subst unlink
        exact wrap _ (sysUnlink_exactly ata vol ebx ecx s)
      · simp only [Touchable, fileCall, if_neg write, open', unlink, or_self, if_false]
        refine Exactly.ite (fun _ => wrap _ (read_exactly ready ebx ecx edx s)) fun _ => ?_
        by_cases stat : nr = nrStat
        · subst stat
          exact sysStat_exactly ata vol ready ebx ecx edx s
        · simp only [if_neg stat]
          split
          next => exact Exactly.ok trivial
          next =>
            split
            next => exact Exactly.ok trivial
            next =>
              split
              next => exact Exactly.ok trivial
              next => split <;> exact Exactly.ok trivial

end Calls

section Returned

variable {ata : Ata} {vol : Volume} {m m' : Machine} {ticks : Word} {s s' : Files} {value : Word}

theorem read_stored {fd buf len : Word}
    (copied : m.copyOut buf (sysRead fd buf len s).1.2 = .ok m') :
    UserStored m m' := by
  have count := sysRead_bytes fd buf len s
  by_cases open' : userRangeOk buf len = true ∧ fd.toNat < maxOpenFiles ∧
    (s.ofiles fd.toNat).used = true
  · rw [if_pos open'] at count
    refine copyOut_stored _ ?_ copied
    rw [count]
    exact (range_window open'.1).shorter (Nat.min_le_left _ _)
  · rw [if_neg open'] at count
    rw [List.length_eq_zero_iff.mp count] at copied
    obtain rfl := Except.ok.inj copied
    exact .nil

theorem stat_stored {name len sizeOut : Word}
    (returned : sysStat ata vol m name len sizeOut s = .ok (value, s', m')) : UserStored m m' := by
  obtain ⟨path, -, returned⟩ := of_bind returned
  cases path with
  | none =>
    obtain ⟨-, -, rfl⟩ := Except.ok.inj returned
    exact .nil
  | some path =>
    rcases found : fatStat ata vol path s.io with ⟨_ | stat, io⟩
    · simp only [found] at returned
      obtain ⟨-, -, rfl⟩ := Except.ok.inj returned
      exact .nil
    · simp only [found] at returned
      split at returned
      next stores =>
        obtain ⟨m₁, copied, returned⟩ := of_bind returned
        obtain ⟨-, -, rfl⟩ := Except.ok.inj returned
        exact copyOut_stored _ (range_window stores.2) copied
      next =>
        obtain ⟨-, -, rfl⟩ := Except.ok.inj returned
        exact .nil

theorem fileCall_stored {nr : Nat} {ebx ecx edx : Word}
    (returned : fileCall ata vol m ticks nr ebx ecx edx s = .ok (value, s', m')) :
    UserStored m m' := by
  have kept : ∀ {value' : Word} {s₁ : Files},
      (.ok (value', s₁, m) : Except Word (Word × Files × Machine)) = .ok (value, s', m') →
        UserStored m m' :=
        fun same => by
    obtain ⟨-, -, rfl⟩ := Except.ok.inj same
    exact .nil
  by_cases read : nr = nrRead
  · subst read
    obtain ⟨m₁, copied, returned⟩ := of_bind returned
    obtain ⟨-, -, rfl⟩ := Except.ok.inj returned
    exact read_stored copied
  · by_cases stat : nr = nrStat
    · subst stat
      exact stat_stored returned
    · simp only [fileCall, if_neg read, if_neg stat] at returned
      split at returned
      next =>
        obtain ⟨r, -, returned⟩ := of_bind returned
        exact kept returned
      next =>
        split at returned
        next =>
          obtain ⟨r, -, returned⟩ := of_bind returned
          exact kept returned
        next =>
          split at returned
          next => exact kept returned
          next =>
            split at returned
            next => exact kept returned
            next =>
              split at returned
              next => exact kept returned
              next =>
                split at returned
                next =>
                  obtain ⟨r, -, returned⟩ := of_bind returned
                  exact kept returned
                next => split at returned <;> exact kept returned

theorem fileCall_run {regs : Regs} {call : TableCall} (made : regs.tableCall m.userMem = some call)
    (returned : fileCall ata vol m ticks regs.eax (BitVec.ofNat 32 regs.ebx) (BitVec.ofNat 32 regs.ecx)
      (BitVec.ofNat 32 regs.edx) s = .ok (value, s', m')) : s' = call.run ata vol s := by
  simp only [Regs.tableCall] at made
  split at made
  next => cases made
  next =>
    split at made
    next open' =>
      obtain rfl := Option.some.inj made
      rw [open'] at returned
      obtain ⟨path, -, returned⟩ := of_bind returned
      obtain ⟨-, rfl, -⟩ := Except.ok.inj returned
      rfl
    next =>
      split at made
      next read =>
        obtain rfl := Option.some.inj made
        rw [read] at returned
        obtain ⟨m₁, -, returned⟩ := of_bind returned
        obtain ⟨-, rfl, -⟩ := Except.ok.inj returned
        rfl
      next =>
        split at made
        next write =>
          obtain rfl := Option.some.inj made
          rw [write.1] at returned
          obtain ⟨r, stored, returned⟩ := of_bind returned
          obtain rfl := (sysWrite_file write.2 _ _ s).holds stored
          obtain ⟨-, rfl, -⟩ := Except.ok.inj returned
          rfl
        next =>
          split at made
          next close =>
            obtain rfl := Option.some.inj made
            rw [close] at returned
            obtain ⟨-, rfl, -⟩ := Except.ok.inj returned
            rfl
          next =>
            split at made
            next seek =>
              obtain rfl := Option.some.inj made
              rw [seek] at returned
              obtain ⟨-, rfl, -⟩ := Except.ok.inj returned
              rfl
            next => cases made

end Returned

end NovaKernel
