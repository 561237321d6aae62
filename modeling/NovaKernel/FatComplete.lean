import NovaKernel.FatReading

set_option autoImplicit false

namespace NovaKernel

theorem View.find_ge {v : View} {norm : List Byte} {n k i : Nat}
    (found : v.find norm n k = some i) :
    k ≤ i := by
  induction n generalizing k with
  | zero => simp [View.find] at found
  | succ n ih =>
    rw [View.find] at found
    split at found
    next => cases found
    next =>
      split at found
      next => exact Nat.le_of_eq (Option.some.inj found)
      next => exact Nat.le_of_succ_le (ih found)

-- The directory sectors `i ..` up to that of slot `k` are read from access `t` on.
def DirReadable (faults : Faults) (vol : Volume) (t i k : Nat) : Prop :=
  ∀ j, i + j ≤ k / 16 → Readable faults (t + j) (vol.rootLba + (i + j))

section Directory

variable {faults : Faults} {vol : Volume} {norm : List Byte} (long : norm.length = 11)

include long

variable (faults vol) in
theorem dirLocate_cases (n i : Nat) (total : i + n = vol.rootSectors) (s : Io) :
    (∃ k s', (view vol s.disk).find norm (16 * n) (16 * i) = some k ∧
        DirReadable faults vol s.accesses i k ∧
        dirLocate (device faults) vol norm n i s = (some (32 * (k % 16)), s') ∧
        After s s' (k / 16 - i + 1) ∧ ∀ j < 32, s'.secbuf (32 * (k % 16) + j) =
          (view vol s.disk).dir k j) ∨
      ∃ s', dirLocate (device faults) vol norm n i s = (none, s') ∧
        ∀ k, (view vol s.disk).find norm (16 * n) (16 * i) = some k →
          ¬ DirReadable faults vol s.accesses i k := by
  induction n generalizing i s with
  | zero => exact .inr ⟨s, rfl, fun k none' => by simp [View.find] at none'⟩
  | succ n ih =>
    by_cases readable : Readable faults s.accesses (vol.rootLba + i)
    · obtain ⟨s₁, loaded, buf, after⟩ := loadSecbuf_done readable
      have holds := holds_sector vol s (show i < vol.rootSectors by omega)
      rw [← buf] at holds
      have scanned := scanEntries_spec long holds (16 * n) 16 0 (by decide)
      rw [Nat.mul_zero, Nat.add_zero, ← Nat.mul_succ, Nat.succ_eq_one_add, Nat.add_comm 1,
        show 16 + 16 * n = 16 * (n + 1) by omega] at scanned
      simp only [dirLocate, loaded]
      rcases scanned with ⟨k, first, scan, found⟩ | ⟨scan, none'⟩ | ⟨scan, more⟩
      · have place : (16 * i + k) % 16 = k := by omega
        have sector : (16 * i + k) / 16 = i := by omega
        refine .inl ⟨16 * i + k, s₁, found, ?_, by rw [scan, place], ?_, ?_⟩
        · intro j low
          obtain rfl : j = 0 := by omega
          exact readable
        · rw [sector, Nat.sub_self]
          exact after
        · rw [place]
          exact holds k first
      · refine .inr ⟨s₁, by rw [scan], fun k some' => ?_⟩
        rw [none'] at some'
        cases some'
      · rw [scan, more]
        have shift : ∀ j, s.accesses + (j + 1) = s.accesses + 1 + j := by omega
        rcases ih (i + 1) (by omega) s₁ with ⟨k, s', found, later, call, after', bytes⟩ | ⟨s', call, absent⟩
        · rw [after.disk] at found bytes
          have above := View.find_ge found
          refine .inl ⟨k, s', found, ?_, call, ?_, bytes⟩
          · intro j low
            cases j with
            | zero => exact readable
            | succ j =>
              have next := later j (by omega)
              rw [after.accesses] at next
              rwa [shift, show i + (j + 1) = i + 1 + j by omega]
          · have count : k / 16 - i + 1 = 1 + (k / 16 - (i + 1) + 1) := by omega
            rw [count]
            exact after.trans after'
        · refine .inr ⟨s', call, fun k found all => ?_⟩
          refine absent k (by rw [after.disk]; exact found) fun j low => ?_
          have next := all (j + 1) (by omega)
          rw [after.accesses]
          rwa [shift, show i + (j + 1) = i + 1 + j by omega] at next
    · obtain ⟨s₁, failed⟩ := loadSecbuf_failed readable
      refine .inr ⟨s₁, by simp only [dirLocate, failed], fun k found all => ?_⟩
      have above := View.find_ge found
      exact readable (all 0 (by omega))

end Directory

/-- The call is refused, or the size and the bytes are those of the first matching entry. -/
def CompleteRead (vol : Volume) (disk : Nat → Byte) (norm : List Byte) (max : Nat) :
    Option (Nat × List Byte) → Prop
  | none => True
  | some (size, out) => ∃ k, (view vol disk).find norm (16 * vol.rootSectors) 0 = some k ∧
      size = min ((view vol disk).size k) max ∧
      out = (List.range size).map (chainByte vol disk ((view vol disk).start k))

/-- If the directory can be read up to the matching entry, the chain can be read through from there. -/
def ReadsComplete (faults : Faults) (vol : Volume) (norm : List Byte) (max : Nat) (s : Io) : Prop :=
  vol.mounted = true → ∀ k, (view vol s.disk).find norm (16 * vol.rootSectors) 0 = some k →
    DirReadable faults vol s.accesses 0 k →
      ReadsThrough faults vol s.disk (min ((view vol s.disk).size k) max) 65536 ((view vol s.disk).start k) 0
        (s.accesses + (k / 16 + 1))

section Calls

variable (faults : Faults) (vol : Volume) (name : List Byte) (max : Nat) (s : Io)

/-- A read that is reported is complete exactly if no link is lost on the way. -/
theorem fatRead_complete_iff :
    CompleteRead vol s.disk (normName name) max (fatRead (device faults) vol name max s).1 ↔
      ReadsComplete faults vol (normName name) max s := by
  by_cases mounted : vol.mounted = true
  · have guard : ¬ (!vol.mounted) = true := by simp [mounted]
    rw [fatRead, if_neg guard]
    rcases dirLocate_cases faults vol (normName_length name) vol.rootSectors 0 (Nat.zero_add _) s with
      ⟨k, s₁, found, readable, call, after, bytes⟩ | ⟨s₁, call, absent⟩
    · have entry : ∀ j < 32, entryAt s₁.secbuf (32 * (k % 16)) j =
          (view vol s.disk).dir k j := bytes
      have fsize : u32Of (entryAt s₁.secbuf (32 * (k % 16))) 28 = (view vol s.disk).size k := by
        rw [u32Of, entry 28 (by decide), entry (28 + 1) (by decide), entry (28 + 2) (by decide),
          entry (28 + 3) (by decide)]
        rfl
      have start : u16Of (entryAt s₁.secbuf (32 * (k % 16))) 26 = (view vol s.disk).start k := by
        rw [u16Of, entry 26 (by decide), entry (26 + 1) (by decide)]
        rfl
      simp only [call, fsize, start]
      rw [Nat.mul_zero] at found
      have condition : ReadsComplete faults vol (normName name) max s ↔
          ReadsThrough faults vol s₁.disk (min ((view vol s.disk).size k) max) 65536
            ((view vol s.disk).start k) ([] : List Byte).length s₁.accesses := by
        rw [after.disk, after.accesses, Nat.sub_zero]
        constructor
        · intro complete
          exact complete mounted k found readable
        · intro through _ k' found' _
          obtain rfl := Option.some.inj (found.symm.trans found')
          exact through
      rw [condition]
      generalize result : readChain (device faults) vol ((view vol s.disk).size k) max 65536
        ((view vol s.disk).start k) [] s₁ = r
      have read : (readChain (device faults) vol ((view vol s.disk).size k) max 65536
        ((view vol s.disk).start k) [] s₁).1 = r.1 := congrArg Prod.fst result
      constructor
      · intro complete
        by_contra short
        obtain ⟨out, some', below⟩ := readChain_short _ _ _ _ short
        rw [read] at some'
        obtain ⟨_, s₂⟩ := r
        dsimp only at some'
        subst some'
        dsimp only at complete
        obtain ⟨k', found', size, -⟩ := complete
        obtain rfl := Option.some.inj (found.symm.trans found')
        rw [if_pos (by omega)] at size
        omega
      · intro through
        obtain ⟨_ | out, s₂⟩ := r
        · trivial
        · have all := readChain_through _ _ _ _ through read
          rw [List.length_nil, Nat.sub_zero, List.nil_append, after.disk] at all
          have length : out.length = min ((view vol s.disk).size k) max := by
            rw [all, List.length_map, List.length_range]
          have size : (if out.length < (view vol s.disk).size k then out.length else
              (view vol s.disk).size k) = min ((view vol s.disk).size k) max := by
            split <;> omega
          exact ⟨k, found, size, by rw [size]; exact all⟩
    · simp only [call]
      refine iff_of_true trivial fun _ k found readable => ?_
      exact absurd readable (absent k found)
  · have guard : (!vol.mounted) = true := by simp [mounted]
    rw [fatRead, if_pos guard]
    exact iff_of_true trivial fun there => absurd there mounted

end Calls

def twoClusterFile : Io := { blankIo with
  disk := putEntry (fun a => if a = 515 then 0x03 else if a = 516 ∨ a = 517 then 0xF0 else if a = 518 then 0xFF
    else 0) 9728 (newEntry (normName [0x41]) 2 1024) }

def brokenTable : Faults := fun _ _ lba => lba == 1

theorem brokenTable_read : ((fatRead (device brokenTable) floppy [0x41] 4096 twoClusterFile).1.map Prod.fst) =
    some 512 := by
  decide +kernel

theorem twoClusterFile_entry :
    (view floppy twoClusterFile.disk).find (normName [0x41]) (16 * floppy.rootSectors) 0 = some 0 ∧
      (view floppy twoClusterFile.disk).size 0 = 1024 := by
  decide +kernel

/-- Half of the file is reported as all of it. -/
theorem fatRead_shortened : ¬ ∀ (faults : Faults) (vol : Volume) (name : List Byte) (max : Nat) (s : Io),
    CompleteRead vol s.disk (normName name) max (fatRead (device faults) vol name max s).1 := by
  intro always
  have complete := always brokenTable floppy [0x41] 4096 twoClusterFile
  obtain ⟨⟨size, out⟩, result, same⟩ := Option.map_eq_some_iff.mp brokenTable_read
  rw [result] at complete
  obtain ⟨k, found, length, -⟩ := complete
  obtain rfl := Option.some.inj (twoClusterFile_entry.1.symm.trans found)
  rw [twoClusterFile_entry.2] at length
  dsimp only at same
  omega

end NovaKernel
