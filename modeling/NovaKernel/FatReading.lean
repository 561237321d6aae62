import NovaKernel.FatDir
import NovaKernel.Floppy

set_option autoImplicit false

namespace NovaKernel

def Readable (faults : Faults) (t lba : Nat) : Prop :=
  faults t false lba = false ∧ lba < diskSectors

structure After (s s' : Io) (k : Nat) : Prop where
  disk : s'.disk = s.disk
  accesses : s'.accesses = s.accesses + k

theorem After.refl (s : Io) : After s s 0 := ⟨rfl, rfl⟩

theorem After.trans {s s' s'' : Io} {k k' : Nat} (first : After s s' k) (second : After s' s'' k') :
    After s s'' (k + k') :=
  ⟨second.disk.trans first.disk, by rw [second.accesses, first.accesses, Nat.add_assoc]⟩

section Accesses

variable {faults : Faults} {lba : Nat} {s : Io}

theorem readable_guard : Readable faults s.accesses lba ↔
    ¬ (faults s.accesses false lba || decide (diskSectors ≤ lba)) = true := by
  simp only [Readable, Bool.or_eq_true, decide_eq_true_eq, not_or, Bool.not_eq_true, Nat.not_le]

variable (lba) in
theorem readSector_done (readable : Readable faults s.accesses lba) :
    ∃ s', (device faults).readSector lba s = (some (sectorOf s.disk lba), s') ∧ After s s' 1 :=
  ⟨{ s with accesses := s.accesses + 1 }, by simp only [device, if_neg (readable_guard.mp readable)], rfl, rfl⟩

theorem readSector_failed (unreadable : ¬ Readable faults s.accesses lba) :
    ∃ s', (device faults).readSector lba s = (none, s') := by
  rw [readable_guard, not_not] at unreadable
  exact ⟨{ s with accesses := s.accesses + 1 }, by simp only [device, if_pos unreadable]⟩

theorem loadSecbuf_done (readable : Readable faults s.accesses lba) :
    ∃ s', loadSecbuf (device faults) lba s = (true, s') ∧ s'.secbuf = sectorOf s.disk lba ∧
      After s s' 1 := by
  obtain ⟨s', read, after⟩ := readSector_done _ readable
  exact ⟨{ s' with secbuf := sectorOf s.disk lba }, by simp only [loadSecbuf, read], rfl, after.disk,
    after.accesses⟩

theorem loadSecbuf_failed (unreadable : ¬ Readable faults s.accesses lba) :
    ∃ s', loadSecbuf (device faults) lba s = (false, s') := by
  obtain ⟨s', failed⟩ := readSector_failed unreadable
  exact ⟨s', by simp only [loadSecbuf, failed]⟩

end Accesses

instance (c : Nat) : Decidable (Split c) := inferInstanceAs (Decidable ((c + c / 2) % 512 = 511))

def linkReads (c : Nat) : Nat := if Split c then 2 else 1

def LinkReadable (faults : Faults) (vol : Volume) (t c : Nat) : Prop :=
  Readable faults t (fatSector vol 0 c) ∧
    (Split c → Readable faults (t + 1) (fatSector vol 0 c + 1))

section Links

variable {faults : Faults} {vol : Volume} {c : Nat} {s : Io}

theorem fatSector_first (vol : Volume) (c : Nat) :
    fatSector vol 0 c = vol.fatLba + (c + c / 2) / 512 := by
  simp only [fatSector, Nat.zero_mul, Nat.add_zero]

theorem fatNextCluster_done (readable : LinkReadable faults vol s.accesses c) :
    ∃ s', fatNextCluster (device faults) vol c s = (fatEntry vol s.disk 0 c, s') ∧
      After s s' (linkReads c) := by
  have addr : fatAddr vol 0 c = 512 * (vol.fatLba + (c + c / 2) / 512) + (c + c / 2) % 512 := by
    simp only [fatAddr, Nat.zero_mul, Nat.add_zero]
    omega
  obtain ⟨first, second⟩ := readable
  rw [fatSector_first] at first second
  obtain ⟨s₁, loaded, buf, after⟩ := loadSecbuf_done first
  by_cases split : (c + c / 2) % 512 = 511
  · rw [← after.accesses] at second
    obtain ⟨s₂, loaded₂, buf₂, after₂⟩ := loadSecbuf_done (second split)
    have reads : linkReads c = 1 + 1 := if_pos split
    refine ⟨s₂, ?_, reads ▸ after.trans after₂⟩
    have next : 512 * (vol.fatLba + (c + c / 2) / 512 + 1) + 0 = fatAddr vol 0 c + 1 := by omega
    simp only [fatNextCluster, loaded, if_pos split, loaded₂, buf, buf₂, after.disk, sectorOf, next, fatEntry]
    rw [addr, split]
  · have reads : linkReads c = 1 := if_neg split
    refine ⟨s₁, ?_, reads ▸ after⟩
    simp only [fatNextCluster, loaded, if_neg split, buf, sectorOf, fatEntry]
    rw [addr, Nat.add_assoc]

-- A failure reads like the end of a chain.
theorem fatNextCluster_failed (unreadable : ¬ LinkReadable faults vol s.accesses c) :
    ∃ s', fatNextCluster (device faults) vol c s = (0xFFF, s') := by
  by_cases first : Readable faults s.accesses (vol.fatLba + (c + c / 2) / 512)
  · obtain ⟨s₁, loaded, -, after⟩ := loadSecbuf_done first
    have second : Split c ∧ ¬ Readable faults (s.accesses + 1) (vol.fatLba + (c + c / 2) / 512 + 1) := by
      rw [LinkReadable, fatSector_first] at unreadable
      by_contra fine
      exact unreadable ⟨first, fun split => by_contra fun failed => fine ⟨split, failed⟩⟩
    have split : (c + c / 2) % 512 = 511 := second.1
    rw [← after.accesses] at second
    obtain ⟨s₂, failed⟩ := loadSecbuf_failed second.2
    exact ⟨s₂, by simp only [fatNextCluster, loaded, if_pos split, failed]⟩
  · obtain ⟨s₁, failed⟩ := loadSecbuf_failed first
    exact ⟨s₁, by simp only [fatNextCluster, failed]⟩

end Links

-- The sectors of a cluster that are read when `got` bytes of `need` are there.
def sectorsLeft (sectors need got : Nat) : Nat := min sectors ((need - got + 511) / 512)

section Clusters

variable {faults : Faults} {fsize max : Nat}

theorem sectorsLeft_succ (n : Nat) {need got : Nat} (more : got < need) :
    sectorsLeft (n + 1) need got = sectorsLeft n need (got + min 512 (need - got)) + 1 := by
  simp only [sectorsLeft]
  omega

theorem readCluster_done (n lba : Nat) (out : List Byte) (s : Io)
    (readable : ∀ i < sectorsLeft n (min fsize max) out.length, Readable faults (s.accesses + i) (lba + i)) :
    ∃ s', readCluster (device faults) fsize max n lba out s =
      (some (out ++ (List.range (min (512 * n) (min fsize max - out.length))).map fun j =>
        s.disk (512 * lba + j)), s') ∧ After s s' (sectorsLeft n (min fsize max) out.length) := by
  induction n generalizing lba out s with
  | zero =>
    refine ⟨s, by simp [readCluster], ?_⟩
    rw [sectorsLeft, Nat.zero_min]
    exact .refl s
  | succ n ih =>
    by_cases more : out.length < fsize ∧ out.length < max
    · have missing : out.length < min fsize max := Nat.lt_min.mpr more
      rw [sectorsLeft_succ n missing] at readable ⊢
      obtain ⟨s₁, read, after⟩ := readSector_done lba (readable 0 (Nat.succ_pos _))
      have same : min (min (fsize - out.length) 512) (max - out.length) =
          min 512 (min fsize max - out.length) := by omega
      generalize taken : min 512 (min fsize max - out.length) = count at same readable ⊢
      have length : (out ++ (List.range count).map (sectorOf s.disk lba)).length =
          out.length + count := by simp
      obtain ⟨s', call, after'⟩ :=
        ih (lba + 1) (out ++ (List.range count).map (sectorOf s.disk lba)) s₁
        fun i low => by
          rw [length] at low
          have later := readable (i + 1) (by omega)
          rw [after.accesses]
          rwa [Nat.add_assoc, Nat.add_assoc, Nat.add_comm 1 i]
      rw [length] at call after'
      refine ⟨s', ?_, Nat.add_comm _ 1 ▸ after.trans after'⟩
      rw [readCluster, if_pos more]
      simp only [read, same, call, after.disk, List.append_assoc, Prod.mk.injEq, Option.some.injEq,
        and_true, List.append_cancel_left_eq]
      -- The first sector's bytes, and then those of the others.
      by_cases whole : count = 512
      · have split : min (512 * (n + 1)) (min fsize max - out.length) =
            512 + min (512 * n) (min fsize max - (out.length + count)) := by omega
        rw [split, List.range_add, List.map_append, List.map_map, whole]
        congr 1
        refine List.map_congr_left fun j _ => ?_
        rw [Function.comp_apply, show 512 * (lba + 1) + j = 512 * lba + (512 + j) by omega]
      · have none' : min (512 * n) (min fsize max - (out.length + count)) = 0 := by omega
        have part : min (512 * (n + 1)) (min fsize max - out.length) = count := by omega
        rw [none', part]
        simp [sectorOf]
    · have none' : min (512 * (n + 1)) (min fsize max - out.length) = 0 := by omega
      have nothing : sectorsLeft (n + 1) (min fsize max) out.length = 0 := by
        simp only [sectorsLeft]
        omega
      rw [nothing]
      exact ⟨s, by simp [readCluster, more, none'], .refl s⟩

theorem readCluster_failed (n lba : Nat) (out : List Byte) (s : Io) (i : Nat)
    (low : i < sectorsLeft n (min fsize max) out.length)
    (unreadable : ¬ Readable faults (s.accesses + i) (lba + i)) :
    ∃ s', readCluster (device faults) fsize max n lba out s = (none, s') := by
  induction n generalizing lba out s i with
  | zero => simp [sectorsLeft] at low
  | succ n ih =>
    have missing : out.length < min fsize max := by
      simp only [sectorsLeft] at low
      omega
    rw [readCluster, if_pos (Nat.lt_min.mp missing)]
    by_cases first : Readable faults s.accesses lba
    · obtain ⟨s₁, read, after⟩ := readSector_done _ first
      obtain ⟨i, rfl⟩ : ∃ j, i = j + 1 := by
        cases i with
        | zero => exact absurd first unreadable
        | succ i => exact ⟨i, rfl⟩
      have same : min (min (fsize - out.length) 512) (max - out.length) =
          min 512 (min fsize max - out.length) := by omega
      rw [sectorsLeft_succ n missing] at low
      simp only [read, same]
      refine ih (lba + 1) _ s₁ i (by simp only [List.length_append, List.length_map, List.length_range]; omega) ?_
      rw [after.accesses]
      rwa [Nat.add_assoc, Nat.add_assoc, Nat.add_comm 1 i]
    · obtain ⟨s₁, failed⟩ := readSector_failed first
      exact ⟨s₁, by simp only [failed]⟩

end Clusters

def chainByte (vol : Volume) (disk : Nat → Byte) (c j : Nat) : Byte :=
  disk (dataAddr vol ((fatEntry vol disk 0)^[j / (512 * vol.spc)] c) + j % (512 * vol.spc))

/-- From cluster `c` on, with `got` bytes there and `t` accesses made: a sector of the cluster cannot be
read, or no byte is missing after it, or its link can be read and the same holds of the rest. -/
def ReadsThrough (faults : Faults) (vol : Volume) (disk : Nat → Byte) (need : Nat) :
    Nat → Nat → Nat → Nat → Prop
  | 0, _, got, _ => need ≤ got
  | n + 1, c, got, t =>
    need ≤ got ∨ ((2 ≤ c ∧ c < 0xFF0) ∧
      ((∃ i < sectorsLeft vol.spc need got, ¬ Readable faults (t + i) (vol.dataLba + (c - 2) * vol.spc + i)) ∨
        need ≤ got + 512 * vol.spc ∨
        (LinkReadable faults vol (t + sectorsLeft vol.spc need got) c ∧
          ReadsThrough faults vol disk need n (fatEntry vol disk 0 c) (got + 512 * vol.spc)
            (t + sectorsLeft vol.spc need got + linkReads c))))

section Chains

variable {faults : Faults} {vol : Volume} {fsize max : Nat}

theorem chainByte_first {disk : Nat → Byte} {c j : Nat} (low : j < 512 * vol.spc) :
    chainByte vol disk c j = disk (dataAddr vol c + j) := by
  rw [chainByte, Nat.div_eq_of_lt low, Nat.mod_eq_of_lt low, Function.iterate_zero_apply]

theorem chainByte_next (some' : 0 < 512 * vol.spc) (disk : Nat → Byte) (c j : Nat) :
    chainByte vol disk c (512 * vol.spc + j) = chainByte vol disk (fatEntry vol disk 0 c) j := by
  rw [chainByte, Nat.add_div_left _ some', Nat.add_mod_left, Function.iterate_succ_apply, chainByte]

theorem readsThrough_empty (empty : vol.spc = 0) {disk : Nat → Byte} {need n c got t : Nat}
    (through : ReadsThrough faults vol disk need n c got t) : need ≤ got := by
  induction n generalizing c t with
  | zero => exact through
  | succ n ih =>
    rcases through with done | ⟨-, ⟨i, low, -⟩ | done | ⟨-, later⟩⟩
    · exact done
    · rw [empty, sectorsLeft, Nat.zero_min] at low
      omega
    · rw [empty] at done
      exact done
    · rw [empty] at later
      exact ih later

theorem readChain_full (n c : Nat) {out : List Byte} (full : min fsize max ≤ out.length) (s : Io) :
    readChain (device faults) vol fsize max n c out s = (some out, s) := by
  cases n with
  | zero => rfl
  | succ n => rw [readChain, if_neg (by omega)]

theorem readChain_stop (n : Nat) {c : Nat} (stops : ¬ (2 ≤ c ∧ c < 0xFF0)) (out : List Byte)
    (s : Io) :
    readChain (device faults) vol fsize max n c out s = (some out, s) := by
  cases n with
  | zero => rfl
  | succ n => rw [readChain, if_neg (by omega)]

theorem readChain_through (n c : Nat) (out : List Byte) (s : Io)
    (through : ReadsThrough faults vol s.disk (min fsize max) n c out.length s.accesses)
    {out' : List Byte} (read : (readChain (device faults) vol fsize max n c out s).1 = some out') :
    out' = out ++ (List.range (min fsize max - out.length)).map (chainByte vol s.disk c) := by
  induction n generalizing c out s with
  | zero =>
    have nothing : min fsize max - out.length = 0 := Nat.sub_eq_zero_of_le through
    rw [nothing]
    simpa [readChain] using read.symm
  | succ n ih =>
    by_cases full : min fsize max ≤ out.length
    · have nothing : min fsize max - out.length = 0 := by omega
      rw [readChain_full _ _ full] at read
      rw [nothing]
      simpa using read.symm
    · have more : out.length < fsize ∧ out.length < max := by omega
      obtain ⟨linking, parts⟩ := through.resolve_left full
      have goes : 2 ≤ c ∧ c < 0xFF0 ∧ out.length < fsize ∧ out.length < max :=
        ⟨linking.1, linking.2, more⟩
      by_cases data : ∀ i < sectorsLeft vol.spc (min fsize max) out.length,
          Readable faults (s.accesses + i) (vol.dataLba + (c - 2) * vol.spc + i)
      · obtain ⟨s₁, cluster, after⟩ := readCluster_done vol.spc _ out s data
        have bytes : (List.range (min (512 * vol.spc) (min fsize max - out.length))).map (fun j =>
            s.disk (512 * (vol.dataLba + (c - 2) * vol.spc) + j)) =
            (List.range (min (512 * vol.spc) (min fsize max - out.length))).map (chainByte vol s.disk c) :=
          List.map_congr_left fun j member => by
            have low := List.mem_range.mp member
            rw [chainByte_first (by omega), dataAddr]
        rw [bytes] at cluster
        rw [readChain, if_pos goes] at read
        simp only [cluster] at read
        rcases parts with ⟨i, low, failed⟩ | last | ⟨link, later⟩
        · exact absurd (data i low) failed
        · have rest : min (512 * vol.spc) (min fsize max - out.length) =
              min fsize max - out.length := by omega
          rw [rest, readChain_full _ _ (by simp; omega)] at read
          exact (Option.some.inj read).symm
        · by_cases last : min fsize max ≤ out.length + 512 * vol.spc
          · have rest : min (512 * vol.spc) (min fsize max - out.length) =
                min fsize max - out.length := by
              omega
            rw [rest, readChain_full _ _ (by simp; omega)] at read
            exact (Option.some.inj read).symm
          · have whole : min (512 * vol.spc) (min fsize max - out.length) =
                512 * vol.spc := by omega
            have some' : 0 < 512 * vol.spc := by
              by_contra none'
              have done := readsThrough_empty (by omega) later
              omega
            rw [whole] at read
            generalize grown : out ++ (List.range (512 * vol.spc)).map (chainByte vol s.disk c) =
              out₁ at read
            have length : out₁.length = out.length + 512 * vol.spc := by
              rw [← grown, List.length_append, List.length_map, List.length_range]
            rw [← after.accesses] at link later
            obtain ⟨s₂, next, after₂⟩ := fatNextCluster_done link
            rw [after.disk] at next
            simp only [next] at read
            have same : s₂.disk = s.disk := after₂.disk.trans after.disk
            rw [← same, ← length, ← after₂.accesses] at later
            have result := ih _ out₁ s₂ (same ▸ later) read
            have split : min fsize max - out.length =
                512 * vol.spc + (min fsize max - out₁.length) := by omega
            generalize min fsize max - out₁.length = left at result split
            rw [result, ← grown, split, List.range_add, List.map_append, List.append_assoc,
              List.map_map, same]
            congr 2
            exact List.map_congr_left fun j _ => (chainByte_next some' s.disk c j).symm
      · push Not at data
        obtain ⟨i, low, failed⟩ := data
        obtain ⟨s₁, failed'⟩ := readCluster_failed vol.spc _ out s i low failed
        rw [readChain, if_pos goes] at read
        simp [failed'] at read

theorem readChain_short (n c : Nat) (out : List Byte) (s : Io)
    (short : ¬ ReadsThrough faults vol s.disk (min fsize max) n c out.length s.accesses) :
    ∃ out', (readChain (device faults) vol fsize max n c out s).1 = some out' ∧
      out'.length < min fsize max := by
  induction n generalizing c out s with
  | zero => exact ⟨out, rfl, Nat.lt_of_not_le short⟩
  | succ n ih =>
    rw [ReadsThrough, not_or] at short
    obtain ⟨missing, stuck⟩ := short
    by_cases linking : 2 ≤ c ∧ c < 0xFF0
    · have parts := not_and.mp stuck linking
      rw [not_or, not_or] at parts
      obtain ⟨data, more, rest⟩ := parts
      push Not at data
      obtain ⟨s₁, cluster, after⟩ := readCluster_done vol.spc _ out s data
      rw [readChain, if_pos (by omega)]
      simp only [cluster]
      have whole : min (512 * vol.spc) (min fsize max - out.length) = 512 * vol.spc := by omega
      rw [whole]
      generalize grown : (out ++ (List.range (512 * vol.spc)).map fun j =>
        s.disk (512 * (vol.dataLba + (c - 2) * vol.spc) + j)) = out₁
      have length : out₁.length = out.length + 512 * vol.spc := by
        rw [← grown, List.length_append, List.length_map, List.length_range]
      by_cases link : LinkReadable faults vol s₁.accesses c
      · obtain ⟨s₂, next, after₂⟩ := fatNextCluster_done link
        rw [after.disk] at next
        simp only [next]
        have same : s₂.disk = s.disk := after₂.disk.trans after.disk
        rw [after.accesses] at link
        have later := not_and.mp rest link
        rw [← after.accesses, ← after₂.accesses, ← length, ← same] at later
        exact same ▸ ih _ out₁ s₂ later
      · obtain ⟨s₂, failed⟩ := fatNextCluster_failed link
        simp only [failed]
        rw [readChain_stop n (by decide)]
        exact ⟨out₁, rfl, by omega⟩
    · rw [readChain_stop (n + 1) linking]
      exact ⟨out, rfl, Nat.lt_of_not_le missing⟩

end Chains

end NovaKernel
