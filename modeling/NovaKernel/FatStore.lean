import NovaKernel.FatStored

set_option autoImplicit false

namespace NovaKernel

open Linked

section Names

theorem normName_head {name : List Byte} (string : ∀ c ∈ name, c ≠ 0) :
    (normName name).getD 0 0 ≠ 0x00 := by
  have upcase_ne : ∀ c : Byte, c ≠ 0 → upcase c ≠ 0 := by decide
  cases name with
  | nil => decide
  | cons c rest =>
    by_cases dot : c = 0x2E
    · subst dot
      simp [normName]
    · have kept : ((c :: rest).take 8).takeWhile (· ≠ 0x2E) =
          c :: ((rest.take 7).takeWhile (· ≠ 0x2E)) := by
        rw [List.take_succ_cons, List.takeWhile_cons_of_pos (by simpa using dot)]
      simp only [normName, kept, List.map_cons, List.cons_append, List.getD_cons_zero]
      exact upcase_ne c (string c (by simp))

theorem usable_normName {name : List Byte} (string : ∀ c ∈ name, c ≠ 0)
    (alive : (normName name).getD 0 0 ≠ 0xE5) : Usable (normName name) :=
  ⟨normName_length name, normName_head string, alive⟩

end Names

section Reads

variable {faults : Faults} {vol : Volume} (geo : Geometry vol) (reliable : Reliable faults)
  {last : Nat} {chain : Nat → List Nat}

include geo reliable

theorem readFile_ok (fsize max : Nat) {l : List Nat} {a : Nat} {s : Io}
    (owned : FileChain vol (view vol s.disk) a l) :
    ∃ s', readChain (device faults) vol fsize max 65536 a [] s =
      (some (((view vol s.disk).contents vol l).take (min fsize max)), s') ∧ s'.disk = s.disk := by
  cases owned with
  | empty =>
    refine ⟨s, ?_, rfl⟩
    rw [readChain, if_neg (by omega), View.contents, List.flatMap_nil, List.take_nil]
  | @chain a c l chain =>
    have short := FatChain.length_le geo chain
    have bound := geo.clusters_le
    simp only [diskSectors] at bound
    exact readChain_ok geo reliable fsize max (c :: l) 65536 (by omega) [] s chain

section Slots

variable {s : Io} {name : List Byte}

theorem fatRead_slot {k : Nat} {l : List Nat}
    (found : (view vol s.disk).find (normName name) (16 * vol.rootSectors) 0 = some k)
    (owned : FileChain vol (view vol s.disk) ((view vol s.disk).start k) l)
    (length : ((view vol s.disk).file vol k l).length = (view vol s.disk).size k) (max : Nat) :
    ∃ s', fatRead (device faults) vol name max s =
        (some (min ((view vol s.disk).size k) max, ((view vol s.disk).file vol k l).take max), s') ∧
      s'.disk = s.disk := by
  obtain ⟨s₁, located, disk₁, bytes⟩ :=
    dirLocate_ok (normName_length name) geo reliable vol.rootSectors 0
    (Nat.zero_add _) s
  rw [Nat.mul_zero, found, Option.map_some] at located
  have bytes := bytes k (by rw [Nat.mul_zero, found])
  have size : u32Of (entryAt s₁.secbuf (32 * (k % 16))) 28 = (view vol s.disk).size k := by
    simp only [u32Of, entryAt, View.size]
    rw [bytes 28 (by decide), bytes (28 + 1) (by decide), bytes (28 + 2) (by decide),
      bytes (28 + 3) (by decide)]
  have start : u16Of (entryAt s₁.secbuf (32 * (k % 16))) 26 = (view vol s.disk).start k := by
    simp only [u16Of, entryAt, View.start]
    rw [bytes 26 (by decide), bytes (26 + 1) (by decide)]
  rw [← disk₁] at owned
  obtain ⟨s', read, disk'⟩ := readFile_ok geo reliable ((view vol s.disk).size k) max owned
  have result : ((view vol s.disk).contents vol l).take (min ((view vol s.disk).size k) max) =
      ((view vol s.disk).file vol k l).take max := by
    rw [View.file, List.take_take, Nat.min_comm]
  have count : (((view vol s.disk).file vol k l).take max).length =
      min ((view vol s.disk).size k) max := by
    rw [List.length_take, length, Nat.min_comm]
  rw [disk₁, result] at read
  refine ⟨s', ?_, disk'.trans disk₁⟩
  have mounted : (!vol.mounted) = false := by rw [geo.mounted]; rfl
  simp only [fatRead, mounted, located, size, start, read, count, Bool.false_eq_true, if_false]
  congr 3
  split <;> omega

theorem fatRead_missing (none' : (view vol s.disk).find (normName name) (16 * vol.rootSectors) 0 = none)
    (max : Nat) : ∃ s', fatRead (device faults) vol name max s = (none, s') ∧ s'.disk = s.disk := by
  obtain ⟨s₁, located, disk₁, -⟩ :=
    dirLocate_ok (normName_length name) geo reliable vol.rootSectors 0
    (Nat.zero_add _) s
  rw [Nat.mul_zero, none', Option.map_none] at located
  have mounted : (!vol.mounted) = false := by rw [geo.mounted]; rfl
  exact ⟨s₁, by simp only [fatRead, mounted, located, Bool.false_eq_true, if_false], disk₁⟩

theorem fatStat_slot {k : Nat}
    (found : (view vol s.disk).find (normName name) (16 * vol.rootSectors) 0 = some k) :
    ∃ s', fatStat (device faults) vol name s =
        (some { size := (view vol s.disk).size k, cluster := (view vol s.disk).start k,
                attr := (view vol s.disk).dir k 11 }, s') ∧
      s'.disk = s.disk := by
  obtain ⟨s₁, located, disk₁, bytes⟩ :=
    dirLocate_ok (normName_length name) geo reliable vol.rootSectors 0
    (Nat.zero_add _) s
  rw [Nat.mul_zero, found, Option.map_some] at located
  have bytes := bytes k (by rw [Nat.mul_zero, found])
  have mounted : (!vol.mounted) = false := by rw [geo.mounted]; rfl
  refine ⟨s₁, ?_, disk₁⟩
  simp only [fatStat, mounted, located, Bool.false_eq_true, if_false, u32Of, u16Of, entryAt,
    View.size, View.start]
  rw [bytes 28 (by decide), bytes (28 + 1) (by decide), bytes (28 + 2) (by decide),
    bytes (28 + 3) (by decide), bytes 26 (by decide), bytes (26 + 1) (by decide),
    bytes 11 (by decide)]

theorem fatStat_missing (none' : (view vol s.disk).find (normName name) (16 * vol.rootSectors) 0 = none) :
    ∃ s', fatStat (device faults) vol name s = (none, s') ∧ s'.disk = s.disk := by
  obtain ⟨s₁, located, disk₁, -⟩ :=
    dirLocate_ok (normName_length name) geo reliable vol.rootSectors 0
    (Nat.zero_add _) s
  rw [Nat.mul_zero, none', Option.map_none] at located
  have mounted : (!vol.mounted) = false := by rw [geo.mounted]; rfl
  exact ⟨s₁, by simp only [fatStat, mounted, located, Bool.false_eq_true, if_false], disk₁⟩

end Slots

variable {s : Io} (layout : Layout vol (view vol s.disk) last chain)

include layout

theorem fatRead_found {name : List Byte} {k : Nat} (live : (view vol s.disk).live k = true)
    (named : (view vol s.disk).name k = normName name) (max : Nat) :
    ∃ s', fatRead (device faults) vol name max s =
        (some (min ((view vol s.disk).size k) max, ((view vol s.disk).file vol k (chain k)).take max), s') ∧
      s'.disk = s.disk :=
  fatRead_slot geo reliable (layout.find_eq live named) (layout.chains k live)
    (layout.file_length geo.spc.1 live) max

omit geo reliable in
theorem Layout.find_none {norm : List Byte}
    (absent : ∀ k, (view vol s.disk).live k = true → (view vol s.disk).name k ≠ norm) :
    (view vol s.disk).find norm (16 * vol.rootSectors) 0 = none := by
  rcases layout.find_cases norm with ⟨k, -, live, named⟩ | ⟨none', -⟩
  · exact absurd named (absent k live)
  · exact none'

theorem fatRead_absent {name : List Byte}
    (absent : ∀ k, (view vol s.disk).live k = true → (view vol s.disk).name k ≠ normName name)
    (max : Nat) :
    ∃ s', fatRead (device faults) vol name max s = (none, s') ∧ s'.disk = s.disk :=
  fatRead_missing geo reliable (layout.find_none absent) max

theorem fatStat_found {name : List Byte} {k : Nat} (live : (view vol s.disk).live k = true)
    (named : (view vol s.disk).name k = normName name) :
    ∃ s', fatStat (device faults) vol name s =
        (some { size := (view vol s.disk).size k, cluster := (view vol s.disk).start k,
                attr := (view vol s.disk).dir k 11 }, s') ∧
      s'.disk = s.disk :=
  fatStat_slot geo reliable (layout.find_eq live named)

theorem fatStat_absent {name : List Byte}
    (absent : ∀ k, (view vol s.disk).live k = true → (view vol s.disk).name k ≠ normName name) :
    ∃ s', fatStat (device faults) vol name s = (none, s') ∧ s'.disk = s.disk :=
  fatStat_missing geo reliable (layout.find_none absent)

end Reads

end NovaKernel
