import NovaKernel.FatList
import NovaKernel.FatSlots
import Mathlib.Data.List.TakeWhile

set_option autoImplicit false

namespace NovaKernel

namespace View

variable {v : View} {norm : List Byte}

theorem find_iff {n k i : Nat} : v.find norm n k = some i ↔
    (k ≤ i ∧ i < k + n) ∧ (∀ j, k ≤ j → j ≤ i → v.dir j 0 ≠ 0x00) ∧
      (v.live i = true ∧ v.name i = norm) ∧
      ∀ j, k ≤ j → j < i → ¬ (v.live j = true ∧ v.name j = norm) := by
  induction n generalizing k with
  | zero =>
    constructor
    · intro found
      cases found
    · rintro ⟨bounds, -⟩
      omega
  | succ n ih =>
    rw [find]
    by_cases ended : v.dir k 0 = 0x00
    · rw [if_pos ended]
      constructor
      · intro found
        cases found
      · rintro ⟨bounds, marks, -⟩
        exact absurd ended (marks k (Nat.le_refl k) bounds.1)
    · rw [if_neg ended]
      by_cases here : (v.live k && v.name k == norm) = true
      · have both : v.live k = true ∧ v.name k = norm := by simpa using here
        rw [if_pos here]
        constructor
        · intro same
          obtain rfl := Option.some.inj same
          refine ⟨⟨Nat.le_refl _, by omega⟩, fun j low high => ?_, both, fun j low high => by omega⟩
          obtain rfl := Nat.le_antisymm high low
          exact ended
        · rintro ⟨bounds, -, -, first⟩
          rcases Nat.eq_or_lt_of_le bounds.1 with rfl | more
          · rfl
          · exact absurd both (first k (Nat.le_refl k) more)
      · have other : ¬ (v.live k = true ∧ v.name k = norm) := by simpa using here
        rw [if_neg here, ih]
        constructor
        · rintro ⟨bounds, marks, both, first⟩
          refine ⟨by omega, fun j low high => ?_, both, fun j low high => ?_⟩
          · rcases Nat.eq_or_lt_of_le low with rfl | more
            · exact ended
            · exact marks j more high
          · rcases Nat.eq_or_lt_of_le low with rfl | more
            · exact other
            · exact first j more high
        · rintro ⟨bounds, marks, both, first⟩
          have later : k ≠ i := by
            rintro rfl
            exact other both
          exact ⟨by omega, fun j low high => marks j (by omega) high, both,
            fun j low high => first j (by omega) high⟩

variable (v norm) in
theorem findSlot_find (n k : Nat) (free : Option Nat) :
    (∃ i, v.find norm n k = some i ∧ v.findSlot norm n k free = some (i, true)) ∨
      (v.find norm n k = none ∧ ∀ p, v.findSlot norm n k free = some p → p.2 = false) := by
  have unused (free : Option Nat) : ∀ p, free.map (·, false) = some p → p.2 = false := by
    intro p same
    obtain ⟨i, -, rfl⟩ := Option.map_eq_some_iff.mp same
    rfl
  induction n generalizing k free with
  | zero => exact .inr ⟨rfl, unused free⟩
  | succ n ih =>
    rw [find, findSlot]
    by_cases ended : v.dir k 0 = 0x00
    · rw [if_pos ended, if_pos ended]
      exact .inr ⟨rfl, unused _⟩
    · rw [if_neg ended, if_neg ended]
      by_cases deleted : v.dir k 0 = 0xE5
      · have dead : v.live k = false := by simp [live, deleted]
        rw [if_pos deleted, dead, Bool.false_and, if_neg (by simp)]
        exact ih (k + 1) _
      · rw [if_neg deleted]
        by_cases here : (v.live k && v.name k == norm) = true
        · rw [if_pos here, if_pos here]
          exact .inl ⟨k, rfl, rfl⟩
        · rw [if_neg here, if_neg here]
          exact ih (k + 1) free

end View

def CString (name : List Byte) : Prop := ∀ c ∈ name, c ≠ 0

instance (name : List Byte) : Decidable (CString name) :=
  inferInstanceAs (Decidable (∀ c ∈ name, c ≠ 0))

/-- Eleven bytes without a zero or a lower-case letter, with no dot among the first eight. -/
def Ordinary (norm : List Byte) : Prop :=
  norm.length = 11 ∧ (∀ c ∈ norm, c ≠ 0 ∧ upcase c = c) ∧ 0x2E ∉ norm.take 8

theorem upcase_facts : ∀ c : Byte, (c ≠ 0 → upcase c ≠ 0) ∧ upcase (upcase c) = upcase c ∧
    (c ≠ 0x2E → upcase c ≠ 0x2E) := by decide

def nameBase (name : List Byte) : List Byte := (name.take 8).takeWhile (· ≠ 0x2E)

def nameExt (name : List Byte) : List Byte :=
  match name.drop (nameBase name).length with
  | c :: rest => if c = 0x2E then rest.take 3 else []
  | [] => []

theorem normName_parts (name : List Byte) : normName name =
    ((nameBase name).map upcase ++ List.replicate (8 - (nameBase name).length) 0x20) ++
      ((nameExt name).map upcase ++ List.replicate (3 - (nameExt name).length) 0x20) := rfl

section Parts

variable {pre rest : List Byte} (noDot : 0x2E ∉ pre) (short : pre.length ≤ 8)

include noDot

theorem no_dot_goes : ∀ c ∈ pre, decide (c ≠ 0x2E) = true := fun c member => by
  have other : c ≠ 0x2E := fun same => noDot (same ▸ member)
  simpa using other

include short

theorem normName_dotted : normName (pre ++ 0x2E :: rest) =
    (pre.map upcase ++ List.replicate (8 - pre.length) 0x20) ++
      ((rest.take 3).map upcase ++ List.replicate (3 - (rest.take 3).length) 0x20) := by
  have base : nameBase (pre ++ 0x2E :: rest) = pre := by
    rw [nameBase, List.take_append, List.take_of_length_le short,
      List.takeWhile_append_of_pos (no_dot_goes noDot)]
    cases 8 - pre.length with
    | zero => simp
    | succ n => simp
  have ext : nameExt (pre ++ 0x2E :: rest) = rest.take 3 := by
    rw [nameExt, base, List.drop_left]
    simp only [if_true]
  rw [normName_parts, base, ext]

theorem normName_undotted : normName pre =
    (pre.map upcase ++ List.replicate (8 - pre.length) 0x20) ++ List.replicate 3 0x20 := by
  have base : nameBase pre = pre := by
    rw [nameBase, List.take_of_length_le short]
    exact List.takeWhile_eq_self_iff.mpr (no_dot_goes noDot)
  have ext : nameExt pre = [] := by rw [nameExt, base, List.drop_length]
  rw [normName_parts, base, ext]
  rfl

end Parts

theorem nameBase_length (name : List Byte) : (nameBase name).length ≤ 8 :=
  Nat.le_trans (List.takeWhile_prefix _).length_le (by rw [List.length_take]; omega)

theorem nameBase_subset {name : List Byte} {c : Byte} (member : c ∈ nameBase name) : c ∈ name :=
  List.mem_of_mem_take ((List.takeWhile_prefix _).subset member)

theorem nameExt_subset {name : List Byte} {c : Byte} (member : c ∈ nameExt name) : c ∈ name := by
  unfold nameExt at member
  split at member
  next d rest split' =>
    split at member
    next =>
      refine List.mem_of_mem_drop (i := (nameBase name).length) ?_
      rw [split']
      exact List.mem_cons_of_mem _ (List.mem_of_mem_take member)
    next => exact absurd member List.not_mem_nil
  next => exact absurd member List.not_mem_nil

theorem ordinary_normName {name : List Byte} (string : CString name) :
    Ordinary (normName name) := by
  have bound := nameBase_length name
  refine ⟨normName_length name, fun c member => ?_, fun dot => ?_⟩
  · have fine : ∀ d ∈ name, upcase d ≠ 0 ∧ upcase (upcase d) = upcase d := fun d there =>
      ⟨(upcase_facts d).1 (string d there), (upcase_facts d).2.1⟩
    have space : (0x20 : Byte) ≠ 0 ∧ upcase 0x20 = 0x20 := by decide
    rw [normName_parts] at member
    simp only [List.mem_append, List.mem_map, List.mem_replicate] at member
    rcases member with (⟨d, there, rfl⟩ | ⟨-, rfl⟩) | (⟨d, there, rfl⟩ | ⟨-, rfl⟩)
    · exact fine d (nameBase_subset there)
    · exact space
    · exact fine d (nameExt_subset there)
    · exact space
  · have first : (normName name).take 8 =
        (nameBase name).map upcase ++ List.replicate (8 - (nameBase name).length) 0x20 := by
      rw [normName_parts, List.take_append_of_le_length (by simp; omega),
        List.take_of_length_le (by simp; omega)]
    rw [first] at dot
    simp only [List.mem_append, List.mem_map, List.mem_replicate] at dot
    rcases dot with ⟨d, there, same⟩ | ⟨-, same⟩
    · have kept := List.all_takeWhile (p := (· ≠ (0x2E : Byte))) (l := name.take 8)
      rw [List.all_eq_true] at kept
      exact (upcase_facts d).2.2 (by simpa using kept d there) same
    · exact absurd same (by decide)

theorem ordinary_iff {norm : List Byte} : (∃ name, CString name ∧ normName name = norm) ↔
    Ordinary norm := by
  constructor
  · rintro ⟨name, string, rfl⟩
    exact ordinary_normName string
  · rintro ⟨long, fine, noDot⟩
    have head : (norm.take 8).length = 8 := by rw [List.length_take, long]; rfl
    have tail : (norm.drop 8).length = 3 := by rw [List.length_drop, long]
    refine ⟨norm.take 8 ++ 0x2E :: norm.drop 8, ?_, ?_⟩
    · intro c member
      rcases List.mem_append.mp member with before | after
      · exact (fine c (List.mem_of_mem_take before)).1
      · rcases List.mem_cons.mp after with rfl | after
        · decide
        · exact (fine c (List.mem_of_mem_drop after)).1
    · have base : nameBase (norm.take 8 ++ 0x2E :: norm.drop 8) = norm.take 8 := by
        rw [nameBase, List.take_append_of_le_length (by omega), List.take_of_length_le (by omega)]
        refine List.takeWhile_eq_self_iff.mpr fun c member => ?_
        have other : c ≠ 0x2E := fun same => noDot (same ▸ member)
        simpa using other
      have ext : nameExt (norm.take 8 ++ 0x2E :: norm.drop 8) = norm.drop 8 := by
        rw [nameExt, base, List.drop_left]
        simp only [if_true]
        exact List.take_of_length_le (by omega)
      have same : ∀ l : List Byte, (∀ c ∈ l, c ∈ norm) → l.map upcase = l := fun l subset => by
        conv_rhs => rw [← List.map_id l]
        exact List.map_congr_left fun c member => (fine c (subset c member)).2
      rw [normName_parts, base, ext, head, tail, same _ fun c => List.mem_of_mem_take,
        same _ fun c => List.mem_of_mem_drop]
      simp

section Select

variable (faults : Faults) (vol : Volume) (name : List Byte) (s : Io)

structure SelectsSlot (k : Nat) : Prop where
  slot : (dirFindSlot (device faults) vol (normName name) s).1 = some (slotOf vol k true)
  stat : (fatStat (device faults) vol name s).1 =
    some { size := (view vol s.disk).size k, cluster := (view vol s.disk).start k,
           attr := (view vol s.disk).dir k 11 }
  read : ∀ max, ∃ s₁, s₁.disk = s.disk ∧ (fatRead (device faults) vol name max s).1 =
    (readChain (device faults) vol ((view vol s.disk).size k) max 65536 ((view vol s.disk).start k) [] s₁).1.map
      fun out => (if out.length < (view vol s.disk).size k then out.length else (view vol s.disk).size k, out)

structure ReportsAbsence : Prop where
  slot : ∀ slot, (dirFindSlot (device faults) vol (normName name) s).1 = some slot →
    slot.existed = false
  stat : (fatStat (device faults) vol name s).1 = none
  read : ∀ max, (fatRead (device faults) vol name max s).1 = none

variable {faults vol}
variable (geo : Geometry vol) (reliable : Reliable faults)

include geo reliable

theorem selects_of_find {k : Nat}
    (found : (view vol s.disk).find (normName name) (16 * vol.rootSectors) 0 = some k) :
    SelectsSlot faults vol name s k := by
  obtain ⟨s₁, located, disk, bytes⟩ :=
    dirLocate_ok (normName_length name) geo reliable vol.rootSectors 0
    (Nat.zero_add _) s
  rw [Nat.mul_zero, found, Option.map_some] at located
  have bytes := bytes k (by rw [Nat.mul_zero, found])
  have mounted : (!vol.mounted) = false := by rw [geo.mounted]; rfl
  have size : u32Of (entryAt s₁.secbuf (32 * (k % 16))) 28 = (view vol s.disk).size k := by
    simp only [u32Of, entryAt, View.size]
    rw [bytes 28 (by decide), bytes (28 + 1) (by decide), bytes (28 + 2) (by decide),
      bytes (28 + 3) (by decide)]
  have start : u16Of (entryAt s₁.secbuf (32 * (k % 16))) 26 = (view vol s.disk).start k := by
    simp only [u16Of, entryAt, View.start]
    rw [bytes 26 (by decide), bytes (26 + 1) (by decide)]
  have attr : entryAt s₁.secbuf (32 * (k % 16)) 11 = (view vol s.disk).dir k 11 :=
    bytes 11 (by decide)
  constructor
  case slot =>
    obtain ⟨s₂, searched, -⟩ := dirFindSlot_ok (normName_length name) geo reliable s
    rcases (view vol s.disk).findSlot_find (normName name) (16 * vol.rootSectors) 0 none with
      ⟨i, same, slot⟩ | ⟨none', -⟩
    · obtain rfl := Option.some.inj (found.symm.trans same)
      rw [searched, slot]
      rfl
    · rw [found] at none'
      cases none'
  case stat => simp only [fatStat, mounted, located, size, start, attr, Bool.false_eq_true, if_false]
  case read =>
    intro max
    refine ⟨s₁, disk, ?_⟩
    simp only [fatRead, mounted, located, size, start, Bool.false_eq_true, if_false]
    rcases readChain (device faults) vol ((view vol s.disk).size k) max 65536 ((view vol s.disk).start k) [] s₁
      with ⟨_ | out, s₂⟩ <;> rfl

theorem absent_of_find (none' : (view vol s.disk).find (normName name) (16 * vol.rootSectors) 0 = none) :
    ReportsAbsence faults vol name s := by
  obtain ⟨s₁, located, -, -⟩ := dirLocate_ok (normName_length name) geo reliable vol.rootSectors 0
    (Nat.zero_add _) s
  rw [Nat.mul_zero, none', Option.map_none] at located
  have mounted : (!vol.mounted) = false := by rw [geo.mounted]; rfl
  constructor
  case slot =>
    obtain ⟨s₂, searched, -⟩ := dirFindSlot_ok (normName_length name) geo reliable s
    rcases (view vol s.disk).findSlot_find (normName name) (16 * vol.rootSectors) 0 none with
      ⟨i, same, -⟩ | ⟨-, unused⟩
    · rw [none'] at same
      cases same
    · intro slot chosen
      rw [searched] at chosen
      obtain ⟨p, here, rfl⟩ := Option.map_eq_some_iff.mp chosen
      exact unused p here
  case stat => simp only [fatStat, mounted, located, Bool.false_eq_true, if_false]
  case read => exact fun max => by simp only [fatRead, mounted, located, Bool.false_eq_true, if_false]

theorem selects_iff {k : Nat} : SelectsSlot faults vol name s k ↔
    (view vol s.disk).find (normName name) (16 * vol.rootSectors) 0 = some k := by
  refine ⟨fun selects => ?_, selects_of_find name s geo reliable⟩
  cases found : (view vol s.disk).find (normName name) (16 * vol.rootSectors) 0 with
  | none =>
    have absent := (absent_of_find name s geo reliable found).stat
    rw [selects.stat] at absent
    cases absent
  | some i =>
    have other := (selects_of_find name s geo reliable found).slot
    rw [selects.slot] at other
    have same := Option.some.inj other
    simp only [slotOf, Slot.mk.injEq, and_true] at same
    exact congrArg some (by omega)

end Select

def View.Before (v : View) (n k : Nat) : Prop := k < n ∧ ∀ i ≤ k, v.dir i 0 ≠ 0x00

/-- Some name selects the slot: it can be produced, and no earlier entry has it. -/
def View.Selectable (v : View) (k : Nat) : Prop :=
  Ordinary (v.name k) ∧ ∀ i < k, v.live i = true → v.name i ≠ v.name k

section Agreement

variable {faults : Faults} {vol : Volume} (geo : Geometry vol) (reliable : Reliable faults) (s : Io)

include geo reliable

theorem selected_iff (k : Nat) : (∃ name, CString name ∧ SelectsSlot faults vol name s k) ↔
    (view vol s.disk).Before (16 * vol.rootSectors) k ∧ (view vol s.disk).live k = true ∧
      (view vol s.disk).Selectable k := by
  constructor
  · rintro ⟨name, string, selects⟩
    rw [selects_iff name s geo reliable, View.find_iff] at selects
    obtain ⟨bounds, marks, ⟨live, named⟩, first⟩ := selects
    refine ⟨⟨by omega, fun i low => marks i (Nat.zero_le i) low⟩, live, ?_,
      fun i low alive same => ?_⟩
    · rw [named]
      exact ordinary_normName string
    · exact first i (Nat.zero_le i) low ⟨alive, same.trans named⟩
  · rintro ⟨⟨bound, marks⟩, live, ordinary, first⟩
    obtain ⟨name, string, named⟩ := ordinary_iff.mpr ordinary
    refine ⟨name, string, (selects_iff name s geo reliable).mpr (View.find_iff.mpr ?_)⟩
    exact ⟨by omega, fun i _ low => marks i low, ⟨live, named.symm⟩,
      fun i _ low both => first i low both.1 (both.2.trans named)⟩

theorem scans_agree : (∀ name, (∃ k, SelectsSlot faults vol name s k) ∨ ReportsAbsence faults vol name s) := by
  intro name
  cases found : (view vol s.disk).find (normName name) (16 * vol.rootSectors) 0 with
  | none => exact .inr (absent_of_find name s geo reliable found)
  | some k => exact .inl ⟨k, selects_of_find name s geo reliable found⟩

/-- The three searches agree on every directory and `fat_list` lists the slots of `listed`. These are
the slots that can be selected exactly if of the entries before the end mark that are neither deleted
nor long names, the volume labels are those that no name selects. -/
theorem scans_agree_iff :
    (∀ name, (∃ k, SelectsSlot faults vol name s k) ∨ ReportsAbsence faults vol name s) ∧
      (∀ max, 16 * vol.rootSectors ≤ max → (fatList (device faults) vol max s).1 =
        some (((view vol s.disk).listed (16 * vol.rootSectors) 0).map fun k =>
          listEntry ((view vol s.disk).dir k))) ∧
      ((∀ k, (∃ name, CString name ∧ SelectsSlot faults vol name s k) ↔
          k ∈ (view vol s.disk).listed (16 * vol.rootSectors) 0) ↔
        ∀ k, (view vol s.disk).Before (16 * vol.rootSectors) k → (view vol s.disk).live k = true →
          ((view vol s.disk).Selectable k ↔ (view vol s.disk).label k = false)) := by
  refine ⟨scans_agree geo reliable s, fun max room => ?_, ?_⟩
  · obtain ⟨s', call, -⟩ := fatList_ok max geo reliable s
    rw [call, List.take_of_length_le (Nat.le_trans (View.listed_length _ _ _) room)]
  · have shown (k : Nat) : k ∈ (view vol s.disk).listed (16 * vol.rootSectors) 0 ↔
        (view vol s.disk).Before (16 * vol.rootSectors) k ∧ (view vol s.disk).live k = true ∧
          (view vol s.disk).label k = false := by
      rw [View.mem_listed, View.Before]
      simp only [Nat.zero_le, true_and, Nat.zero_add, forall_const, and_assoc]
    simp only [selected_iff geo reliable s, shown]
    constructor
    · intro same k before live
      have here := same k
      simpa only [before, live, true_and] using here
    · intro same k
      constructor
      · exact fun ⟨before, live, selectable⟩ => ⟨before, live, (same k before live).mp selectable⟩
      · exact fun ⟨before, live, plain⟩ => ⟨before, live, (same k before live).mpr plain⟩

end Agreement

def labelledIo : Io := { blankIo with
  disk := fun a => if 9728 ≤ a ∧ a < 9736 then 0x4E else if 9736 ≤ a ∧ a < 9739 then 0x20
    else if a = 9739 then 0x08 else 0 }

theorem labelledIo_stat : ((fatStat (device noFaults) floppy (List.replicate 8 0x6E) labelledIo).1.map Stat.attr) =
    some 0x08 ∧ (fatList (device noFaults) floppy 224 labelledIo).1 = some [] := by
  decide +kernel

theorem label_selected : ¬ ∀ (faults : Faults) (vol : Volume) (s : Io), Geometry vol →
    Reliable faults →
    ∀ k, (∃ name, CString name ∧ SelectsSlot faults vol name s k) ↔
      k ∈ (view vol s.disk).listed (16 * vol.rootSectors) 0 := by
  intro always
  have unlisted : (view floppy labelledIo.disk).listed (16 * floppy.rootSectors) 0 = [] := by
    decide +kernel
  have agree := always noFaults floppy labelledIo floppy_geometry noFaults_reliable
  rw [unlisted] at agree
  rcases scans_agree floppy_geometry noFaults_reliable labelledIo (List.replicate 8 0x6E) with ⟨k, selects⟩ | absent
  · have string : CString (List.replicate 8 0x6E) := fun c member => by
      rw [List.eq_of_mem_replicate member]
      decide
    exact List.not_mem_nil ((agree k).mp ⟨_, string, selects⟩)
  · have found := labelledIo_stat.1
    rw [absent.stat] at found
    cases found

def oneFileIo : Io :=
  { blankIo with disk := putEntry (fun _ => 0) 9728 (newEntry (normName [0x41]) 0 0) }

theorem scans_agree_iff_one :
    (∀ k, (∃ name, CString name ∧ SelectsSlot noFaults floppy name oneFileIo k) ↔
        k ∈ (view floppy oneFileIo.disk).listed (16 * floppy.rootSectors) 0) ↔
      ∀ k, (view floppy oneFileIo.disk).Before (16 * floppy.rootSectors) k →
        (view floppy oneFileIo.disk).live k = true →
          ((view floppy oneFileIo.disk).Selectable k ↔ (view floppy oneFileIo.disk).label k = false) :=
  (scans_agree_iff floppy_geometry noFaults_reliable oneFileIo).2.2

end NovaKernel
