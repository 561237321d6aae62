import NovaKernel.FatScans

set_option autoImplicit false

namespace NovaKernel

/-! The names under which the image builder stores the extra files. -/

-- `path.split("/")[-1]`
def baseName (path : List Byte) : List Byte := (path.splitOn 0x2F).getLastD []

def packedBase (part : List Byte) : List Byte := (part.take 8 ++ List.replicate 7 0x20).take 8

def packedExt (part : List Byte) : List Byte := (part.take 3 ++ List.replicate 3 0x20).take 3

-- `upper().replace("-", "_")`
def packedCase (c : Byte) : Byte := if upcase c = 0x2D then 0x5F else upcase c

def packedName (path : List Byte) : List Byte :=
  let base := (baseName path).map packedCase
  if 0x2E ∈ base then
    packedBase ((base.splitOn 0x2E).getD 0 []) ++ packedExt ((base.splitOn 0x2E).getD 1 [])
  else packedBase base ++ [0x54, 0x58, 0x54]

structure PlainName (base : List Byte) : Prop where
  nonempty : base ≠ []
  ascii : ∀ c ∈ base, c.toNat < 128
  noDotFirst : base.head? ≠ some 0x2E
  noSpace : 0x20 ∉ base
  noDash : 0x2D ∉ base

theorem pad_take {l : List Byte} {n m : Nat} (fits : l.length ≤ n) (enough : n ≤ l.length + m)
    (c : Byte) :
    (l ++ List.replicate m c).take n = l ++ List.replicate (n - l.length) c := by
  rw [List.take_append, List.take_of_length_le fits, List.take_replicate,
    Nat.min_eq_left (by omega)]

theorem splitOn_head_take {l : List Byte} {n : Nat} (noDot : 0x2E ∉ l.take n) :
    ((l.splitOn 0x2E).getD 0 []).take n = l.take n := by
  by_cases dot : 0x2E ∈ l
  · obtain ⟨pre, rest, rfl, first⟩ := List.eq_append_cons_of_mem dot
    rw [List.splitOn_append_cons_self_of_not_mem first, List.getD_cons_zero]
    have before : n ≤ pre.length := by
      by_contra beyond
      refine noDot ?_
      rw [List.take_append, List.take_of_length_le (by omega)]
      obtain ⟨m, more⟩ : ∃ m, n - pre.length = m + 1 := ⟨n - pre.length - 1, by omega⟩
      rw [more, List.take_succ_cons]
      exact List.mem_append_right _ (List.mem_cons_self ..)
    rw [List.take_append_of_le_length before]
  · rw [List.splitOn_eq_singleton dot, List.getD_cons_zero]

theorem packedCase_dot : ∀ c : Byte, packedCase c = 0x2E ↔ c = 0x2E := by decide

theorem packedCase_plain : ∀ c : Byte, c ≠ 0x2D → packedCase c = upcase c := by decide

theorem map_packedCase {l : List Byte} (noDash : 0x2D ∉ l) : l.map packedCase = l.map upcase :=
  List.map_congr_left fun c member => packedCase_plain c fun same => noDash (same ▸ member)

theorem dot_mem_packed {l : List Byte} : 0x2E ∈ l.map packedCase ↔ 0x2E ∈ l := by
  constructor
  · intro member
    obtain ⟨c, there, same⟩ := List.mem_map.mp member
    exact (packedCase_dot c).mp same ▸ there
  · exact fun member => List.mem_map.mpr ⟨0x2E, member, (packedCase_dot 0x2E).mpr rfl⟩

theorem packedBase_short {part : List Byte} (nonempty : part ≠ []) (short : part.length ≤ 8) :
    packedBase part = part ++ List.replicate (8 - part.length) 0x20 := by
  have positive := List.length_pos_iff.mpr nonempty
  rw [packedBase, List.take_of_length_le short, pad_take short (by omega)]

theorem packedBase_take (part : List Byte) : packedBase (part.take 8) = packedBase part := by
  rw [packedBase, packedBase, List.take_take, Nat.min_self]

theorem packedExt_take (part : List Byte) :
    packedExt part = part.take 3 ++ List.replicate (3 - (part.take 3).length) 0x20 := by
  rw [packedExt, pad_take (by rw [List.length_take]; omega) (by omega)]

theorem packedName_dotted {path pre rest : List Byte} (plain : PlainName (baseName path))
    (parts : baseName path = pre ++ 0x2E :: rest) (noDot : 0x2E ∉ pre) (short : pre.length ≤ 8)
    (single : 0x2E ∉ rest.take 3) : packedName path = normName (baseName path) := by
  have nonempty : pre ≠ [] := by
    rintro rfl
    exact plain.noDotFirst (by rw [parts]; rfl)
  have noDash := plain.noDash
  rw [parts, List.mem_append, List.mem_cons, not_or, not_or] at noDash
  have dotted : 0x2E ∈ (baseName path).map packedCase := by
    rw [dot_mem_packed, parts]
    exact List.mem_append_right _ (List.mem_cons_self ..)
  have split' : ((baseName path).map packedCase).splitOn 0x2E =
      pre.map packedCase :: (rest.map packedCase).splitOn 0x2E := by
    rw [parts, List.map_append, List.map_cons, (packedCase_dot 0x2E).mpr rfl]
    exact List.splitOn_append_cons_self_of_not_mem
      (fun member => noDot (dot_mem_packed.mp member)) _
  have second : 0x2E ∉ (rest.map packedCase).take 3 := by
    rw [← List.map_take]
    exact fun member => single (dot_mem_packed.mp member)
  have ext := splitOn_head_take second
  rw [packedName, if_pos dotted, split', List.getD_cons_zero, List.getD_cons_succ, packedExt_take,
    ext, packedBase_short (by simpa using nonempty) (by simpa using short), parts,
    normName_dotted noDot short, map_packedCase noDash.1, map_packedCase noDash.2.2]
  simp only [List.map_take, List.length_map, List.length_take]

theorem packedName_undotted {path : List Byte} (plain : PlainName (baseName path))
    (noDot : 0x2E ∉ baseName path) :
    packedName path = normName ((baseName path).take 8 ++ [0x2E, 0x54, 0x58, 0x54]) := by
  have short : ((baseName path).take 8).length ≤ 8 := by
    rw [List.length_take]
    omega
  have nonempty : (baseName path).take 8 ≠ [] := by simp [plain.nonempty]
  rw [packedName, if_neg fun member => noDot (dot_mem_packed.mp member),
    map_packedCase plain.noDash, normName_dotted (fun member => noDot (List.mem_of_mem_take member)) short, ← packedBase_take, ← List.map_take,
    packedBase_short (by simpa using nonempty) (by simp), List.length_map]
  rfl

/-- A file packed from `path` opens as `name`: on every volume where it is the first with its stored name. -/
structure OpensAs (path name : List Byte) : Prop where
  stored : packedName path = normName name
  selected : ∀ (faults : Faults) (vol : Volume) (s : Io) (k : Nat), Geometry vol → Reliable faults →
    (view vol s.disk).Before (16 * vol.rootSectors) k → (view vol s.disk).live k = true →
    (view vol s.disk).name k = packedName path →
    (∀ i < k, (view vol s.disk).live i = true → (view vol s.disk).name i ≠ packedName path) →
    SelectsSlot faults vol name s k

theorem OpensAs.of_stored {path name : List Byte} (stored : packedName path = normName name) :
    OpensAs path name := by
  refine ⟨stored, fun faults vol s k geo reliable before live named first => ?_⟩
  rw [selects_iff name s geo reliable, View.find_iff, ← stored]
  exact ⟨⟨Nat.zero_le k, by simpa using before.1⟩, fun j _ low => before.2 j low, ⟨live, named⟩,
    fun j _ low both => first j low both.1 both.2⟩

/-- With a dot the file opens under its own name, where the first part and the extension are no longer
than the directory's fields. Without one it opens under the name with the extension `TXT`. -/
theorem packed_opensAs {path : List Byte} (plain : PlainName (baseName path)) :
    (∀ pre rest, baseName path = pre ++ 0x2E :: rest → 0x2E ∉ pre → pre.length ≤ 8 → 0x2E ∉ rest.take 3 →
        OpensAs path (baseName path)) ∧
      (0x2E ∉ baseName path → OpensAs path ((baseName path).take 8 ++ [0x2E, 0x54, 0x58, 0x54])) :=
  ⟨fun _ _ parts noDot short single => .of_stored (packedName_dotted plain parts noDot short single),
    fun noDot => .of_stored (packedName_undotted plain noDot)⟩

-- `docs/notes.txt` and `docs/notes`
def dottedPath : List Byte :=
  [0x64, 0x6F, 0x63, 0x73, 0x2F, 0x6E, 0x6F, 0x74, 0x65, 0x73, 0x2E, 0x74, 0x78, 0x74]

def undottedPath : List Byte := dottedPath.take 10

theorem packed_opensAs_notes :
    OpensAs dottedPath [0x6E, 0x6F, 0x74, 0x65, 0x73, 0x2E, 0x74, 0x78, 0x74] ∧
    OpensAs undottedPath [0x6E, 0x6F, 0x74, 0x65, 0x73, 0x2E, 0x54, 0x58, 0x54] :=
  ⟨(packed_opensAs ⟨by decide, by decide, by decide, by decide, by decide⟩).1 [0x6E, 0x6F, 0x74, 0x65, 0x73]
      [0x74, 0x78, 0x74] (by decide) (by decide) (by decide) (by decide),
    (packed_opensAs ⟨by decide, by decide, by decide, by decide, by decide⟩).2 (by decide)⟩

theorem packed_notes : ¬ ∀ path, PlainName (baseName path) →
    packedName path = normName (baseName path) := by
  intro always
  have same := always undottedPath ⟨by decide, by decide, by decide, by decide, by decide⟩
  revert same
  decide

end NovaKernel
