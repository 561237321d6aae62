import NovaKernel.FatFull
import NovaKernel.FatScans

set_option autoImplicit false

namespace NovaKernel

def shownName (norm : List Byte) : List Byte :=
  (norm.take 8).takeWhile (· ≠ 0x20) ++
    if norm.getD 8 0 ≠ 0x20 then 0x2E :: (norm.drop 8).takeWhile (· ≠ 0x20) else []

def Gapless (part : List Byte) : Prop := ∀ c ∈ part.dropWhile (· ≠ 0x20), c = 0x20

instance (part : List Byte) : Decidable (Gapless part) :=
  inferInstanceAs (Decidable (∀ c ∈ part.dropWhile (· ≠ 0x20), c = 0x20))

theorem gapless_iff {part : List Byte} {n : Nat} (long : part.length = n) :
    part.takeWhile (· ≠ 0x20) ++ List.replicate (n - (part.takeWhile (· ≠ 0x20)).length) 0x20 = part ↔
      Gapless part := by
  have cut := List.takeWhile_append_dropWhile (p := (· ≠ (0x20 : Byte))) (l := part)
  have rest : n - (part.takeWhile (· ≠ 0x20)).length = (part.dropWhile (· ≠ 0x20)).length := by
    have total := congrArg List.length cut
    rw [List.length_append, long] at total
    omega
  conv_lhs => rhs; rw [← cut]
  rw [List.append_cancel_left_eq, rest, eq_comm, List.eq_replicate_iff]
  exact ⟨fun h => h.2, fun spaces => ⟨rfl, spaces⟩⟩

section Shown

variable {norm : List Byte} (ordinary : Ordinary norm)

include ordinary

theorem normName_shown : normName (shownName norm) =
    ((norm.take 8).takeWhile (· ≠ 0x20) ++
        List.replicate (8 - ((norm.take 8).takeWhile (· ≠ 0x20)).length) 0x20) ++
      ((norm.drop 8).takeWhile (· ≠ 0x20) ++
        List.replicate (3 - ((norm.drop 8).takeWhile (· ≠ 0x20)).length) 0x20) := by
  obtain ⟨long, fine, noDot⟩ := ordinary
  have base : ∀ c ∈ (norm.take 8).takeWhile (· ≠ 0x20), c ∈ norm.take 8 := fun c member =>
    (List.takeWhile_prefix _).subset member
  have ext : ∀ c ∈ (norm.drop 8).takeWhile (· ≠ 0x20), c ∈ norm.drop 8 := fun c member =>
    (List.takeWhile_prefix _).subset member
  have upper : ∀ l : List Byte, (∀ c ∈ l, c ∈ norm) → l.map upcase = l := fun l subset => by
    conv_rhs => rw [← List.map_id l]
    exact List.map_congr_left fun c member => (fine c (subset c member)).2
  have noDot' : 0x2E ∉ (norm.take 8).takeWhile (· ≠ 0x20) := fun member => noDot (base _ member)
  have short : ((norm.take 8).takeWhile (· ≠ 0x20)).length ≤ 8 :=
    Nat.le_trans (List.takeWhile_prefix _).length_le (by rw [List.length_take]; omega)
  have three : ((norm.drop 8).takeWhile (· ≠ 0x20)).length ≤ 3 :=
    Nat.le_trans (List.takeWhile_prefix _).length_le (by rw [List.length_drop, long])
  have same := upper _ fun c member => List.mem_of_mem_take (base c member)
  have same' := upper _ fun c member => List.mem_of_mem_drop (ext c member)
  by_cases shown : norm.getD 8 0 ≠ 0x20
  · rw [shownName, if_pos shown, normName_dotted noDot' short, List.take_of_length_le three, same, same']
  · have none' : (norm.drop 8).takeWhile (· ≠ 0x20) = [] := by
      have first : norm.drop 8 = norm.getD 8 0 :: norm.drop 9 := by
        rw [List.drop_eq_getElem_cons (by omega), List.getD_eq_getElem _ _ (by omega)]
      rw [first, List.takeWhile_cons_of_neg (by simpa using shown)]
    rw [shownName, if_neg shown, none', List.append_nil, normName_undotted noDot' short, same]
    rfl

theorem normName_shown_iff :
    normName (shownName norm) = norm ↔ Gapless (norm.take 8) ∧ Gapless (norm.drop 8) := by
  have long := ordinary.1
  have head : (norm.take 8).length = 8 := by
    rw [List.length_take, long]
    rfl
  have tail : (norm.drop 8).length = 3 := by rw [List.length_drop, long]
  have padded : ∀ (l : List Byte) (n : Nat), l.length ≤ n →
      (l ++ List.replicate (n - l.length) 0x20).length = n :=
    fun l n fits => by
      rw [List.length_append, List.length_replicate]
      omega
  have short : ((norm.take 8).takeWhile (· ≠ 0x20)).length ≤ 8 :=
    Nat.le_trans (List.takeWhile_prefix _).length_le (Nat.le_of_eq head)
  rw [normName_shown ordinary, ← gapless_iff head, ← gapless_iff tail]
  conv_lhs => rhs; rw [← List.take_append_drop 8 norm]
  constructor
  · exact fun same => List.append_inj same ((padded _ 8 short).trans head.symm)
  · exact fun ⟨base, ext⟩ => by rw [base, ext]

theorem listName_shown {e : Nat → Byte} (named : (List.range 11).map e = norm) :
    listName e = shownName norm := by
  obtain ⟨long, fine, -⟩ := ordinary
  have base : (List.range 8).map e = norm.take 8 := by
    rw [← named, ← List.map_take, List.take_range]
    rfl
  have ext : ((List.range 3).map fun i => e (8 + i)) = norm.drop 8 := by
    rw [← named]
    rfl
  have first : e 8 = norm.getD 8 0 := by
    rw [← named]
    rfl
  have listed : listName e = ((shownName norm).takeWhile (· ≠ 0x00)).take 15 := by
    rw [listName, base, ext, first]
    rfl
  have whole : (shownName norm).takeWhile (· ≠ 0x00) = shownName norm := by
    refine List.takeWhile_eq_self_iff.mpr fun c member => ?_
    have other : c ≠ 0 := by
      rw [shownName, List.mem_append] at member
      rcases member with before | after
      · exact (fine c (List.mem_of_mem_take ((List.takeWhile_prefix _).subset before))).1
      · split at after
        next =>
          rcases List.mem_cons.mp after with rfl | after
          · decide
          · exact (fine c (List.mem_of_mem_drop ((List.takeWhile_prefix _).subset after))).1
        next => exact absurd after List.not_mem_nil
    simpa using other
  have short : (shownName norm).length ≤ 15 := by
    have head := (List.takeWhile_prefix (p := (· ≠ (0x20 : Byte))) (l := norm.take 8)).length_le
    have tail := (List.takeWhile_prefix (p := (· ≠ (0x20 : Byte))) (l := norm.drop 8)).length_le
    rw [List.length_take] at head
    rw [List.length_drop] at tail
    rw [shownName, List.length_append]
    split
    · rw [List.length_cons]
      omega
    · rw [List.length_nil]
      omega
  rw [listed, whole, List.take_of_length_le short]

end Shown

section Written

variable {vol : Volume} {v v' : View} {last : Nat} {chain : Nat → List Nat} {norm : List Byte}
    {k first len : Nat}
  {existed : Bool} (layout : Layout vol v last chain) (chosen : Chosen vol v last norm k existed)
  (entered : v'.dir = Function.update v.dir k fun j => if j < 32 then newEntry norm first len j else 0)

include entered

theorem dir_other {i : Nat} (other : i ≠ k) : v'.dir i = v.dir i := by
  rw [entered, Function.update_of_ne other]

theorem dir_entered {j : Nat} (low : j < 32) : v'.dir k j = newEntry norm first len j := by
  rw [entered, Function.update_self, if_pos low]

theorem live_other {i : Nat} (other : i ≠ k) : v'.live i = v.live i := by
  rw [View.live, View.live, dir_other entered other]

theorem name_entered (long : norm.length = 11) : v'.name k = norm := by
  rw [← newEntry_name first len long]
  refine List.map_congr_left fun j member => ?_
  exact dir_entered entered (by have := List.mem_range.mp member; omega)

include layout chosen

omit entered in
theorem other_name {i : Nat} (other : i ≠ k) (live : v.live i = true) : v.name i ≠ norm := by
  intro named
  obtain ⟨-, -, slot⟩ := chosen
  cases existed with
  | false => exact slot.2 i live named
  | true => exact other (layout.distinct i k live slot.1 (named.trans slot.2.symm))

variable (usable : Usable norm)

include usable

omit layout chosen in
theorem live_entered : v'.live k = true := by
  refine View.live_iff.mpr ⟨?_, ?_, ?_⟩
  · rw [dir_entered entered (by decide)]
    exact usable.2.1
  · rw [dir_entered entered (by decide)]
    exact usable.2.2
  · rw [dir_entered entered (by decide)]
    exact (show (0x20 : Byte) ≠ 0x0F by decide)

theorem marks_entered {i : Nat} (live : i ≠ k → v.live i = true) : ∀ j ≤ i, v'.dir j 0 ≠ 0x00 := by
  intro j low
  by_cases here : j = k
  · rw [here, dir_entered entered (by decide)]
    exact usable.2.1
  · rw [dir_other entered here]
    refine layout.before j ?_
    by_cases same : i = k
    · have within := chosen.2.1
      omega
    · have below := layout.live_lt (live same)
      omega

theorem find_entered : v'.find norm (16 * vol.rootSectors) 0 = some k := by
  rw [View.find_iff]
  have inside := chosen.1
  refine ⟨⟨Nat.zero_le k, by omega⟩, fun j _ low => ?_, ⟨?_, name_entered entered usable.1⟩,
    fun j _ low both => ?_⟩
  · exact marks_entered layout chosen entered usable (fun other => absurd rfl other) j low
  · exact live_entered entered usable
  · have other : j ≠ k := by omega
    rw [live_other entered other, View.name, dir_other entered other] at both
    exact other_name layout chosen other both.1 both.2

theorem mem_listed_entered {i : Nat} : i ∈ v'.listed (16 * vol.rootSectors) 0 ↔
    i = k ∨ i ≠ k ∧ i ∈ v.listed (16 * vol.rootSectors) 0 := by
  have inside := chosen.1
  have bounded := layout.bounded
  have kept (other : i ≠ k) : v'.label i = v.label i := by
    rw [View.label, View.label, dir_other entered other]
  rw [View.mem_listed, View.mem_listed]
  by_cases here : i = k
  · have plain : v'.label k = false := by
      rw [View.label, dir_entered entered (by decide)]
      exact (show ((0x20 : Byte) &&& 0x08 != 0) = false by decide)
    refine iff_of_true ?_ (.inl here)
    rw [here]
    exact ⟨⟨Nat.zero_le k, by omega⟩,
      fun j _ low =>
        marks_entered layout chosen entered usable (fun other => absurd rfl other) j low,
      live_entered entered usable, plain⟩
  · rw [live_other entered here, kept here]
    constructor
    · rintro ⟨bounds, -, live, plain⟩
      have below := layout.live_lt live
      exact .inr ⟨here, bounds, fun j _ low => layout.before j (by omega), live, plain⟩
    · rintro (same | ⟨-, bounds, -, live, plain⟩)
      · exact absurd same here
      · exact ⟨bounds, fun j _ low => marks_entered layout chosen entered usable (fun _ => live) j low, live,
          plain⟩

theorem listed_entered_length :
    (v'.listed (16 * vol.rootSectors) 0).length ≤
      (v.listed (16 * vol.rootSectors) 0).length + 1 := by
  have subset : v'.listed (16 * vol.rootSectors) 0 ⊆ k :: v.listed (16 * vol.rootSectors) 0 := by
    intro i member
    rcases (mem_listed_entered layout chosen entered usable).mp member with rfl | ⟨-, there⟩
    · exact List.mem_cons_self ..
    · exact List.mem_cons_of_mem k there
  exact ((View.listed_nodup v' _ _).subperm subset).length_le

end Written

/-- A file written under `name` is found under it, and listed once, under a string that opens it. No
two files are listed under one string. -/
structure ListedAsWritten (faults : Faults) (vol : Volume) (name : List Byte) (s : Io)
    (k : Nat) : Prop where
  found : SelectsSlot faults vol name s k
  listed : (fatList (device faults) vol 32 s).1 =
    some (((view vol s.disk).listed (16 * vol.rootSectors) 0).map fun i => listEntry ((view vol s.disk).dir i))
  once : ((view vol s.disk).listed (16 * vol.rootSectors) 0).count k = 1
  same : normName (listName ((view vol s.disk).dir k)) = normName name
  opens : SelectsSlot faults vol (listName ((view vol s.disk).dir k)) s k
  distinct : ∀ i ∈ (view vol s.disk).listed (16 * vol.rootSectors) 0,
    ∀ j ∈ (view vol s.disk).listed (16 * vol.rootSectors) 0, i ≠ j →
      listName ((view vol s.disk).dir i) ≠ listName ((view vol s.disk).dir j)

/-- What that takes of the stored name, and of the files that the volume has under other names. -/
structure Listable (vol : Volume) (v : View) (norm : List Byte) : Prop where
  alive : norm.getD 0 0 ≠ 0xE5
  base : Gapless (norm.take 8)
  ext : Gapless (norm.drop 8)
  apart : ∀ i ∈ v.listed (16 * vol.rootSectors) 0, v.name i ≠ norm →
    listName (v.dir i) ≠ shownName norm
  others : ∀ i ∈ v.listed (16 * vol.rootSectors) 0, ∀ j ∈ v.listed (16 * vol.rootSectors) 0, i ≠ j →
    v.name i ≠ norm → v.name j ≠ norm → listName (v.dir i) ≠ listName (v.dir j)

section WriteAndList

variable {faults : Faults} {vol : Volume} (geo : Geometry vol) (reliable : Reliable faults)
    {s s' : Io}

include geo reliable

/-- A name that is written is a name that is listed exactly if the stored name does not start with the
mark of a deleted entry, no byte of its base or extension follows a space, and the others are listed apart. -/
theorem fatWrite_listed_iff (wellFormed : WellFormed vol s.disk)
    (few : ((view vol s.disk).listed (16 * vol.rootSectors) 0).length < 32) {name : List Byte}
    (string : CString name) {data : Nat → Byte} {len : Nat} (word : len < 2 ^ 32)
    (written : fatWrite (device faults) vol name data len s = (true, s')) :
    (∃ k, ListedAsWritten faults vol name s' k) ↔
      Listable vol (view vol s.disk) (normName name) := by
  obtain ⟨-, last, chain, layout⟩ := wellFormed
  obtain ⟨k, existed, first, chosen, entered⟩ := fatWrite_entry geo reliable layout word written
  have ordinary := ordinary_normName string
  by_cases alive : (normName name).getD 0 0 = 0xE5
  · refine iff_of_false (fun ⟨i, as⟩ => ?_) fun listable => listable.alive alive
    obtain ⟨-, -, ⟨live, named⟩, -⟩ :=
      View.find_iff.mp ((selects_iff name s' geo reliable).mp as.found)
    refine (View.live_iff.mp live).2.1 ?_
    rw [← alive, ← named]
    rfl
  · have usable := usable_normName string alive
    have found := find_entered layout chosen entered usable
    have shows := listName_shown ordinary (name_entered entered usable.1)
    have member (i : Nat) := mem_listed_entered (i := i) layout chosen entered usable
    have elsewhere : ∀ i ∈ (view vol s.disk).listed (16 * vol.rootSectors) 0,
        i ≠ k ↔ (view vol s.disk).name i ≠ normName name := fun i there => by
      have live := (View.mem_listed.mp there).2.2.1
      refine ⟨fun other => other_name layout chosen other live, ?_⟩
      rintro other rfl
      obtain ⟨-, -, slot⟩ := chosen
      cases existed with
      | false => exact View.live_of_dead slot.1 live
      | true => exact other slot.2
    have kept {i : Nat} (other : i ≠ k) := dir_other entered other
    constructor
    · rintro ⟨i, as⟩
      obtain rfl : k = i :=
        Option.some.inj (found.symm.trans ((selects_iff name s' geo reliable).mp as.found))
      have same := as.same
      rw [shows] at same
      obtain ⟨base, ext⟩ := (normName_shown_iff ordinary).mp same
      refine ⟨alive, base, ext, fun i there other => ?_,
        fun i there j there' different other other' => ?_⟩
      · have other := (elsewhere i there).mpr other
        have apart := as.distinct i ((member i).mpr (.inr ⟨other, there⟩)) k
          ((member k).mpr (.inl rfl)) other
        rwa [kept other, shows] at apart
      · have other := (elsewhere i there).mpr other
        have other' := (elsewhere j there').mpr other'
        have apart := as.distinct i ((member i).mpr (.inr ⟨other, there⟩)) j
          ((member j).mpr (.inr ⟨other', there'⟩))
          different
        rwa [kept other, kept other'] at apart
    · intro listable
      have same := (normName_shown_iff ordinary).mpr ⟨listable.base, listable.ext⟩
      rw [← shows] at same
      have length := listed_entered_length layout chosen entered usable
      obtain ⟨_, call, -⟩ := fatList_ok 32 geo reliable s'
      rw [List.take_of_length_le (by omega)] at call
      refine ⟨k, ⟨(selects_iff name s' geo reliable).mpr found, congrArg Prod.fst call, ?_, same, ?_, ?_⟩⟩
      · exact List.count_eq_one_of_mem (View.listed_nodup ..) ((member k).mpr (.inl rfl))
      · exact (selects_iff _ s' geo reliable).mpr (same ▸ found)
      · intro i there j there' different
        rcases (member i).mp there with rfl | ⟨other, before⟩
        · rcases (member j).mp there' with rfl | ⟨other', before'⟩
          · exact absurd rfl different
          · rw [shows, kept other']
            exact (listable.apart j before' ((elsewhere j before').mp other')).symm
        · rw [kept other]
          rcases (member j).mp there' with rfl | ⟨other', before'⟩
          · rw [shows]
            exact listable.apart i before ((elsewhere i before).mp other)
          · rw [kept other']
            exact listable.others i before j before' different ((elsewhere i before).mp other)
              ((elsewhere j before').mp other')

end WriteAndList

def gapName : List Byte := [0x41, 0x20, 0x42]

def writtenOn (name : List Byte) : Bool × Io :=
  fatWrite (device noFaults) floppy name (fun _ => 0) 0 blankIo

theorem writtenOn_done : (writtenOn gapName).1 = true ∧ (writtenOn [0x41]).1 = true := by
  decide +kernel

theorem blankIo_listed : (view floppy blankIo.disk).listed (16 * floppy.rootSectors) 0 = [] := by
  decide +kernel

theorem fatWrite_hides : ¬ ∀ (faults : Faults) (vol : Volume) (s s' : Io) (name : List Byte) (data : Nat → Byte)
    (len : Nat), Geometry vol → Reliable faults → WellFormed vol s.disk →
      ((view vol s.disk).listed (16 * vol.rootSectors) 0).length < 32 → CString name →
        len < 2 ^ 32 →
      fatWrite (device faults) vol name data len s = (true, s') →
        ∃ k, ListedAsWritten faults vol name s' k := by
  intro always
  have few : ((view floppy blankIo.disk).listed (16 * floppy.rootSectors) 0).length < 32 := by
    rw [blankIo_listed]
    decide
  have written : writtenOn gapName = (true, (writtenOn gapName).2) := Prod.ext writtenOn_done.1 rfl
  obtain ⟨k, as⟩ := always noFaults floppy blankIo _ gapName _ 0 floppy_geometry noFaults_reliable
    (blank_wellFormed floppy) few (by decide) (by decide) written
  have slot : (view floppy (writtenOn gapName).2.disk).find (normName gapName) (16 * floppy.rootSectors) 0 =
      some 0 := by decide +kernel
  have found := (selects_iff gapName _ floppy_geometry noFaults_reliable).mp as.found
  obtain rfl : 0 = k := Option.some.inj (slot.symm.trans found)
  have same := as.same
  revert same
  decide +kernel

theorem fatWrite_listed_iff_letter :
    (∃ k, ListedAsWritten noFaults floppy [0x41] (writtenOn [0x41]).2 k) ↔
    Listable floppy (view floppy blankIo.disk) (normName [0x41]) :=
  fatWrite_listed_iff floppy_geometry noFaults_reliable (blank_wellFormed floppy)
    (by rw [blankIo_listed]; decide) (by decide) (by decide) (Prod.ext writtenOn_done.2 rfl)

end NovaKernel
