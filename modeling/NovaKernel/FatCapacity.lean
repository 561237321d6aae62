import NovaKernel.FatMap
import NovaKernel.FatFull
import Mathlib.Data.Set.Card

set_option autoImplicit false

namespace NovaKernel

def reservedSlots (vol : Volume) (v : View) : Finset Nat :=
  (Finset.range (16 * vol.rootSectors)).filter fun k => v.dir k 0 ≠ 0x00 ∧ v.dir k 0 ≠ 0xE5 ∧ v.live k ≠ true

noncomputable def fileCount (files : FileMap) : Nat := {name | (files name).isSome}.ncard

/-- There is a slot for the file, and clusters once those of the file it replaces are given back. -/
def Fits (vol : Volume) (reserved : Nat) (files : FileMap) (name : List Byte) (len : Nat) : Prop :=
  ((files name).isSome ∨ fileCount files + reserved < 16 * vol.rootSectors) ∧
    usedClusters vol (Function.update files name none) + clustersOf vol len ≤ dataClustersMax vol

namespace StoreCall

open Classical in
/-- The calls on a map of bounded size: a file that does not fit is refused. -/
noncomputable def onBounded (vol : Volume) (reserved : Nat) (files : FileMap) (call : StoreCall) :
    StoreResult × FileMap :=
  match call with
  | .write name _ len =>
    if Fits vol reserved files (normName name) len then call.onMap vol files else (.done false, files)
  | _ => call.onMap vol files

noncomputable def runBounded (vol : Volume) (reserved : Nat) : List StoreCall → FileMap →
  List StoreResult × FileMap
  | [], files => ([], files)
  | call :: rest, files =>
    let (result, files) := call.onBounded vol reserved files
    let (results, files) := runBounded vol reserved rest files
    (result :: results, files)

/-- A usable name, a length that is not close to the word, and no file in the place of one that does
not fit. -/
def Bounded (vol : Volume) (reserved : Nat) (files : FileMap) : StoreCall → Prop
  | .write name _ len => (∀ c ∈ name, c ≠ 0) ∧ (normName name).getD 0 0 ≠ 0xE5 ∧
      len + (512 * vol.spc - 1) < 2 ^ 32 ∧
      (Fits vol reserved files (normName name) len ∨ (files (normName name)).getD [] = [])
  | _ => True

def AllBounded (vol : Volume) (reserved : Nat) : List StoreCall → FileMap → Prop
  | [], _ => True
  | call :: rest, files =>
    call.Bounded vol reserved files ∧
      AllBounded vol reserved rest (call.onBounded vol reserved files).2

theorem delete_cleared (vol : Volume) (reserved : Nat) (files : FileMap) (name : List Byte) :
    (((delete name).onBounded vol reserved files).2 (normName name)).getD [] = [] := by
  change (Function.update files (normName name) none (normName name)).getD [] = []
  rw [Function.update_self, Option.getD_none]

end StoreCall

section Slots

variable {v : View} {norm : List Byte}

theorem View.findSlot_none (n k : Nat) (free : Option Nat)
    (none' : v.findSlot norm n k free = none) :
    free = none ∧ ∀ i, k ≤ i → i < k + n → v.dir i 0 ≠ 0x00 ∧ v.dir i 0 ≠ 0xE5 := by
  induction n generalizing k free with
  | zero => exact ⟨by simpa [View.findSlot] using none', fun i low high => absurd low (by omega)⟩
  | succ n ih =>
    have step : ∀ free', v.findSlot norm n (k + 1) free' = none → v.dir k 0 ≠ 0x00 →
      v.dir k 0 ≠ 0xE5 →
        free' = none ∧ ∀ i, k ≤ i → i < k + (n + 1) → v.dir i 0 ≠ 0x00 ∧ v.dir i 0 ≠ 0xE5 := by
      intro free' rest more kept
      obtain ⟨empty, later⟩ := ih (k + 1) free' rest
      refine ⟨empty, fun i low high => ?_⟩
      by_cases here : i = k
      · exact here ▸ ⟨more, kept⟩
      · exact later i (by omega) (by omega)
    rw [View.findSlot] at none'
    by_cases ended : v.dir k 0 = 0x00
    · rw [if_pos ended] at none'
      cases free <;> simp at none'
    rw [if_neg ended] at none'
    by_cases deleted : v.dir k 0 = 0xE5
    · rw [if_pos deleted] at none'
      have taken := (ih (k + 1) _ none').1
      cases free <;> simp at taken
    rw [if_neg deleted] at none'
    split at none'
    next => cases none'
    next => exact step free none' ended deleted

variable {vol : Volume} {last : Nat} {chain : Nat → List Nat} (layout : Layout vol v last chain)

include layout

theorem Layout.fileCount_eq : fileCount (v.lookup vol chain) = (liveSlots v last).card := by
  have files : {name | (v.lookup vol chain name).isSome} =
      ((liveSlots v last).image v.name : Finset (List Byte)) := by
    ext name
    rw [Set.mem_ofPred_eq, Finset.mem_coe, Finset.mem_image]
    rcases layout.find_cases name with ⟨k, -, live, named⟩ | ⟨-, absent⟩
    · exact iff_of_true (by rw [layout.lookup_found live named]; rfl) ⟨k,
        layout.mem_liveSlots.mpr live, named⟩
    · refine iff_of_false (by rw [layout.lookup_absent absent]; simp) ?_
      rintro ⟨k, member, named⟩
      exact absent k (layout.mem_liveSlots.mp member) named
  rw [fileCount, files, Set.ncard_coe_finset, Finset.card_image_of_injOn]
  intro k live l live' same
  exact layout.distinct k l (layout.mem_liveSlots.mp live) (layout.mem_liveSlots.mp live') same

theorem Layout.taken_slots : Disjoint (liveSlots v last) (reservedSlots vol v) ∧
    liveSlots v last ∪ reservedSlots vol v ⊆ Finset.range (16 * vol.rootSectors) := by
  constructor
  · refine Finset.disjoint_left.mpr fun k live reserved => ?_
    exact (Finset.mem_filter.mp reserved).2.2.2 (layout.mem_liveSlots.mp live)
  · refine Finset.union_subset (fun k live => ?_) (Finset.filter_subset _ _)
    have below := layout.live_lt (layout.mem_liveSlots.mp live)
    have bounded := layout.bounded
    exact Finset.mem_range.mpr (by omega)

theorem Layout.slots_full : ¬ fileCount (v.lookup vol chain) + (reservedSlots vol v).card < 16 * vol.rootSectors ↔
    ∀ k < 16 * vol.rootSectors, v.dir k 0 ≠ 0x00 ∧ v.dir k 0 ≠ 0xE5 := by
  obtain ⟨apart, within⟩ := layout.taken_slots
  rw [layout.fileCount_eq, ← Finset.card_union_of_disjoint apart]
  constructor
  · intro full k inside
    have whole := Finset.eq_of_subset_of_card_le within (by rw [Finset.card_range]; omega)
    rcases Finset.mem_union.mp (whole ▸ Finset.mem_range.mpr inside) with live | reserved
    · have alive := View.live_iff.mp (layout.mem_liveSlots.mp live)
      exact ⟨alive.1, alive.2.1⟩
    · have kept := (Finset.mem_filter.mp reserved).2
      exact ⟨kept.1, kept.2.1⟩
  · intro taken room
    have whole : Finset.range (16 * vol.rootSectors) ⊆ liveSlots v last ∪ reservedSlots vol v := by
      intro k inside
      obtain ⟨more, kept⟩ := taken k (Finset.mem_range.mp inside)
      by_cases live : v.live k = true
      · exact Finset.mem_union_left _ (layout.mem_liveSlots.mpr live)
      · exact Finset.mem_union_right _ (Finset.mem_filter.mpr ⟨inside, more, kept, live⟩)
    have count := Finset.card_le_card whole
    rw [Finset.card_range] at count
    omega

end Slots

section Clusters

variable {vol : Volume} {v : View} {last : Nat} {chain : Nat → List Nat}
    (layout : Layout vol v last chain)
  {norm : List Byte}

include layout

theorem Layout.files_finite : (Function.support fun name =>
    ((v.lookup vol chain name).map fun bytes => clustersOf vol bytes.length).getD 0).Finite := by
  refine ((liveSlots v last).image v.name).finite_toSet.subset fun name used => ?_
  rcases layout.find_cases name with ⟨k, -, live, named⟩ | ⟨-, absent⟩
  · exact Finset.mem_coe.mpr (Finset.mem_image.mpr ⟨k, layout.mem_liveSlots.mpr live, named⟩)
  · rw [Function.mem_support, layout.lookup_absent absent] at used
    exact absurd rfl used

theorem Layout.usedClusters_erase (norm : List Byte) : usedClusters vol (v.lookup vol chain) =
    usedClusters vol (Function.update (v.lookup vol chain) norm none) +
      ((v.lookup vol chain norm).map fun bytes => clustersOf vol bytes.length).getD 0 := by
  have finite := layout.files_finite
  generalize v.lookup vol chain = files at finite ⊢
  let clusters : FileMap → List Byte → Nat := fun files name =>
    ((files name).map fun bytes => clustersOf vol bytes.length).getD 0
  let one : List Byte → Nat := fun name => if name = norm then clusters files norm else 0
  have parts : clusters files = fun name =>
      clusters (Function.update files norm none) name + one name := by
    funext name
    by_cases here : name = norm
    · subst here
      simp only [clusters, one, Function.update_self, if_true, Option.map_none, Option.getD_none,
        Nat.zero_add]
    · simp only [clusters, one, Function.update_of_ne here, if_neg here, Nat.add_zero]
  have others : (Function.support (clusters (Function.update files norm none))).Finite := by
    refine finite.subset fun name used => ?_
    by_cases here : name = norm
    · subst here
      simp [clusters] at used
    · simpa [clusters, Function.update_of_ne here] using used
  have single : (Function.support one).Finite := by
    refine (Set.finite_singleton norm).subset fun name used => ?_
    by_contra other
    exact used (if_neg other)
  calc usedClusters vol files = ∑ᶠ name, (clusters (Function.update files norm none) name + one name) :=
        congrArg finsum parts
    _ = (∑ᶠ name, clusters (Function.update files norm none) name) + ∑ᶠ name, one name :=
        finsum_add_distrib others single
    _ = usedClusters vol (Function.update files norm none) + clusters files norm := by
        rw [finsum_eq_single one norm fun name other => if_neg other]
        simp only [one, if_true]
        rfl

variable (geo : Geometry vol)

include geo

theorem Layout.freeSet_add : (freeSet vol v).card + usedClusters vol
    (v.lookup vol chain) = dataClustersMax vol := by
  have total := Finset.card_filter_add_card_filter_not (s := Finset.Ico 2 (dataClustersMax vol + 2))
    (v.link · = 0)
  rw [layout.used_card geo, ← layout.usedClusters_eq geo, Nat.card_Ico] at total
  simp only [freeSet]
  omega

theorem Layout.room {k : Nat} {existed : Bool} (chosen : Chosen vol v last norm k existed) :
    (freeSet vol (v.release (oldClusters chain k existed))).card +
      usedClusters vol (Function.update (v.lookup vol chain) norm none) = dataClustersMax vol := by
  have total := layout.freeSet_add geo
  have parts := layout.usedClusters_erase norm
  obtain ⟨-, -, slot⟩ := chosen
  cases existed with
  | true =>
    rw [oldClusters, if_pos rfl, layout.freeSet_release geo slot.1]
    rw [layout.lookup_found slot.1 slot.2, Option.map_some, Option.getD_some,
      layout.file_length geo.spc.1 slot.1]
      at parts
    omega
  | false =>
    rw [oldClusters, if_neg (by decide), View.release_nil]
    rw [layout.lookup_absent slot.2, Option.map_none, Option.getD_none] at parts
    omega

end Clusters

section Reserved

variable {vol : Volume} {v v' : View} {k : Nat}

theorem mem_reservedSlots : k ∈ reservedSlots vol v ↔
    k < 16 * vol.rootSectors ∧ v.dir k 0 ≠ 0x00 ∧ v.dir k 0 ≠ 0xE5 ∧ v.live k ≠ true := by
  rw [reservedSlots, Finset.mem_filter, Finset.mem_range]

theorem reservedSlots_congr (dir : v'.dir = v.dir) :
    reservedSlots vol v' = reservedSlots vol v := by
  ext i
  simp only [mem_reservedSlots, View.live, dir]

theorem reservedSlots_update {e : Nat → Byte} (dir : v'.dir = Function.update v.dir k e)
    (before : k ∉ reservedSlots vol v) (after : k ∉ reservedSlots vol v') :
    reservedSlots vol v' = reservedSlots vol v := by
  ext i
  by_cases here : i = k
  · exact iff_of_false (here ▸ after) (here ▸ before)
  · simp only [mem_reservedSlots, View.live, dir, Function.update_of_ne here]

theorem Chosen.unreserved {last : Nat} {norm : List Byte} {existed : Bool}
    (chosen : Chosen vol v last norm k existed) :
    k ∉ reservedSlots vol v := by
  intro member
  obtain ⟨-, more, kept, dead⟩ := mem_reservedSlots.mp member
  obtain ⟨-, -, slot⟩ := chosen
  cases existed with
  | true => exact dead slot.1
  | false => exact slot.1.elim more kept

end Reserved

/-- The map holds the files of a well-formed volume on which `reserved` slots hold parts of long names. -/
def Stores (vol : Volume) (disk : Nat → Byte) (files : FileMap) (reserved : Nat) : Prop :=
  Represents vol disk files ∧ (reservedSlots vol (view vol disk)).card = reserved

theorem WellFormed.stores {vol : Volume} {disk : Nat → Byte} (wellFormed : WellFormed vol disk) :
    ∃ files reserved, Stores vol disk files reserved := by
  obtain ⟨files, represents⟩ := wellFormed.represents
  exact ⟨files, _, represents, rfl⟩

theorem blank_stores (vol : Volume) : Stores vol (fun _ => 0) (fun _ => none) 0 := by
  obtain ⟨agree, last, chain, layout⟩ := blank_wellFormed vol
  have dead : ∀ k, (view vol fun _ => 0).live k ≠ true :=
    fun k => View.live_of_dead (.inl (by simp [view]))
  refine ⟨⟨agree, last, chain, layout, ?_⟩, ?_⟩
  · exact funext fun norm => layout.lookup_absent fun k live => absurd live (dead k)
  · refine Finset.card_eq_zero.mpr (Finset.eq_empty_of_forall_notMem fun k member => ?_)
    exact (mem_reservedSlots.mp member).2.1 (by simp [view])

section Calls

variable {faults : Faults} {vol : Volume} (geo : Geometry vol) (reliable : Reliable faults)
  {io : Io} {files : FileMap} {reserved : Nat}

include geo reliable

theorem fatWrite_bounded (stores : Stores vol io.disk files reserved) {name : List Byte}
    (data : Nat → Byte) {len : Nat}
    (string : ∀ c ∈ name, c ≠ 0) (alive : (normName name).getD 0 0 ≠ 0xE5)
    (small : len + (512 * vol.spc - 1) < 2 ^ 32)
    (place : Fits vol reserved files (normName name) len ∨ (files (normName name)).getD [] = []) :
    (Fits vol reserved files (normName name) len ∧
        ∃ io', fatWrite (device faults) vol name data len io = (true, io') ∧
        Stores vol io'.disk (Function.update files (normName name) (some ((List.range len).map data))) reserved) ∨
      ¬ Fits vol reserved files (normName name) len ∧
        ∃ io', fatWrite (device faults) vol name data len io =
        (false, io') ∧
        Stores vol io'.disk files reserved := by
  obtain ⟨⟨agree, last, chain, layout, rfl⟩, rfl⟩ := stores
  have usable := usable_normName string alive
  obtain ⟨ok, io', call, agree', ⟨rfl, k, existed, first, cs, chosen, stored⟩ | ⟨rfl, none', absent, disk⟩ |
    ⟨rfl, k, existed, chosen, space⟩⟩ := fatWrite_outcomes geo reliable layout name data small
  · refine .inl ⟨⟨?_, ?_⟩, io', call,
      ⟨agree' agree, _, _, stored.keepsLayout layout chosen usable (by omega) geo, stored.lookup layout chosen usable (by omega) geo⟩, ?_⟩
    · obtain ⟨inside, -, slot⟩ := chosen
      cases existed with
      | true => exact .inl (by rw [layout.lookup_found slot.1 slot.2]; rfl)
      | false =>
        refine .inr ?_
        by_contra full
        have taken := layout.slots_full.mp full k inside
        exact slot.1.elim taken.1 taken.2
    · have subset : cs.toFinset ⊆ freeSet vol ((view vol io.disk).release (oldClusters chain k existed)) :=
        fun c member => mem_freeSet.mpr (stored.free c (List.mem_toFinset.mp member))
      have card := Finset.card_le_card subset
      rw [List.toFinset_card_of_nodup (stored.chain.nodup geo), stored.length] at card
      have room := layout.room geo chosen
      rw [clustersOf]
      omega
    · have after : k ∉ reservedSlots vol (view vol io'.disk) := fun member =>
        (mem_reservedSlots.mp member).2.2.2 (stored.live_here usable)
      rw [reservedSlots_update stored.dir chosen.unreserved after]
  · refine .inr ⟨fun fits => ?_, io', call, ⟨by rw [disk]; exact agree, ?_⟩, by rw [disk]⟩
    · have taken := (View.findSlot_none _ 0 none none').2
      have full := layout.slots_full.mpr fun k inside => taken k (Nat.zero_le k) (by omega)
      rcases fits.1 with found | room
      · rw [layout.lookup_absent absent] at found
        cases found
      · exact full room
    · rw [disk]
      exact ⟨last, chain, layout, rfl⟩
  · have noRoom : ¬ Fits vol (reservedSlots vol (view vol io.disk)).card ((view vol io.disk).lookup vol chain)
        (normName name) len := by
      intro fits
      have room := layout.room geo chosen
      have few := space.few
      have enough := fits.2
      rw [clustersOf] at enough
      omega
    have old : oldClusters chain k existed = [] := by
      obtain ⟨-, -, slot⟩ := chosen
      cases existed with
      | false => rfl
      | true =>
        have empty := place.resolve_left noRoom
        rw [layout.lookup_found slot.1 slot.2, Option.getD_some] at empty
        have length := layout.file_length geo.spc.1 slot.1
        have sizes := layout.sizes k slot.1
        rw [← length, empty, List.length_nil, Nat.zero_add,
          Nat.div_eq_of_lt (by have := geo.spc.1; omega)] at sizes
        exact List.eq_nil_of_length_eq_zero sizes
    have discarded := space.discarded
    rw [old, View.release_nil] at discarded
    have link : (view vol io'.disk).link = (view vol io.disk).link := by
      rw [discarded.link, View.release_nil]
    have layout' := layout.congr discarded.dir link
    refine .inr ⟨noRoom, io', call, ⟨agree' agree, last, chain, layout', ?_⟩, ?_⟩
    · funext norm
      rcases layout.find_cases norm with ⟨i, -, live, named⟩ | ⟨-, absent⟩
      · have live' : (view vol io'.disk).live i = true := by rwa [View.live, discarded.dir]
        have named' : (view vol io'.disk).name i = norm := by rwa [View.name, discarded.dir]
        rw [layout.lookup_found live named, layout'.lookup_found live' named',
          layout.file_congr discarded.data live discarded.dir]
      · have absent' : ∀ i, (view vol io'.disk).live i = true →
            (view vol io'.disk).name i ≠ norm := by
          simp only [View.live, View.name, discarded.dir]
          exact absent
        rw [layout.lookup_absent absent, layout'.lookup_absent absent']
    · rw [reservedSlots_congr discarded.dir]

namespace StoreCall

theorem onDisk_reserved (represents : Represents vol io.disk files) (call : StoreCall)
    (other : ∀ name data len, call ≠ .write name data len) :
    (reservedSlots vol (view vol (call.onDisk (device faults) vol io).2.disk)).card =
      (reservedSlots vol (view vol io.disk)).card := by
  obtain ⟨-, last, chain, layout, -⟩ := represents
  have same : ∀ {io' : Io}, io'.disk = io.disk →
      (reservedSlots vol (view vol io'.disk)).card = (reservedSlots vol (view vol io.disk)).card :=
        fun disk => by
    rw [disk]
  cases call with
  | write name data len => exact absurd rfl (other name data len)
  | delete name =>
    rcases fatDelete_cases geo reliable layout name with ⟨k, io', call, live, -, -, deleted⟩ | ⟨io', call, -,
      disk⟩
    · have before : k ∉ reservedSlots vol (view vol io.disk) := fun member =>
        (mem_reservedSlots.mp member).2.2.2 live
      have after : k ∉ reservedSlots vol (view vol io'.disk) := fun member => by
        refine (mem_reservedSlots.mp member).2.2.1 ?_
        rw [deleted.dir, Function.update_self, deletedEntry, Function.update_self]
      rw [onDisk, call]
      exact congrArg Finset.card (reservedSlots_update deleted.dir before after)
    · rw [onDisk, call]
      exact same disk
  | stat name =>
    rcases layout.find_cases (normName name) with ⟨k, -, live, named⟩ | ⟨-, absent⟩
    · obtain ⟨io', call, disk⟩ := fatStat_found geo reliable layout live named
      rw [onDisk, call]
      exact same disk
    · obtain ⟨io', call, disk⟩ := fatStat_absent geo reliable layout absent
      rw [onDisk, call]
      exact same disk
  | read name max =>
    rcases layout.find_cases (normName name) with ⟨k, -, live, named⟩ | ⟨-, absent⟩
    · obtain ⟨io', call, disk⟩ := fatRead_found geo reliable layout live named max
      rw [onDisk, call]
      exact same disk
    · obtain ⟨io', call, disk⟩ := fatRead_absent geo reliable layout absent max
      rw [onDisk, call]
      exact same disk
  | freeBytes =>
    obtain ⟨io', call, disk⟩ := fatFreeBytes_ok geo reliable io
    rw [onDisk, call]
    exact same disk

omit geo reliable in
theorem onBounded_other (call : StoreCall) (other : ∀ name data len, call ≠ .write name data len) :
    call.onBounded vol reserved files = call.onMap vol files := by
  cases call with
  | write name data len => exact absurd rfl (other name data len)
  | delete name => rfl
  | stat name => rfl
  | read name max => rfl
  | freeBytes => rfl

theorem onDisk_bounded (stores : Stores vol io.disk files reserved) (call : StoreCall)
    (bounded : call.Bounded vol reserved files) :
    (call.onDisk (device faults) vol io).1 = (call.onBounded vol reserved files).1 ∧
      Stores vol (call.onDisk (device faults) vol io).2.disk (call.onBounded vol reserved files).2 reserved := by
  by_cases written : ∃ name data len, call = .write name data len
  · obtain ⟨name, data, len, rfl⟩ := written
    obtain ⟨string, alive, small, place⟩ := bounded
    rcases fatWrite_bounded geo reliable stores data string alive small place with
      ⟨fits, io', call, stores'⟩ | ⟨noRoom, io', call, stores'⟩
    · simp only [onDisk, onBounded, call, if_pos fits]
      exact ⟨rfl, stores'⟩
    · simp only [onDisk, onBounded, call, if_neg noRoom]
      exact ⟨rfl, stores'⟩
  · have other : ∀ name data len, call ≠ .write name data len := fun name data len same =>
      written ⟨name, data, len, same⟩
    have admitted : call.Admitted (device faults) vol io := by
      cases call with
      | write name data len => exact absurd rfl (other name data len)
      | delete name => trivial
      | stat name => trivial
      | read name max => trivial
      | freeBytes => trivial
    obtain ⟨result, represents⟩ := onDisk_represents geo reliable stores.1 call admitted
    rw [onBounded_other call other]
    exact ⟨result, represents, (onDisk_reserved geo reliable stores.1 call other).trans stores.2⟩

end StoreCall

/-- Every sequence of calls gives the results of the bounded map, the refusals among them, and leaves the volume with
the files of the map. -/
theorem store_refinesBounded (wellFormed : WellFormed vol io.disk) :
    ∃ files reserved, Stores vol io.disk files reserved ∧
      ∀ calls, StoreCall.AllBounded vol reserved calls files →
        (StoreCall.run (device faults) vol calls io).1 =
          (StoreCall.runBounded vol reserved calls files).1 ∧
          Stores vol (StoreCall.run (device faults) vol calls io).2.disk
            (StoreCall.runBounded vol reserved calls files).2 reserved := by
  obtain ⟨files, reserved, stores⟩ := wellFormed.stores
  refine ⟨files, reserved, stores, fun calls bounded => ?_⟩
  induction calls generalizing io files with
  | nil => exact ⟨rfl, stores⟩
  | cons call rest ih =>
    obtain ⟨result, stores'⟩ := StoreCall.onDisk_bounded geo reliable stores call bounded.1
    obtain ⟨results, stores''⟩ := ih stores'.1.wellFormed _ stores' bounded.2
    simp only [StoreCall.run, StoreCall.runBounded]
    exact ⟨by rw [result, results], stores''⟩

end Calls

def threeFiles : List StoreCall :=
  [.delete [0x41], .write [0x41] (fun _ => 0x41) 1, .delete [0x42], .write [0x42] (fun _ => 0x42) 1,
    .delete [0x43], .write [0x43] (fun _ => 0x43) 1, .stat [0x43], .freeBytes]

theorem store_refinesBounded_three :
    ∃ files reserved, Stores twoClusters blankIo.disk files reserved ∧
    (StoreCall.run (device noFaults) twoClusters threeFiles blankIo).1 =
        (StoreCall.runBounded twoClusters reserved threeFiles files).1 ∧
      Stores twoClusters (StoreCall.run (device noFaults) twoClusters threeFiles blankIo).2.disk
        (StoreCall.runBounded twoClusters reserved threeFiles files).2 reserved := by
  have blank : WellFormed twoClusters blankIo.disk := blank_wellFormed twoClusters
  obtain ⟨files, reserved, stores, all⟩ :=
    store_refinesBounded twoClusters_geometry noFaults_reliable blank
  refine ⟨files, reserved, stores,
    all _ ⟨trivial, ⟨by decide, by decide, by decide, .inr (StoreCall.delete_cleared _ _ _ _)⟩, trivial, ⟨by decide, by decide, by decide, .inr (StoreCall.delete_cleared _ _ _ _)⟩, trivial,
    ⟨by decide, by decide, by decide, .inr (StoreCall.delete_cleared _ _ _ _)⟩, trivial, trivial, trivial⟩⟩

end NovaKernel
