import NovaKernel.FatSpace
import NovaKernel.Floppy

set_option autoImplicit false

namespace NovaKernel

def Unharmed (ata : Ata) (vol : Volume) (io io' : Io) : Prop :=
  (∀ name, (fatStat ata vol name io').1 = (fatStat ata vol name io).1 ∧
      ∀ max, (fatRead ata vol name max io').1 = (fatRead ata vol name max io).1) ∧
    (∀ k, (view vol io'.disk).live k = true →
      ∃ l, FileChain vol (view vol io'.disk) ((view vol io'.disk).start k) l) ∧
    (freeSet vol (view vol io'.disk)).card = (freeSet vol (view vol io.disk)).card

section Space

variable {vol : Volume} {v v' : View} {last : Nat} {chain : Nat → List Nat}
    (layout : Layout vol v last chain)

include layout

theorem Layout.freeSet_release (geo : Geometry vol) {k : Nat} (live : v.live k = true) :
    (freeSet vol (v.release (chain k))).card =
      (freeSet vol v).card + clustersOf vol (v.size k) := by
  have owned := layout.chains k live
  have union : freeSet vol (v.release (chain k)) = freeSet vol v ∪ (chain k).toFinset := by
    ext c
    rw [Finset.mem_union, mem_freeSet, mem_freeSet, List.mem_toFinset, View.release_link]
    by_cases member : c ∈ chain k
    · exact iff_of_true ⟨owned.inside member, if_pos member⟩ (.inr member)
    · rw [if_neg member, or_iff_left member]
  have apart : Disjoint (freeSet vol v) (chain k).toFinset := by
    refine Finset.disjoint_left.mpr fun c free member => ?_
    exact owned.link_ne (List.mem_toFinset.mp member) (mem_freeSet.mp free).2
  rw [union, Finset.card_union_of_disjoint apart, List.toFinset_card_of_nodup (owned.nodup geo),
    layout.sizes k live, clustersOf]

variable (dir : v'.dir = v.dir) (link : v'.link = v.link)
    (data : ∀ c, c ∉ freeSet vol v → v'.data c = v.data c)

include dir link

theorem Layout.congr : Layout vol v' last chain := by
  constructor
  case bounded => exact layout.bounded
  case before => rw [dir]; exact layout.before
  case after => rw [dir]; exact layout.after
  case distinct =>
    simp only [View.live, View.name, dir]
    exact layout.distinct
  case chains =>
    intro k live
    simp only [View.live, dir] at live
    simp only [View.start, dir]
    exact (layout.chains k live).congr fun c _ => by rw [link]
  case sizes =>
    simp only [View.live, View.size, dir]
    exact layout.sizes
  case disjoint =>
    simp only [View.live, dir]
    exact layout.disjoint
  case covered =>
    simp only [View.live, dir, link]
    exact layout.covered

include data

omit dir link in
theorem Layout.file_congr {k : Nat} (live : v.live k = true) (dir : v'.dir = v.dir) :
    v'.file vol k (chain k) = v.file vol k (chain k) := by
  have same : v'.contents vol (chain k) = v.contents vol (chain k) := by
    refine View.contents_congr fun c member => data c fun free => ?_
    exact (layout.chains k live).link_ne member (mem_freeSet.mp free).2
  rw [View.file, View.file, same, View.size, View.size, dir]

end Space

section Failures

variable {faults : Faults} {vol : Volume} (geo : Geometry vol) (reliable : Reliable faults)
  {last : Nat} {chain : Nat → List Nat} {io io' : Io} (layout : Layout vol (view vol io.disk) last chain)

include geo reliable layout

theorem unharmed_of_view (dir : (view vol io'.disk).dir = (view vol io.disk).dir)
    (link : (view vol io'.disk).link = (view vol io.disk).link)
    (data : ∀ c, c ∉ freeSet vol (view vol io.disk) → (view vol io'.disk).data c = (view vol io.disk).data c) :
    Unharmed (device faults) vol io io' := by
  have layout' := layout.congr dir link
  have alike : ∀ k, (view vol io'.disk).live k = (view vol io.disk).live k ∧
      (view vol io'.disk).name k = (view vol io.disk).name k := fun k => by
    simp only [View.live, View.name, dir, and_self]
  refine ⟨fun name => ?_, fun k live => ⟨_, layout'.chains k live⟩, ?_⟩
  · rcases layout.find_cases (normName name) with ⟨k, -, live, named⟩ | ⟨-, absent⟩
    · have live' := (alike k).1.trans live
      have named' := (alike k).2.trans named
      obtain ⟨_, stat, -⟩ := fatStat_found geo reliable layout live named
      obtain ⟨_, stat', -⟩ := fatStat_found geo reliable layout' live' named'
      refine ⟨by rw [stat, stat', View.size, View.size, View.start, View.start, dir], fun max => ?_⟩
      obtain ⟨_, read, -⟩ := fatRead_found geo reliable layout live named max
      obtain ⟨_, read', -⟩ := fatRead_found geo reliable layout' live' named' max
      rw [read, read', layout.file_congr data live dir, View.size, View.size, dir]
    · have absent' : ∀ k, (view vol io'.disk).live k = true →
          (view vol io'.disk).name k ≠ normName name :=
        fun k live named => absent k ((alike k).1.symm.trans live) ((alike k).2.symm.trans named)
      obtain ⟨_, stat, -⟩ := fatStat_absent geo reliable layout absent
      obtain ⟨_, stat', -⟩ := fatStat_absent geo reliable layout' absent'
      refine ⟨by rw [stat, stat'], fun max => ?_⟩
      obtain ⟨_, read, -⟩ := fatRead_absent geo reliable layout absent max
      obtain ⟨_, read', -⟩ := fatRead_absent geo reliable layout' absent' max
      rw [read, read']
  · simp only [freeSet, link]

omit reliable layout in
theorem clustersFor_wraps {len : Nat} (word : len < 2 ^ 32)
    (large : ¬ len + (512 * vol.spc - 1) < 2 ^ 32) :
    clustersFor vol len = 0 := by
  have spc := geo.spc
  have total : (len + vol.spc * 512 + (2 ^ 32 - 1)) % 2 ^ 32 =
      len + (512 * vol.spc - 1) - 2 ^ 32 := by omega
  rw [clustersFor, total]
  exact Nat.div_eq_of_lt (by omega)

-- A write whose count of clusters wraps to 0 stores an entry only.
theorem fatWrite_wraps (name : List Byte) (data : Nat → Byte) {len : Nat}
    (none' : clustersFor vol len = 0) :
    (∃ io' k existed, fatWrite (device faults) vol name data len io = (true, io') ∧
      Chosen vol (view vol io.disk) last (normName name) k existed ∧
      (view vol io'.disk).dir =
        Function.update (view vol io.disk).dir k fun j => if j < 32 then newEntry (normName name) 0 len j else 0) ∨
      ∃ io', fatWrite (device faults) vol name data len io = (false, io') ∧ io'.disk = io.disk := by
  have mounted : ¬ (!vol.mounted) = true := by simp [geo.mounted]
  obtain ⟨s₁, searched, disk₁⟩ := dirFindSlot_ok (normName_length name) geo reliable io
  rcases layout.findSlot_cases (normName name) with ⟨⟨k, existed⟩, found, chosen⟩ | ⟨missing, -⟩
  · rw [found, Option.map_some] at searched
    obtain ⟨s₂, dropped, becomes₂⟩ := dropOld_ok geo reliable layout chosen disk₁
    obtain ⟨s₃, entered, becomes₃⟩ :=
      writeEntry_ok geo reliable chosen.1 existed (normName name) 0 len s₂
    have streamed : writeChain (device faults) vol data len 0 len 0 0 s₂ = (true, s₂) := by
      cases len with
      | zero => rfl
      | succ n => rw [writeChain, if_neg (by omega)]
    refine .inl ⟨s₃, k, existed, ?_, chosen, ?_⟩
    · rw [fatWrite, if_neg mounted, searched]
      dsimp only
      rw [none', dropped]
      dsimp only [allocChain]
      rw [streamed]
      dsimp only
      rw [entered]
    · rw [becomes₃.shows, becomes₂.shows]
      rfl
  · rw [missing, Option.map_none] at searched
    refine .inr ⟨s₁, ?_, disk₁⟩
    rw [fatWrite, if_neg mounted, searched]

theorem fatWrite_entry {name : List Byte} {data : Nat → Byte} {len : Nat} (word : len < 2 ^ 32)
    (written : fatWrite (device faults) vol name data len io = (true, io')) :
    ∃ k existed first, Chosen vol (view vol io.disk) last (normName name) k existed ∧
      (view vol io'.disk).dir =
        Function.update (view vol io.disk).dir k fun j => if j < 32 then newEntry (normName name) first len j else 0 := by
  by_cases small : len + (512 * vol.spc - 1) < 2 ^ 32
  · obtain ⟨ok, io'', call, -, ⟨rfl, k, existed, first, cs, chosen, stored⟩ | ⟨rfl, -⟩ | ⟨rfl, -⟩⟩ :=
      fatWrite_cases geo reliable layout name data small
    · obtain rfl : io'' = io' := (Prod.mk.inj (call.symm.trans written)).2
      exact ⟨k, existed, first, chosen, stored.dir⟩
    · cases call.symm.trans written
    · cases call.symm.trans written
  · rcases fatWrite_wraps geo reliable layout name data (clustersFor_wraps geo word small) with
      ⟨io'', k, existed, call, chosen, dir⟩ | ⟨io'', call, -⟩
    · obtain rfl : io'' = io' := (Prod.mk.inj (call.symm.trans written)).2
      exact ⟨k, existed, 0, chosen, dir⟩
    · cases call.symm.trans written

theorem OutOfSpace.unharmed {len : Nat}
    (space : OutOfSpace vol (view vol io.disk) (view vol io'.disk) [] len) :
    Unharmed (device faults) vol io io' := by
  have discarded := space.discarded
  rw [View.release_nil] at discarded
  refine unharmed_of_view geo reliable layout discarded.dir ?_ discarded.data
  rw [discarded.link, View.release_nil]

omit geo reliable layout in
theorem OutOfSpace.harms {v v' : View} {k len : Nat} {l : List Nat}
    (owned : FileChain vol v (v.start k) l) (some' : l ≠ []) (space : OutOfSpace vol v v' l len) :
    ¬ ∃ l', FileChain vol v' (v'.start k) l' := by
  rintro ⟨l', owned'⟩
  have same : v'.start k = v.start k := by rw [View.start, View.start, space.discarded.dir]; rfl
  rw [same] at owned'
  generalize v.start k = a at owned owned'
  cases owned with
  | empty => exact some' rfl
  | chain chain =>
    have inside := chain.start (by simp)
    cases chain with
    | cons _ _ =>
      have free : v'.link a = 0 := by
        rw [space.discarded.link, View.release_nil, View.release_link, if_pos (by simp)]
      cases owned' with
      | empty => exact absurd inside.1 (by decide)
      | chain chain' =>
        have used : v'.link a ≠ 0 := chain'.link_ne (by cases chain' with | cons _ _ => simp)
        exact used free

omit layout in
/-- A write that returns 0 harms nothing exactly when the name has no file, or an empty one, or the clusters
it needs are there. -/
theorem fatWrite_unharmed_iff (wellFormed : WellFormed vol io.disk) (name : List Byte)
    (data : Nat → Byte) {len : Nat} (word : len < 2 ^ 32) :
    ((fatWrite (device faults) vol name data len io).1 = false →
        Unharmed (device faults) vol io (fatWrite (device faults) vol name data len io).2) ↔
      ∀ st, (fatStat (device faults) vol name io).1 = some st → st.size = 0 ∨
        clustersFor vol len ≤ (freeSet vol (view vol io.disk)).card + clustersOf vol st.size := by
  obtain ⟨-, last, chain, layout⟩ := wellFormed
  -- The file that `fat_stat` finds is the one the slot is chosen for.
  have stat : ∀ k, (view vol io.disk).live k = true → (view vol io.disk).name k = normName name →
      ∃ st, (fatStat (device faults) vol name io).1 = some st ∧
        st.size = (view vol io.disk).size k := by
    intro k live named
    obtain ⟨_, found, -⟩ := fatStat_found geo reliable layout live named
    exact ⟨_, congrArg Prod.fst found, rfl⟩
  have missing : (∀ k, (view vol io.disk).live k = true → (view vol io.disk).name k ≠ normName name) →
      (fatStat (device faults) vol name io).1 = none := fun absent => by
    obtain ⟨_, none', -⟩ := fatStat_absent geo reliable layout absent
    exact congrArg Prod.fst none'
  have unchanged : ∀ {io' : Io}, io'.disk = io.disk →
      Unharmed (device faults) vol io io' := fun disk =>
    unharmed_of_view geo reliable layout (by rw [disk]) (by rw [disk]) fun _ _ => by rw [disk]
  by_cases small : len + (512 * vol.spc - 1) < 2 ^ 32
  next =>
    have count := clustersFor_eq geo.spc small
    obtain ⟨ok, io', call, -, ⟨rfl, k, existed, first, cs, ⟨-, -, slot⟩, stored⟩ | ⟨rfl, absent, disk⟩ |
      ⟨rfl, k, existed, ⟨-, -, slot⟩, space⟩⟩ := fatWrite_cases geo reliable layout name data small
    all_goals rw [call]
    next =>
      refine iff_of_true (fun failed => absurd failed (by simp)) fun st found => ?_
      cases existed with
      | false =>
        rw [missing slot.2] at found
        cases found
      | true =>
        obtain ⟨st', found', size⟩ := stat k slot.1 slot.2
        obtain rfl : st = st' := Option.some.inj (found.symm.trans found')
        have subset : cs.toFinset ⊆ freeSet vol ((view vol io.disk).release (chain k)) :=
          fun c member =>
          mem_freeSet.mpr (stored.free c (List.mem_toFinset.mp member))
        have card := Finset.card_le_card subset
        rw [List.toFinset_card_of_nodup (stored.chain.nodup geo), stored.length,
          layout.freeSet_release geo slot.1] at card
        exact .inr (by rw [count, size]; exact card)
    next => exact iff_of_true (fun _ => unchanged disk) fun st found => by
              rw [missing absent] at found
              cases found
    next =>
      cases existed with
      | false =>
        refine iff_of_true (fun _ => space.unharmed geo reliable layout) fun st found => ?_
        rw [missing slot.2] at found
        cases found
      | true =>
        obtain ⟨st, found, size⟩ := stat k slot.1 slot.2
        have length := layout.sizes k slot.1
        have few := space.few
        rw [oldClusters, if_pos rfl, layout.freeSet_release geo slot.1, ← count] at few
        by_cases empty : (view vol io.disk).size k = 0
        next =>
          have none' : chain k = [] := by
            rw [empty, Nat.zero_add, Nat.div_eq_of_lt (by have := geo.spc.1; omega)] at length
            exact List.eq_nil_of_length_eq_zero length
          rw [oldClusters, if_pos rfl, none'] at space
          refine iff_of_true (fun _ => space.unharmed geo reliable layout) fun st' found' => .inl ?_
          obtain rfl : st = st' := Option.some.inj (found.symm.trans found')
          omega
        next =>
          have some' : chain k ≠ [] := by
            intro none'
            have fits := (clusters_bounds geo.spc.1 ((view vol io.disk).size k)).1
            rw [← length, none', List.length_nil, Nat.mul_zero] at fits
            omega
          refine iff_of_false (fun harmless => ?_) fun condition => ?_
          · have live : (view vol io'.disk).live k = true := by
              simp only [View.live, space.discarded.dir]
              exact slot.1
            exact space.harms (layout.chains k slot.1) some' ((harmless rfl).2.1 k live)
          · rcases condition st found with zero | enough
            · omega
            · rw [size] at enough
              omega
  next =>
    have none' := clustersFor_wraps geo word small
    refine iff_of_true (fun failed => ?_) fun st _ => .inr (by rw [none']; exact Nat.zero_le _)
    rcases fatWrite_wraps geo reliable layout name data none' with ⟨io', _, _, call, -⟩ | ⟨io', call, disk⟩
    · rw [call] at failed
      cases failed
    · rw [call]
      exact unchanged disk

end Failures

def oneUsed : Bool × Io := fatWrite (device noFaults) twoClusters [0x41] (fun _ => 0x41) 1 blankIo

theorem oneUsed_wellFormed : WellFormed twoClusters oneUsed.2.disk := by
  have blank : WellFormed twoClusters blankIo.disk := blank_wellFormed twoClusters
  have written : oneUsed.1 = true := by decide +kernel
  have usable : Usable (normName [0x41]) := usable_normName (by decide) (by decide)
  unfold oneUsed at written ⊢
  exact fatWrite_wellFormed twoClusters_geometry noFaults_reliable blank usable (by decide) written

theorem fatWrite_unharmed_iff_two :
    ((fatWrite (device noFaults) twoClusters [0x41] (fun _ => 0x42) 1025 oneUsed.2).1 = false →
        Unharmed (device noFaults) twoClusters oneUsed.2
          (fatWrite (device noFaults) twoClusters [0x41] (fun _ => 0x42) 1025 oneUsed.2).2) ↔
      ∀ st, (fatStat (device noFaults) twoClusters [0x41] oneUsed.2).1 = some st → st.size = 0 ∨
        clustersFor twoClusters 1025 ≤
          (freeSet twoClusters (view twoClusters oneUsed.2.disk)).card + clustersOf twoClusters st.size :=
  fatWrite_unharmed_iff twoClusters_geometry noFaults_reliable oneUsed_wellFormed [0x41] (fun _ => 0x42) (by decide)

/-- The file that was to be replaced is lost when the new one needs three clusters. -/
theorem fatWrite_loses : WellFormed twoClusters oneUsed.2.disk ∧
    (fatWrite (device noFaults) twoClusters [0x41] (fun _ => 0x42) 1025 oneUsed.2).1 = false ∧
    ¬ Unharmed (device noFaults) twoClusters oneUsed.2
      (fatWrite (device noFaults) twoClusters [0x41] (fun _ => 0x42) 1025 oneUsed.2).2 := by
  have before : (fatRead (device noFaults) twoClusters [0x41] 1 oneUsed.2).1 =
      some (1, [0x41]) := by decide +kernel
  have after : (fatRead (device noFaults) twoClusters [0x41] 1
      (fatWrite (device noFaults) twoClusters [0x41] (fun _ => 0x42) 1025 oneUsed.2).2).1 = some (1, [0x00]) := by
    decide +kernel
  refine ⟨oneUsed_wellFormed, by decide +kernel, fun unharmed => ?_⟩
  have same := (unharmed.1 [0x41]).2 1
  rw [before, after] at same
  revert same
  decide

end NovaKernel
