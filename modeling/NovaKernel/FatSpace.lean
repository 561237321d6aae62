import NovaKernel.FatDelete
import Mathlib.Algebra.BigOperators.Finprod

set_option autoImplicit false

namespace NovaKernel

open Linked

def clustersOf (vol : Volume) (len : Nat) : Nat := (len + (512 * vol.spc - 1)) / (512 * vol.spc)

noncomputable def usedClusters (vol : Volume) (files : List Byte → Option (List Byte)) : Nat :=
  ∑ᶠ name, ((files name).map fun bytes => clustersOf vol bytes.length).getD 0

section Count

variable {faults : Faults} {vol : Volume} (geo : Geometry vol) (reliable : Reliable faults)

include geo reliable

theorem countFree_ok (n c freec : Nat) (first : 2 ≤ c) (last : c + n = dataClustersMax vol + 2)
    (s : Io) :
    ∃ s', countFree (device faults) vol n c freec s =
        (freec + ((Finset.Ico c (c + n)).filter ((view vol s.disk).link · = 0)).card, s') ∧
          s'.disk = s.disk := by
  induction n generalizing c freec s with
  | zero => exact ⟨s, by simp [countFree], rfl⟩
  | succ n ih =>
    have inside : Cluster vol c := ⟨first, by omega⟩
    obtain ⟨s₁, got, disk₁⟩ := fatGet_ok geo reliable inside s
    obtain ⟨s', counted, disk'⟩ :=
      ih (c + 1) (if (view vol s.disk).link c = 0 then freec + 1 else freec)
      (by omega) (by omega) s₁
    refine ⟨s', ?_, disk'.trans disk₁⟩
    rw [disk₁] at counted
    simp only [countFree, got, counted, Prod.mk.injEq, and_true]
    have split : Finset.Ico c (c + (n + 1)) = insert c (Finset.Ico (c + 1) (c + 1 + n)) := by
      ext e
      simp only [Finset.mem_Ico, Finset.mem_insert]
      omega
    rw [split, Finset.filter_insert]
    by_cases free : (view vol s.disk).link c = 0
    · rw [if_pos free, if_pos free, Finset.card_insert_of_notMem (by simp)]
      omega
    · rw [if_neg free, if_neg free]

theorem fatFreeBytes_ok (s : Io) :
    ∃ s', fatFreeBytes (device faults) vol s =
      (512 * vol.spc * (freeSet vol (view vol s.disk)).card, s') ∧
      s'.disk = s.disk := by
  have mounted : ¬ (!vol.mounted) = true := by simp [geo.mounted]
  obtain ⟨s', counted, disk⟩ := countFree_ok geo reliable (dataClustersMax vol) 2 0 (Nat.le_refl 2)
    (Nat.add_comm 2 _) s
  refine ⟨s', ?_, disk⟩
  have few : (freeSet vol (view vol s.disk)).card ≤ dataClustersMax vol := by
    have card := Finset.card_filter_le (Finset.Ico 2 (dataClustersMax vol + 2))
      ((view vol s.disk).link · = 0)
    rw [Nat.card_Ico] at card
    exact Nat.le_trans card (by omega)
  have sectors : (freeSet vol (view vol s.disk)).card * vol.spc ≤ 2880 := by
    have count := geo.clusters
    have room := Nat.div_mul_le_self (diskSectors - vol.dataLba) vol.spc
    have bound := Nat.mul_le_mul_right vol.spc few
    simp only [diskSectors] at room count
    rw [count] at bound
    omega
  have range : Finset.Ico 2 (2 + dataClustersMax vol) = Finset.Ico 2 (dataClustersMax vol + 2) := by
    rw [Nat.add_comm]
  rw [Nat.zero_add, range] at counted
  have value : (freeSet vol (view vol s.disk)).card * vol.spc * 512 % 2 ^ 32 =
      512 * vol.spc * (freeSet vol (view vol s.disk)).card := by
    rw [Nat.mod_eq_of_lt (by omega), Nat.mul_comm, Nat.mul_comm _ vol.spc, Nat.mul_assoc]
  rw [fatFreeBytes, if_neg mounted, geo.clustersEnd, counted]
  exact congrArg (·, s') value

end Count

section Space

variable {vol : Volume} {v : View} {last : Nat} {chain : Nat → List Nat}
    (layout : Layout vol v last chain)
  (geo : Geometry vol)

def liveSlots (v : View) (last : Nat) : Finset Nat := (Finset.range last).filter (v.live · = true)

include layout

theorem Layout.mem_liveSlots {k : Nat} : k ∈ liveSlots v last ↔ v.live k = true := by
  rw [liveSlots, Finset.mem_filter, Finset.mem_range]
  exact ⟨And.right, fun live => ⟨layout.live_lt live, live⟩⟩

theorem Layout.used_eq : (Finset.Ico 2 (dataClustersMax vol + 2)).filter (¬ v.link · = 0) =
    (liveSlots v last).biUnion fun k => (chain k).toFinset := by
  ext c
  rw [Finset.mem_filter, Finset.mem_Ico, Finset.mem_biUnion]
  constructor
  · rintro ⟨inside, used⟩
    obtain ⟨k, live, member⟩ := layout.covered c inside used
    exact ⟨k, layout.mem_liveSlots.mpr live, List.mem_toFinset.mpr member⟩
  · rintro ⟨k, live, member⟩
    have owned := layout.chains k (layout.mem_liveSlots.mp live)
    have member := List.mem_toFinset.mp member
    exact ⟨owned.inside member, owned.link_ne member⟩

include geo

theorem Layout.used_card : ((Finset.Ico 2 (dataClustersMax vol + 2)).filter (¬ v.link · = 0)).card =
    ∑ k ∈ liveSlots v last, clustersOf vol (v.size k) := by
  rw [layout.used_eq, Finset.card_biUnion]
  · refine Finset.sum_congr rfl fun k live => ?_
    have live := layout.mem_liveSlots.mp live
    rw [List.toFinset_card_of_nodup ((layout.chains k live).nodup geo), layout.sizes k live,
      clustersOf]
  · intro k live l live' other
    exact List.disjoint_toFinset_iff_disjoint.mpr
      (layout.disjoint k l (layout.mem_liveSlots.mp live) (layout.mem_liveSlots.mp live') other)

theorem Layout.usedClusters_eq :
    usedClusters vol (v.lookup vol chain) = ∑ k ∈ liveSlots v last, clustersOf vol (v.size k) := by
  have inside : Function.support (fun name =>
      ((v.lookup vol chain name).map fun bytes => clustersOf vol bytes.length).getD 0) ⊆
        ((liveSlots v last).image v.name : Finset (List Byte)) := by
    intro name used
    rcases layout.find_cases name with ⟨k, -, live, named⟩ | ⟨-, absent⟩
    · exact Finset.mem_coe.mpr (Finset.mem_image.mpr ⟨k, layout.mem_liveSlots.mpr live, named⟩)
    · rw [Function.mem_support, layout.lookup_absent absent] at used
      exact absurd rfl used
  rw [usedClusters, finsum_eq_sum_of_support_subset _ inside, Finset.sum_image]
  · refine Finset.sum_congr rfl fun k live => ?_
    have live := layout.mem_liveSlots.mp live
    rw [layout.lookup_found live rfl, Option.map_some, Option.getD_some,
      layout.file_length geo.spc.1 live]
  · exact fun k live l live' same => layout.distinct k l (layout.mem_liveSlots.mp live)
      (layout.mem_liveSlots.mp live') same

theorem Layout.freeSet_card :
    (freeSet vol v).card = dataClustersMax vol - usedClusters vol (v.lookup vol chain) := by
  have total := Finset.card_filter_add_card_filter_not (s := Finset.Ico 2 (dataClustersMax vol + 2))
    (v.link · = 0)
  rw [layout.used_card geo, ← layout.usedClusters_eq geo, Nat.card_Ico] at total
  simp only [freeSet]
  omega

end Space

end NovaKernel
