import NovaKernel.FatSlots
import NovaKernel.FatContents

set_option autoImplicit false

namespace NovaKernel

open Linked

inductive FileChain (vol : Volume) (v : View) : Nat → List Nat → Prop
  | empty : FileChain vol v 0 []
  | chain {a c : Nat} {l : List Nat} : FatChain vol v a (c :: l) → FileChain vol v a (c :: l)

/-- The entries lie before slot `last`, and each live one owns the clusters of its chain. -/
structure Layout (vol : Volume) (v : View) (last : Nat) (chain : Nat → List Nat) : Prop where
  bounded : last ≤ 16 * vol.rootSectors
  before : ∀ k < last, v.dir k 0 ≠ 0x00
  after : ∀ k, last ≤ k → ∀ j, v.dir k j = 0x00
  distinct : ∀ k l, v.live k = true → v.live l = true → v.name k = v.name l → k = l
  chains : ∀ k, v.live k = true → FileChain vol v (v.start k) (chain k)
  sizes : ∀ k, v.live k = true →
    (chain k).length = (v.size k + (512 * vol.spc - 1)) / (512 * vol.spc)
  disjoint : ∀ k l, v.live k = true → v.live l = true → k ≠ l → (chain k).Disjoint (chain l)
  covered : ∀ c, Cluster vol c → v.link c ≠ 0 → ∃ k, v.live k = true ∧ c ∈ chain k

/-- The FAT copies agree, and the directory and the chains are in order. -/
def WellFormed (vol : Volume) (disk : Nat → Byte) : Prop :=
  CopiesAgree vol disk ∧ ∃ last chain, Layout vol (view vol disk) last chain

def View.file (vol : Volume) (v : View) (k : Nat) (l : List Nat) : List Byte :=
  (v.contents vol l).take (v.size k)

namespace FileChain

variable {vol : Volume} {v v' : View} {a : Nat} {l : List Nat}

theorem inside (chain : FileChain vol v a l) {c : Nat} (member : c ∈ l) : Cluster vol c := by
  cases chain with
  | empty => simp at member
  | chain chain => exact chain.inside member

theorem link_ne (chain : FileChain vol v a l) {c : Nat} (member : c ∈ l) : v.link c ≠ 0 := by
  cases chain with
  | empty => simp at member
  | chain chain => exact chain.link_ne member

theorem congr (chain : FileChain vol v a l) (same : ∀ c ∈ l, v'.link c = v.link c) :
    FileChain vol v' a l := by
  cases chain with
  | empty => exact .empty
  | chain chain => exact .chain (Chain.congr chain same)

theorem small (chain : FileChain vol v a l) (geo : Geometry vol) : a < 2 ^ 16 := by
  cases chain with
  | empty => decide
  | chain chain =>
    have := geo.cluster_lt (chain.start (by simp))
    omega

theorem nodup (chain : FileChain vol v a l) (geo : Geometry vol) : l.Nodup := by
  cases chain with
  | empty => exact List.nodup_nil
  | chain chain => exact FatChain.nodup geo chain

theorem length_le (chain : FileChain vol v a l) (geo : Geometry vol) :
    l.length ≤ dataClustersMax vol := by
  cases chain with
  | empty => exact Nat.zero_le _
  | chain chain => exact FatChain.length_le geo chain

theorem of_pending {first prev : Nat} (pending : Pending vol v first prev l) :
    FileChain vol v first l := by
  cases pending with
  | none => exact .empty
  | @some first prev l chain =>
    cases l with
    | nil => exact .chain chain
    | cons c l => exact .chain chain

end FileChain

section Search

variable {vol : Volume} {v : View} {last : Nat} {chain : Nat → List Nat}
    (layout : Layout vol v last chain)
  {norm : List Byte}

theorem View.live_of_dead {k : Nat} (dead : v.dir k 0 = 0x00 ∨ v.dir k 0 = 0xE5) :
    v.live k ≠ true := by
  rw [Ne, View.live_iff]
  exact fun alive => dead.elim alive.1 alive.2.1

include layout

theorem Layout.live_lt {k : Nat} (live : v.live k = true) : k < last := by
  by_contra beyond
  exact (View.live_iff.mp live).1 (layout.after k (Nat.le_of_not_lt beyond) 0)

theorem Layout.file_length (positive : 0 < vol.spc) {k : Nat} (live : v.live k = true) :
    (v.file vol k (chain k)).length = v.size k := by
  have clusters := layout.sizes k live
  have fits : v.size k ≤ 512 * vol.spc * (chain k).length := by
    rw [clusters]
    generalize v.size k = size
    have part := Nat.div_add_mod (size + (512 * vol.spc - 1)) (512 * vol.spc)
    have rest := Nat.mod_lt (size + (512 * vol.spc - 1)) (show 0 < 512 * vol.spc by omega)
    omega
  rw [View.file, List.length_take, View.contents_length, Nat.min_eq_left fits]

theorem Layout.ended {k i : Nat} (ended : v.dir k 0 = 0x00) (later : k ≤ i) : v.live i ≠ true := by
  intro live
  have below := layout.live_lt live
  exact layout.before k (by omega) ended

theorem Layout.find_from (n k : Nat) :
    (∃ i, v.find norm n k = some i ∧ v.live i = true ∧ v.name i = norm) ∨
      (v.find norm n k = none ∧ ∀ i, k ≤ i → i < k + n → ¬(v.live i = true ∧ v.name i = norm)) := by
  induction n generalizing k with
  | zero => exact .inr ⟨rfl, fun i low high => absurd low (by omega)⟩
  | succ n ih =>
    rw [View.find]
    by_cases ended : v.dir k 0 = 0x00
    next => exact .inr ⟨if_pos ended, fun i low _ here => layout.ended ended low here.1⟩
    next =>
      rw [if_neg ended]
      by_cases here : (v.live k && v.name k == norm) = true
      next =>
        rw [if_pos here]
        exact .inl ⟨k, rfl, by simpa using here⟩
      next =>
        rw [if_neg here]
        rcases ih (k + 1) with found | ⟨none', rest⟩
        · exact .inl found
        · refine .inr ⟨none', fun i low high both => ?_⟩
          by_cases same : i = k
          · exact here (by simpa [same] using both)
          · exact rest i (by omega) (by omega) both

variable (norm) in
theorem Layout.find_cases :
    (∃ k, v.find norm (16 * vol.rootSectors) 0 = some k ∧ v.live k = true ∧ v.name k = norm) ∨
      (v.find norm (16 * vol.rootSectors) 0 = none ∧ ∀ k, v.live k = true → v.name k ≠ norm) := by
  rcases layout.find_from (16 * vol.rootSectors) 0 with found | ⟨none', rest⟩
  · exact .inl found
  · refine .inr ⟨none', fun k live named => ?_⟩
    have below := layout.live_lt live
    have bounded := layout.bounded
    exact rest k (Nat.zero_le k) (by omega) ⟨live, named⟩

theorem Layout.find_eq {k : Nat} (live : v.live k = true) (named : v.name k = norm) :
    v.find norm (16 * vol.rootSectors) 0 = some k := by
  rcases layout.find_cases norm with ⟨i, found, live', named'⟩ | ⟨-, none'⟩
  · rw [found, layout.distinct i k live' live (named'.trans named.symm)]
  · exact absurd named (none' k live)

omit layout in
variable (vol v chain) in
def View.lookup (norm : List Byte) : Option (List Byte) :=
  (v.find norm (16 * vol.rootSectors) 0).map fun k => v.file vol k (chain k)

theorem Layout.lookup_found {k : Nat} (live : v.live k = true) (named : v.name k = norm) :
    v.lookup vol chain norm = some (v.file vol k (chain k)) := by
  rw [View.lookup, layout.find_eq live named, Option.map_some]

theorem Layout.lookup_absent (absent : ∀ k, v.live k = true → v.name k ≠ norm) :
    v.lookup vol chain norm = none := by
  rcases layout.find_cases norm with ⟨k, -, live, named⟩ | ⟨none', -⟩
  · exact absurd named (absent k live)
  · rw [View.lookup, none', Option.map_none]

def Chosen (vol : Volume) (v : View) (last : Nat) (norm : List Byte) (k : Nat)
    (existed : Bool) : Prop :=
  k < 16 * vol.rootSectors ∧ k ≤ last ∧
    if existed then v.live k = true ∧ v.name k = norm
    else (v.dir k 0 = 0x00 ∨ v.dir k 0 = 0xE5) ∧ ∀ i, v.live i = true → v.name i ≠ norm

theorem Layout.findSlot_from (n k : Nat) (total : k + n = 16 * vol.rootSectors) (within : k ≤ last)
    (free : Option Nat) (passed : ∀ i < k, ¬(v.live i = true ∧ v.name i = norm))
    (unused : ∀ f, free = some f → f < k ∧ v.dir f 0 = 0xE5) :
    (∃ p, v.findSlot norm n k free = some p ∧ Chosen vol v last norm p.1 p.2) ∨
      (v.findSlot norm n k free = none ∧ ∀ i, v.live i = true → v.name i ≠ norm) := by
  have bounded := layout.bounded
  induction n generalizing k free with
  | zero =>
    have absent : ∀ i, v.live i = true → v.name i ≠ norm := fun i live named =>
      passed i (by have := layout.live_lt live; omega) ⟨live, named⟩
    cases free with
    | none => exact .inr ⟨rfl, absent⟩
    | some f =>
      obtain ⟨below, deleted⟩ := unused f rfl
      exact .inl ⟨(f, false), rfl, by omega, by omega, .inr deleted, absent⟩
  | succ n ih =>
    have one : ∀ f, free.or (some k) = some f → f < k + 1 ∧ (v.dir f 0 = 0xE5 ∨ f = k) := by
      intro f same
      cases free with
      | none => exact ⟨by have := Option.some.inj same; omega, .inr (Option.some.inj same).symm⟩
      | some g =>
        obtain ⟨below, deleted⟩ := unused g rfl
        have same := Option.some.inj same
        exact ⟨by omega, .inl (same ▸ deleted)⟩
    rw [View.findSlot]
    by_cases ended : v.dir k 0 = 0x00
    next =>
      have absent : ∀ i, v.live i = true → v.name i ≠ norm := fun i live named => by
        by_cases later : k ≤ i
        · exact layout.ended ended later live
        · exact passed i (by omega) ⟨live, named⟩
      rw [if_pos ended]
      obtain ⟨f, here⟩ : ∃ f, free.or (some k) = some f := by cases free <;> exact ⟨_, rfl⟩
      obtain ⟨below, dead⟩ := one f here
      rw [here]
      refine .inl ⟨(f, false), rfl, by simp only; omega, by simp only; omega, ?_, absent⟩
      rcases dead with deleted | rfl
      · exact .inr deleted
      · exact .inl ended
    next =>
      have more : k < last := by
        by_contra beyond
        exact ended (layout.after k (by omega) 0)
      rw [if_neg ended]
      by_cases deleted : v.dir k 0 = 0xE5
      next =>
        rw [if_pos deleted]
        refine ih (k + 1) (by omega) (by omega) _ (fun i low both => ?_) fun f same => ?_
        · by_cases here : i = k
          · exact View.live_of_dead (.inr deleted) (here ▸ both.1)
          · exact passed i (by omega) both
        · obtain ⟨below, deleted' | rfl⟩ := one f same
          · exact ⟨below, deleted'⟩
          · exact ⟨below, deleted⟩
      next =>
        rw [if_neg deleted]
        by_cases here : (v.live k && v.name k == norm) = true
        next =>
          rw [if_pos here]
          exact .inl ⟨(k, true), rfl, by simp only; omega, by simp only; omega, by simpa using here⟩
        next =>
          rw [if_neg here]
          refine ih (k + 1) (by omega) (by omega) free (fun i low both => ?_) fun f same => ?_
          · by_cases same : i = k
            · exact here (by simpa [same] using both)
            · exact passed i (by omega) both
          · obtain ⟨below, deleted'⟩ := unused f same
            exact ⟨by omega, deleted'⟩

variable (norm) in
theorem Layout.findSlot_cases :
    (∃ p, v.findSlot norm (16 * vol.rootSectors) 0 none = some p ∧ Chosen vol v last norm p.1 p.2) ∨
      (v.findSlot norm (16 * vol.rootSectors) 0 none = none ∧ ∀ k, v.live k = true → v.name k ≠ norm) :=
  layout.findSlot_from _ 0 (Nat.zero_add _) (Nat.zero_le _) none (fun _ low => absurd low (by omega)) (by simp)

end Search

end NovaKernel
