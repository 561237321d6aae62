import NovaKernel.FatAlloc
import Mathlib.Data.Finset.Card
import Mathlib.Order.Interval.Finset.Nat

set_option autoImplicit false

namespace NovaKernel

open Linked

def freeSet (vol : Volume) (v : View) : Finset Nat :=
  (Finset.Ico 2 (dataClustersMax vol + 2)).filter (v.link · = 0)

theorem mem_freeSet {vol : Volume} {v : View} {c : Nat} :
    c ∈ freeSet vol v ↔ Cluster vol c ∧ v.link c = 0 := by
  simp only [freeSet, Finset.mem_filter, Finset.mem_Ico, Cluster]

section Chains

variable {faults : Faults} {vol : Volume} (geo : Geometry vol) {v : View}

theorem FatChain.inside {a : Nat} {l : List Nat} (chain : FatChain vol v a l) {c : Nat}
    (member : c ∈ l) :
    Cluster vol c := chain.nodes c member

theorem FatChain.link_ne {a : Nat} {l : List Nat} (chain : FatChain vol v a l) {c : Nat}
    (member : c ∈ l) : v.link c ≠ 0 := by
  induction chain with
  | nil _ => simp at member
  | cons _ later ih =>
    rcases List.mem_cons.mp member with rfl | member'
    · intro free
      rw [free] at later
      cases later with
      | nil halted => omega
      | cons inside _ => exact absurd inside.1 (by decide)
    · exact ih member'

theorem FatChain.start {a : Nat} {l : List Nat} (chain : FatChain vol v a l) (some' : l ≠ []) :
    Cluster vol a := by
  cases chain with
  | nil _ => exact absurd rfl some'
  | cons inside _ => exact inside

include geo

theorem FatChain.length_le {a : Nat} {l : List Nat} (chain : FatChain vol v a l) :
    l.length ≤ dataClustersMax vol := by
  have nodup := FatChain.nodup geo chain
  have subset : l.toFinset ⊆ Finset.Ico 2 (dataClustersMax vol + 2) := fun c member => by
    have inside := chain.inside (List.mem_toFinset.mp member)
    exact Finset.mem_Ico.mpr inside
  have card := Finset.card_le_card subset
  rw [List.toFinset_card_of_nodup nodup, Nat.card_Ico] at card
  omega

theorem fatFreeChain_ok (reliable : Reliable faults) {a : Nat} {l : List Nat} {s : Io}
    (chain : FatChain vol (view vol s.disk) a l) :
    Becomes vol s (fatFreeChain (device faults) vol a s) ((view vol s.disk).release l) := by
  have short := FatChain.length_le geo chain
  have bound := geo.clusters_le
  simp only [diskSectors] at bound
  exact freeChainFrom_ok geo reliable 65536 (by omega) chain

inductive Pending (vol : Volume) (v : View) : Nat → Nat → List Nat → Prop
  | none : Pending vol v 0 0 []
  | some {first prev : Nat} {l : List Nat} :
      FatChain vol v first (l ++ [prev]) → Pending vol v first prev (l ++ [prev])

omit geo in
theorem Pending.link_ne {first prev c : Nat} {l : List Nat} (pending : Pending vol v first prev l)
    (member : c ∈ l) : v.link c ≠ 0 := by
  cases pending with
  | none => simp at member
  | some chain => exact chain.link_ne member

def View.appended (v : View) (prev c : Nat) : View :=
  let allocated := (v.setLink c 0xFFF).setData c fun _ => 0
  if prev ≠ 0 then allocated.setLink prev c else allocated

omit geo in
theorem View.appended_link (v : View) (prev c e : Nat) :
    (v.appended prev c).link e =
      if e = prev ∧ prev ≠ 0 then c else if e = c then 0xFFF else v.link e := by
  by_cases some' : prev ≠ 0
  · simp only [View.appended, if_pos some', View.setLink_link, View.setData_link]
    by_cases same : e = prev
    · rw [if_pos ⟨same, some'⟩, same, Function.update_self]
    · rw [if_neg (fun h => same h.1), Function.update_of_ne same]
      by_cases last : e = c <;> simp [last]
  · simp only [View.appended, if_neg some', View.setLink_link, View.setData_link]
    rw [if_neg (fun h => some' h.2)]
    by_cases last : e = c <;> simp [last]

omit geo in
theorem View.appended_dir (v : View) (prev c : Nat) : (v.appended prev c).dir = v.dir := by
  by_cases some' : prev ≠ 0 <;> simp [View.appended, some']

omit geo in
theorem View.appended_data (v : View) (prev c : Nat) :
    (v.appended prev c).data = Function.update v.data c fun _ => 0 := by
  by_cases some' : prev ≠ 0 <;> simp [View.appended, some']

theorem Pending.append {first prev c : Nat} {l : List Nat} (pending : Pending vol v first prev l)
    (inside : Cluster vol c) (free : v.link c = 0) :
    Pending vol (v.appended prev c) (if first = 0 then c else first) c (l ++ [c]) := by
  have fresh : c ∉ l := fun member => pending.link_ne member free
  have last : (v.appended prev c).link c = 0xFFF := by
    rw [View.appended_link, if_pos rfl]
    refine if_neg fun h => ?_
    cases pending with
    | none => exact h.2 rfl
    | some _ => exact fresh (by simp [h.1])
  have single : FatChain vol (v.appended prev c) c [c] := .cons inside (.nil (by rw [last]; decide))
  refine .some ?_
  cases pending with
  | none => exact single
  | @some first prev l chain =>
    have started := chain.start (by simp)
    have positive : first ≠ 0 := by
      have := started.1
      omega
    rw [if_neg positive, List.append_assoc]
    have nodup := FatChain.nodup geo chain
    have ended := chain.inside (c := prev) (by simp)
    have some' : prev ≠ 0 := by
      have := ended.1
      omega
    refine Chain.extend chain (fun x member => ?_) ?_
    · have other : x ≠ prev := by
        rintro rfl
        exact List.disjoint_of_nodup_append nodup member (by simp)
      have other' : x ≠ c := by
        rintro rfl
        exact fresh (by simp [member])
      rw [View.appended_link, if_neg (fun h => other h.1), if_neg other']
    · rw [View.appended_link, if_pos ⟨rfl, some'⟩]
      exact single

omit geo in
theorem freeSet_appended {first prev c : Nat} {l : List Nat} (pending : Pending vol v first prev l)
    (inside : Cluster vol c) :
    freeSet vol (v.appended prev c) = (freeSet vol v).erase c := by
  have positive : c ≠ 0 := by
    have := inside.1
    omega
  ext e
  rw [mem_freeSet, Finset.mem_erase, mem_freeSet, View.appended_link]
  by_cases linked : e = prev ∧ prev ≠ 0
  · have taken : v.link e ≠ 0 := by
      cases pending with
      | none => exact absurd rfl linked.2
      | some chain => exact chain.link_ne (by simp [linked.1])
    simp [linked, positive, linked.1 ▸ taken]
  · rw [if_neg linked]
    by_cases last : e = c <;> simp [last]

structure Extended (vol : Volume) (v v' : View) (acc cs : List Nat) : Prop where
  dir : v'.dir = v.dir
  free : ∀ c ∈ cs, c ∈ freeSet vol v
  link : ∀ c, c ∉ acc → c ∉ cs → v'.link c = v.link c
  zeroed : ∀ c ∈ cs, v'.data c = fun _ => 0
  data : ∀ c, c ∉ cs → v'.data c = v.data c

structure Discarded (vol : Volume) (v v' : View) (acc : List Nat) : Prop where
  dir : v'.dir = v.dir
  link : v'.link = (v.release acc).link
  data : ∀ c, c ∉ freeSet vol v → v'.data c = v.data c

theorem allocChain_ok (reliable : Reliable faults) (n : Nat) {first prev : Nat} {acc : List Nat}
    {s : Io} (pending : Pending vol (view vol s.disk) first prev acc) :
    (∃ first' prev' cs s', allocChain (device faults) vol n first prev s = (some first', s') ∧
      cs.length = n ∧ Pending vol (view vol s'.disk) first' prev' (acc ++ cs) ∧
      Extended vol (view vol s.disk) (view vol s'.disk) acc cs ∧
      (CopiesAgree vol s.disk → CopiesAgree vol s'.disk)) ∨
    ∃ s', allocChain (device faults) vol n first prev s = (none, s') ∧
      (freeSet vol (view vol s.disk)).card < n ∧
      Discarded vol (view vol s.disk) (view vol s'.disk) acc ∧
      (CopiesAgree vol s.disk → CopiesAgree vol s'.disk) := by
  induction n generalizing first prev acc s with
  | zero =>
    refine .inl ⟨first, prev, [], s, rfl, rfl, by rwa [List.append_nil], ?_, id⟩
    exact ⟨rfl, by simp, fun _ _ _ => rfl, by simp, fun _ _ => rfl⟩
  | succ n ih =>
    obtain ⟨c, s₁, alloc, ⟨found, inside, free, becomes⟩ | ⟨none', -, full⟩⟩ :=
      fatAllocCluster_cases faults geo s
    · -- `prev` is linked to the new cluster.
      obtain ⟨s₂, linked, becomes₂⟩ : ∃ s₂,
          (if prev ≠ 0 then (fatSet (device faults) vol prev (c % 2 ^ 16) s₁).2 else s₁) = s₂ ∧
            Becomes vol s s₂ ((view vol s.disk).appended prev c) := by
        have small := geo.cluster_lt inside
        have value : c % 2 ^ 16 = c := Nat.mod_eq_of_lt (by omega)
        cases pending with
        | none => exact ⟨s₁, if_neg (by simp), becomes⟩
        | @some first prev l chain =>
          have ended := chain.inside (c := prev) (by simp)
          have some' : prev ≠ 0 := by
            have := ended.1
            omega
          obtain ⟨s₂, stored, becomes₂⟩ := fatSet_ok geo reliable ended (x := c) (by omega) s₁
          rw [becomes.shows] at becomes₂
          refine ⟨s₂, by rw [if_pos some', value, stored], ?_⟩
          rw [View.appended, if_pos some']
          exact becomes.trans becomes₂
      have call : allocChain (device faults) vol (n + 1) first prev s =
          allocChain (device faults) vol n (if first = 0 then c else first) c s₂ := by
        simp only [allocChain, alloc, if_neg found, linked]
      have pending₂ := pending.append geo inside free
      have fresh : c ∉ acc := fun member => pending.link_ne member free
      have kept : ∀ e, e ∉ acc → e ≠ c →
          ((view vol s.disk).appended prev c).link e = (view vol s.disk).link e := by
        intro e out other
        rw [View.appended_link, if_neg, if_neg other]
        rintro ⟨rfl, some'⟩
        cases pending with
        | none => exact some' rfl
        | some _ => exact out (by simp)
      have remaining := freeSet_appended pending inside
      have member : c ∈ freeSet vol (view vol s.disk) := mem_freeSet.mpr ⟨inside, free⟩
      rw [← becomes₂.shows] at pending₂
      rw [call]
      rcases ih pending₂ with
        ⟨first', prev', cs, s', run, length, pending', extended, agree⟩ | ⟨s', run, few, discarded, agree⟩
      · refine .inl ⟨first', prev', c :: cs, s', run, by rw [List.length_cons, length],
          by simpa using pending', ?_, agree ∘ becomes₂.agree⟩
        rw [becomes₂.shows] at extended
        have later : ∀ e ∈ cs, e ≠ c ∧ e ∈ freeSet vol (view vol s.disk) := by
          intro e he
          have unused := extended.free e he
          rw [remaining] at unused
          exact Finset.mem_erase.mp unused
        constructor
        · rw [extended.dir, View.appended_dir]
        · intro e he
          rcases List.mem_cons.mp he with rfl | he
          · exact member
          · exact (later e he).2
        · intro e out out'
          have outside : e ≠ c ∧ e ∉ cs := by simpa using out'
          rw [extended.link e (by simp [out, outside.1]) outside.2, kept e out outside.1]
        · intro e he
          by_cases again : e ∈ cs
          · exact extended.zeroed e again
          · have same : e = c := by simpa [again] using he
            rw [extended.data e again, View.appended_data, same, Function.update_self]
        · intro e out
          have outside : e ≠ c ∧ e ∉ cs := by simpa using out
          rw [extended.data e outside.2, View.appended_data, Function.update_of_ne outside.1]
      · refine .inr ⟨s', run, ?_, ?_, agree ∘ becomes₂.agree⟩
        · rw [becomes₂.shows, remaining, Finset.card_erase_of_mem member] at few
          omega
        · rw [becomes₂.shows] at discarded
          constructor
          · rw [discarded.dir, View.appended_dir]
          · rw [discarded.link]
            funext e
            simp only [View.release, List.mem_append, List.mem_singleton]
            by_cases acc' : e ∈ acc
            · simp [acc']
            · by_cases same : e = c
              · simp [same, free]
              · rw [if_neg (by simp [acc', same]), if_neg acc', kept e acc' same]
          · intro e out
            have other : e ≠ c := by
              rintro rfl
              exact out member
            rw [discarded.data e (by rw [remaining]; simp [out]), View.appended_data,
              Function.update_of_ne other]
    · obtain ⟨disk, used⟩ := full reliable
      have empty : (freeSet vol (view vol s.disk)).card = 0 := by
        rw [Finset.card_eq_zero, Finset.eq_empty_iff_forall_notMem]
        intro e member
        obtain ⟨inside, free⟩ := mem_freeSet.mp member
        exact used e inside free
      refine .inr ?_
      cases pending with
      | none =>
        refine ⟨s₁, ?_, by omega, ⟨by rw [disk], ?_, fun _ _ => by rw [disk]⟩,
          by rw [disk]; exact id⟩
        · simp only [allocChain, alloc, none', if_true, ne_eq, not_true_eq_false, if_false]
        · rw [disk]
          simp [View.release]
      | @some first prev l chain =>
        have started := chain.start (by simp)
        have positive : first ≠ 0 := by
          have := started.1
          omega
        rw [← disk] at chain
        have becomes := fatFreeChain_ok geo reliable chain
        rw [disk] at becomes
        refine ⟨fatFreeChain (device faults) vol first s₁, ?_, by omega, ?_, ?_⟩
        · simp only [allocChain, alloc, none', if_true, ne_eq, positive, not_false_eq_true]
        · rw [becomes.shows]
          exact ⟨rfl, rfl, fun _ _ => rfl⟩
        · have agree := becomes.agree
          rwa [disk] at agree

end Chains

end NovaKernel
