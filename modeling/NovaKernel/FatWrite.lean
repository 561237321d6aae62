import NovaKernel.FatStore

set_option autoImplicit false

namespace NovaKernel

open Linked

theorem View.release_nil (v : View) : v.release [] = v := by
  simp [View.release]

structure OutOfSpace (vol : Volume) (v v' : View) (old : List Nat) (len : Nat) : Prop where
  few : (freeSet vol (v.release old)).card < (len + (512 * vol.spc - 1)) / (512 * vol.spc)
  discarded : Discarded vol (v.release old) v' []

section Writes

variable {faults : Faults} {vol : Volume} (geo : Geometry vol) (reliable : Reliable faults)
  {last : Nat} {chain : Nat → List Nat}

theorem clustersFor_eq (positive : 0 < vol.spc ∧ vol.spc < 256) {len : Nat}
    (small : len + (512 * vol.spc - 1) < 2 ^ 32) :
    clustersFor vol len = (len + (512 * vol.spc - 1)) / (512 * vol.spc) := by
  have total : (len + vol.spc * 512 + (2 ^ 32 - 1)) % 2 ^ 32 = len + (512 * vol.spc - 1) := by omega
  rw [clustersFor, total, Nat.mul_comm vol.spc]

include geo in
theorem Geometry.room {len : Nat} (small : len < 2 ^ 31) : len + (512 * vol.spc - 1) < 2 ^ 32 := by
  have spc := geo.spc.2
  omega

theorem clusters_bounds (positive : 0 < vol.spc) (len : Nat) :
    len ≤ 512 * vol.spc * ((len + (512 * vol.spc - 1)) / (512 * vol.spc)) ∧
      512 * vol.spc * ((len + (512 * vol.spc - 1)) / (512 * vol.spc)) < len + 512 * vol.spc := by
  have part := Nat.div_add_mod (len + (512 * vol.spc - 1)) (512 * vol.spc)
  have rest := Nat.mod_lt (len + (512 * vol.spc - 1)) (show 0 < 512 * vol.spc by omega)
  omega

include geo reliable

theorem freeFile_ok {l : List Nat} {a : Nat} {s : Io}
    (owned : FileChain vol (view vol s.disk) a l) :
    Becomes vol s (fatFreeChain (device faults) vol a s) ((view vol s.disk).release l) := by
  cases owned with
  | empty =>
    have unchanged : fatFreeChain (device faults) vol 0 s = s := by
      rw [fatFreeChain, freeChainFrom, if_neg (by omega)]
    rw [unchanged, View.release_nil]
    exact .refl rfl
  | chain chain => exact fatFreeChain_ok geo reliable chain

theorem writeFile_ok (data : Nat → Byte) {len first prev : Nat} {cs : List Nat} {s : Io}
    (pending : Pending vol (view vol s.disk) first prev cs)
    (length : cs.length = (len + (512 * vol.spc - 1)) / (512 * vol.spc))
    (zero : ∀ e ∈ cs, (view vol s.disk).data e = fun _ => 0) :
    ∃ s', writeChain (device faults) vol data len first len first 0 s = (true, s') ∧
      Becomes vol s s' ((view vol s.disk).stream vol data len cs 0) := by
  obtain ⟨fits, needed⟩ := clusters_bounds geo.spc.1 len
  rw [← length] at fits needed
  by_cases some' : 0 < len
  next =>
    have chain : FatChain vol (view vol s.disk) first cs := by
      cases pending with
      | none =>
        rw [List.length_nil, Nat.mul_zero] at fits
        omega
      | some chain => exact chain
    have enough : cs.length ≤ len := by
      have positive := geo.spc.1
      have clusters : cs.length ≤ (len - 1) / (512 * vol.spc) + 1 := by
        rw [length, ← Nat.add_div_right _ (by omega : 0 < 512 * vol.spc)]
        exact Nat.div_le_div_right (by omega)
      have := Nat.div_le_self (len - 1) (512 * vol.spc)
      omega
    exact writeChain_ok geo reliable cs len enough chain zero some' (by omega) (by omega)
  next =>
    obtain rfl : len = 0 := by omega
    have none' : cs = [] := by
      cases cs with
      | nil => rfl
      | cons c cs =>
        rw [List.length_cons, Nat.mul_succ] at needed
        omega
    exact ⟨s, rfl, by rw [none']; exact .refl rfl⟩

variable {s : Io} (layout : Layout vol (view vol s.disk) last chain)

include layout

theorem dropOld_ok {k : Nat} {existed : Bool} {norm : List Byte} {s₁ : Io}
    (chosen : Chosen vol (view vol s.disk) last norm k existed) (disk : s₁.disk = s.disk) :
    ∃ s', dropOld (device faults) vol (slotOf vol k existed) s₁ = (true, s') ∧
      Becomes vol s s' ((view vol s.disk).release (oldClusters chain k existed)) := by
  obtain ⟨inside, -, slot⟩ := chosen
  cases existed with
  | false =>
    refine ⟨s₁, rfl, ?_⟩
    rw [oldClusters, if_neg (by decide), View.release_nil]
    exact .refl disk
  | true =>
    obtain ⟨s₂, loaded, disk₂, -, start⟩ := loadStart_ok geo reliable inside true s₁
    rw [disk] at disk₂ start
    have owned := layout.chains k slot.1
    rw [← disk₂] at owned
    have becomes := freeFile_ok geo reliable owned
    rw [disk₂] at becomes
    have there : (slotOf vol k true).existed = true := rfl
    refine ⟨fatFreeChain (device faults) vol ((view vol s.disk).start k) s₂, ?_,
      (Becomes.refl disk₂).trans becomes⟩
    simp only [dropOld, there, if_true, loaded, start]

theorem fatWrite_outcomes (name : List Byte) (data : Nat → Byte) {len : Nat}
    (small : len + (512 * vol.spc - 1) < 2 ^ 32) :
    ∃ ok s', fatWrite (device faults) vol name data len s = (ok, s') ∧
      (CopiesAgree vol s.disk → CopiesAgree vol s'.disk) ∧
      ((ok = true ∧ ∃ k existed first cs, Chosen vol (view vol s.disk) last (normName name) k existed ∧
          Stored vol (view vol s.disk) (view vol s'.disk) (oldClusters chain k existed) cs k first (normName name)
            data len) ∨
        (ok = false ∧ (view vol s.disk).findSlot (normName name) (16 * vol.rootSectors) 0 none = none ∧
          (∀ k, (view vol s.disk).live k = true → (view vol s.disk).name k ≠ normName name) ∧
          s'.disk = s.disk) ∨
        (ok = false ∧ ∃ k existed, Chosen vol (view vol s.disk) last (normName name) k existed ∧
          OutOfSpace vol (view vol s.disk) (view vol s'.disk) (oldClusters chain k existed) len)) := by
  have mounted : ¬ (!vol.mounted) = true := by simp [geo.mounted]
  -- The count stays folded: the loop would unfold with it.
  obtain ⟨n, need⟩ : ∃ n, clustersFor vol len = n := ⟨_, rfl⟩
  have count := need.symm.trans (clustersFor_eq geo.spc small)
  obtain ⟨s₁, searched, disk₁⟩ := dirFindSlot_ok (normName_length name) geo reliable s
  rcases layout.findSlot_cases (normName name) with ⟨⟨k, existed⟩, found, chosen⟩ | ⟨none', absent⟩
  · rw [found, Option.map_some] at searched
    obtain ⟨s₂, dropped, becomes₂⟩ := dropOld_ok geo reliable layout chosen disk₁
    have start : Pending vol (view vol s₂.disk) 0 0 [] := .none
    rcases allocChain_ok geo reliable n start with
      ⟨first, prev, cs, s₃, allocated, length, pending, extended, agree⟩ | ⟨s₃, failed, few, discarded, agree⟩
    · rw [count] at length
      rw [List.nil_append] at pending
      obtain ⟨s₄, streamed, becomes₄⟩ :=
        writeFile_ok geo reliable data pending length extended.zeroed
      obtain ⟨s₅, entered, becomes₅⟩ :=
        writeEntry_ok geo reliable chosen.1 existed (normName name) first len s₄
      obtain ⟨link, dir, others⟩ := stream_kept vol data len cs 0 (view vol s₃.disk)
      have owned := FileChain.of_pending pending
      have fits := (clusters_bounds geo.spc.1 len).1
      rw [← length] at fits
      rw [becomes₄.shows] at becomes₅
      refine ⟨true, s₅, ?_, becomes₅.agree ∘ becomes₄.agree ∘ agree ∘ becomes₂.agree,
        .inl ⟨rfl, k, existed, first, cs, chosen, ?_⟩⟩
      · rw [fatWrite, if_neg mounted, searched]
        dsimp only
        rw [need, dropped]
        dsimp only
        rw [allocated]
        dsimp only
        rw [streamed]
        exact entered
      · rw [becomes₅.shows]
        rw [becomes₂.shows] at extended
        constructor
        case dir =>
          rw [View.setSlot_dir, dir, extended.dir]
          rfl
        case free => exact fun c member => mem_freeSet.mp (extended.free c member)
        case link =>
          intro c out
          rw [View.setSlot_link, link]
          exact extended.link c (by simp) out
        case kept =>
          intro c out
          rw [View.setSlot_data, others c out, extended.data c out]
          rfl
        case chain =>
          refine owned.congr fun c _ => ?_
          rw [View.setSlot_link, link]
        case length => exact length
        case bytes => exact stream_file vol data cs (owned.nodup geo) fits (view vol s₃.disk)
    · rw [becomes₂.shows] at few discarded
      refine ⟨false, s₃, ?_, agree ∘ becomes₂.agree,
        .inr (.inr ⟨rfl, k, existed, chosen, ?_, discarded⟩)⟩
      · rw [fatWrite, if_neg mounted, searched]
        dsimp only
        rw [need, dropped]
        dsimp only
        rw [failed]
      · rwa [count] at few
  · rw [none', Option.map_none] at searched
    refine ⟨false, s₁, ?_, by rw [disk₁]; exact id, .inr (.inl ⟨rfl, none', absent, disk₁⟩)⟩
    rw [fatWrite, if_neg mounted, searched]

theorem fatWrite_cases (name : List Byte) (data : Nat → Byte) {len : Nat}
    (small : len + (512 * vol.spc - 1) < 2 ^ 32) :
    ∃ ok s', fatWrite (device faults) vol name data len s = (ok, s') ∧
      (CopiesAgree vol s.disk → CopiesAgree vol s'.disk) ∧
      ((ok = true ∧ ∃ k existed first cs, Chosen vol (view vol s.disk) last (normName name) k existed ∧
          Stored vol (view vol s.disk) (view vol s'.disk) (oldClusters chain k existed) cs k first (normName name)
            data len) ∨
        (ok = false ∧ (∀ k, (view vol s.disk).live k = true → (view vol s.disk).name k ≠ normName name) ∧
          s'.disk = s.disk) ∨
        (ok = false ∧ ∃ k existed, Chosen vol (view vol s.disk) last (normName name) k existed ∧
          OutOfSpace vol (view vol s.disk) (view vol s'.disk) (oldClusters chain k existed) len)) := by
  obtain ⟨ok, s', call, agree, stored | ⟨failed, -, unchanged⟩ | full⟩ :=
    fatWrite_outcomes geo reliable layout name data small
  · exact ⟨ok, s', call, agree, .inl stored⟩
  · exact ⟨ok, s', call, agree, .inr (.inl ⟨failed, unchanged⟩)⟩
  · exact ⟨ok, s', call, agree, .inr (.inr full)⟩

theorem fatWrite_true {name : List Byte} {data : Nat → Byte} {len : Nat} {s' : Io}
    (usable : Usable (normName name))
    (small : len < 2 ^ 31) (written : fatWrite (device faults) vol name data len s = (true, s')) :
    ∃ last' chain' k, Layout vol (view vol s'.disk) last' chain' ∧
      (CopiesAgree vol s.disk → CopiesAgree vol s'.disk) ∧
      (view vol s'.disk).lookup vol chain' =
        Function.update ((view vol s.disk).lookup vol chain) (normName name)
        (some ((List.range len).map data)) ∧
      (view vol s'.disk).live k = true ∧ (view vol s'.disk).name k = normName name ∧
      (view vol s'.disk).size k = len := by
  obtain ⟨ok, s'', call, agree, ⟨rfl, k, existed, first, cs, chosen, stored⟩ | ⟨rfl, -⟩ | ⟨rfl, -⟩⟩ :=
    fatWrite_cases geo reliable layout name data (geo.room small)
  · obtain rfl : s'' = s' := (Prod.mk.inj (call.symm.trans written)).2
    have small' : len < 2 ^ 32 := by omega
    exact ⟨_, _, k, stored.keepsLayout layout chosen usable small' geo, agree,
      stored.lookup layout chosen usable small' geo, stored.live_here usable, stored.name_here usable,
      stored.size_here small'⟩
  · rw [written] at call
    cases call
  · rw [written] at call
    cases call

omit layout in
theorem fatWrite_wellFormed {name : List Byte} {data : Nat → Byte} {len : Nat}
    (wellFormed : WellFormed vol s.disk)
    (usable : Usable (normName name)) (small : len < 2 ^ 31)
    (written : (fatWrite (device faults) vol name data len s).1 = true) :
    WellFormed vol (fatWrite (device faults) vol name data len s).2.disk := by
  obtain ⟨agree, last, chain, layout⟩ := wellFormed
  generalize call : fatWrite (device faults) vol name data len s = r at written ⊢
  obtain ⟨ok, s'⟩ := r
  obtain rfl : ok = true := written
  obtain ⟨last', chain', k, layout', agree', -⟩ :=
    fatWrite_true geo reliable layout usable small call
  exact ⟨agree' agree, last', chain', layout'⟩

omit reliable in
theorem Layout.enough {k len : Nat} (live : (view vol s.disk).live k = true)
    (shorter : len ≤ (view vol s.disk).size k) :
    (len + (512 * vol.spc - 1)) / (512 * vol.spc) ≤
      (freeSet vol ((view vol s.disk).release (chain k))).card := by
  have owned := layout.chains k live
  have subset : (chain k).toFinset ⊆ freeSet vol ((view vol s.disk).release (chain k)) := by
    intro c member
    rw [List.mem_toFinset] at member
    exact mem_freeSet.mpr ⟨owned.inside member, if_pos member⟩
  have card := Finset.card_le_card subset
  rw [List.toFinset_card_of_nodup (owned.nodup geo), layout.sizes k live] at card
  exact Nat.le_trans (Nat.div_le_div_right (by omega)) card

theorem fatWrite_shorter {name : List Byte} {data : Nat → Byte} {k len : Nat}
    (live : (view vol s.disk).live k = true) (named : (view vol s.disk).name k = normName name)
    (shorter : len ≤ (view vol s.disk).size k) (small : len < 2 ^ 31) :
    ∃ s', fatWrite (device faults) vol name data len s = (true, s') := by
  obtain ⟨ok, s', call, -, ⟨rfl, -⟩ | ⟨-, absent, -⟩ | ⟨-, k', existed, ⟨-, -, slot⟩, space⟩⟩ :=
    fatWrite_cases geo reliable layout name data (geo.room small)
  · exact ⟨s', call⟩
  · exact absurd named (absent k live)
  · cases existed with
    | false => exact absurd named (slot.2 k live)
    | true =>
      obtain rfl := layout.distinct k' k slot.1 live (slot.2.trans named.symm)
      exact absurd (layout.enough geo live shorter) (Nat.not_le_of_lt space.few)

end Writes

end NovaKernel
