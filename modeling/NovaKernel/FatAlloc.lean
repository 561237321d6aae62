import NovaKernel.FatSpec

set_option autoImplicit false

namespace NovaKernel

open Linked

structure Touches (within : Nat → Prop) (v v' : View) : Prop where
  dir : v'.dir = v.dir
  link : ∀ c, ¬ within c → v'.link c = v.link c
  data : ∀ c, ¬ within c → v'.data c = v.data c

namespace Touches

variable {within within' : Nat → Prop} {v v' v'' : View}

theorem refl (within : Nat → Prop) (v : View) : Touches within v v :=
  ⟨rfl, fun _ _ => rfl, fun _ _ => rfl⟩

theorem mono (touches : Touches within v v') (wider : ∀ c, within c → within' c) :
    Touches within' v v' :=
  ⟨touches.dir, fun c out => touches.link c fun h => out (wider c h),
    fun c out => touches.data c fun h => out (wider c h)⟩

theorem trans (first : Touches within v v') (second : Touches within v' v'') :
    Touches within v v'' :=
  ⟨second.dir.trans first.dir, fun c out => (second.link c out).trans (first.link c out),
    fun c out => (second.data c out).trans (first.data c out)⟩

theorem setLink (v : View) {c : Nat} (inside : within c) (x : Nat) :
    Touches within v (v.setLink c x) := by
  refine ⟨rfl, fun e out => ?_, fun e out => rfl⟩
  rw [View.setLink_link, Function.update_of_ne]
  rintro rfl
  exact out inside

theorem setData (v : View) {c : Nat} (inside : within c) (f : Nat → Byte) :
    Touches within v (v.setData c f) := by
  refine ⟨rfl, fun e out => rfl, fun e out => ?_⟩
  rw [View.setData_data, Function.update_of_ne]
  rintro rfl
  exact out inside

end Touches

theorem zeroSectors_cases (faults : Faults) (n lba : Nat) (s : Io) :
    ∃ ok s', zeroSectors (device faults) n lba s = (ok, s') ∧
      (∀ a, a < 512 * lba ∨ 512 * (lba + n) ≤ a → s'.disk a = s.disk a) ∧
      (ok = true → ∀ a, 512 * lba ≤ a → a < 512 * (lba + n) → s'.disk a = 0) ∧
      (ok = false → ∃ i < n, Bad faults (lba + i)) := by
  induction n generalizing lba s with
  | zero => exact ⟨true, s, rfl, fun _ _ => rfl, fun _ a low high => absurd low (by omega), by simp⟩
  | succ n ih =>
    rcases storePatched_cases faults lba (fun i => if i < 512 then 0 else s.secbuf i) s with
      ⟨s₁, failed, disk, bad⟩ | ⟨s₁, stored, disk⟩
    · refine ⟨false, s₁, by simp only [zeroSectors, failed], fun a _ => by rw [disk], by simp,
        fun _ => ?_⟩
      exact ⟨0, Nat.succ_pos n, bad⟩
    · obtain ⟨ok, s', call, outside, zeroed, failed⟩ := ih (lba + 1) s₁
      refine ⟨ok, s', by simp only [zeroSectors, stored, call], ?_, ?_, ?_⟩
      · intro a out
        have sector : a / 512 ≠ lba := by omega
        rw [outside a (by omega), disk, putSector, if_neg sector]
      · intro done a low high
        by_cases first : a < 512 * (lba + 1)
        · have sector : a / 512 = lba := by omega
          rw [outside a (.inl first), disk, putSector, if_pos sector,
            if_pos (Nat.mod_lt a (by decide))]
        · exact zeroed done a (by omega) (by omega)
      · intro halted
        obtain ⟨i, below, bad⟩ := failed halted
        exact ⟨i + 1, by omega, by rwa [Nat.add_assoc, Nat.add_comm 1] at bad⟩

section Alloc

variable {faults : Faults} {vol : Volume} (geo : Geometry vol)

include geo

variable (faults) in
theorem zeroCluster_cases {c : Nat} (inside : Cluster vol c) (s : Io) :
    (∃ s', zeroSectors (device faults) vol.spc (vol.dataLba + (c - 2) * vol.spc) s = (true, s') ∧
      Becomes vol s s' ((view vol s.disk).setData c fun _ => 0)) ∨
      ∃ s' f, zeroSectors (device faults) vol.spc (vol.dataLba + (c - 2) * vol.spc) s =
        (false, s') ∧
        view vol s'.disk = (view vol s.disk).setData c f ∧ ¬ Reliable faults := by
  have place : dataAddr vol c = 512 * (vol.dataLba + (c - 2) * vol.spc) := rfl
  have last : 512 * (vol.dataLba + (c - 2) * vol.spc + vol.spc) =
      dataAddr vol c + 512 * vol.spc := by
    rw [place, Nat.mul_add]
  have bounded := geo.cluster_end inside
  obtain ⟨ok, s', call, outside, zeroed, failed⟩ :=
    zeroSectors_cases faults vol.spc (vol.dataLba + (c - 2) * vol.spc) s
  rw [last, ← place] at outside zeroed
  cases ok with
  | true =>
    have becomes := becomes_data geo inside (fun _ => 0) outside fun j low =>
      zeroed rfl (dataAddr vol c + j) (by omega) (by omega)
    simp only [ite_self] at becomes
    exact .inl ⟨s', call, becomes⟩
  | false =>
    have becomes :=
      becomes_data geo inside (fun j => s'.disk (dataAddr vol c + j)) outside fun _ _ => rfl
    obtain ⟨i, below, bad⟩ := failed rfl
    exact .inr ⟨s', _, call, becomes.shows, fun reliable => reliable.good (by omega) bad⟩

variable (faults) in
theorem fatAllocFrom_cases (n c : Nat) (first : 2 ≤ c) (last : c + n = dataClustersMax vol + 2)
    (s : Io) :
    ∃ r s', fatAllocFrom (device faults) vol n c s = (r, s') ∧
      ((r ≠ 0 ∧ Cluster vol r ∧ (view vol s.disk).link r = 0 ∧
          Becomes vol s s' (((view vol s.disk).setLink r 0xFFF).setData r fun _ => 0)) ∨
        (r = 0 ∧ Touches (fun e => Cluster vol e ∧ (view vol s.disk).link e = 0) (view vol s.disk)
            (view vol s'.disk) ∧
          (Reliable faults → s'.disk = s.disk ∧ ∀ e, c ≤ e → e < c + n → (view vol s.disk).link e ≠ 0))) := by
  induction n generalizing c s with
  | zero =>
    exact ⟨0, s, rfl, .inr ⟨rfl, .refl _ _, fun _ => ⟨rfl, fun e low high => absurd low (by omega)⟩⟩⟩
  | succ n ih =>
    have inside : Cluster vol c := ⟨first, by omega⟩
    have small := geo.cluster_lt inside
    obtain ⟨x, s₁, got, disk₁, read⟩ := fatGet_view faults inside s
    by_cases unused : x = 0
    · -- A link that reads as 0 was read from the disk.
      have free : (view vol s.disk).link c = 0 := by
        rcases read with same | ⟨failed, -⟩
        · rw [← same, unused]
        · rw [unused] at failed
          cases failed
      have taken : Cluster vol c ∧ (view vol s.disk).link c = 0 := ⟨inside, free⟩
      rcases fatSet_cases faults geo inside (show 0xFFF < 4096 by decide) s₁ with
        ⟨s₂, stored, becomes⟩ | ⟨s₂, failed, bad, partly⟩
      · rw [disk₁] at becomes
        rcases zeroCluster_cases faults geo inside s₂ with
          ⟨s₃, zeroed, becomes'⟩ | ⟨s₃, f, failed, shows, unreliable⟩
        · rw [becomes.shows] at becomes'
          refine ⟨c, s₃, ?_, .inl ⟨by omega, inside, free, (Becomes.refl disk₁).trans (becomes.trans becomes')⟩⟩
          simp only [fatAllocFrom, got, if_pos unused, stored, zeroed]
        · refine ⟨0, s₃, ?_, .inr ⟨rfl, ?_, fun reliable => absurd reliable unreliable⟩⟩
          · simp only [fatAllocFrom, got, if_pos unused, stored, failed]
          · rw [shows, becomes.shows]
            exact (Touches.setLink _ taken _).trans (Touches.setData _ taken _)
      · refine ⟨0, s₂, ?_, .inr ⟨rfl, ?_, fun reliable => ?_⟩⟩
        · simp only [fatAllocFrom, got, if_pos unused, failed]
        · rw [disk₁] at partly
          rcases partly with shows | shows | ⟨shows, -⟩
          · rw [shows]
            exact .refl _ _
          · rw [shows]
            exact .setLink _ taken _
          · rw [shows]
            exact .setLink _ taken _
        · rcases bad with bad | bad
          · exact absurd bad (reliable.entry geo (by decide) inside)
          · exact absurd bad (reliable.entry geo (by decide) inside)
    · obtain ⟨r, s', call, outcome⟩ := ih (c + 1) (by omega) (by omega) s₁
      rw [disk₁] at outcome
      refine ⟨r, s', by simp only [fatAllocFrom, got, if_neg unused, call], ?_⟩
      rcases outcome with ⟨found, member, free, becomes⟩ | ⟨none', touches, rest⟩
      · exact .inl ⟨found, member, free, (Becomes.refl disk₁).trans becomes⟩
      · refine .inr ⟨none', touches, fun reliable => ⟨(rest reliable).1, fun e low high => ?_⟩⟩
        by_cases same : e = c
        · rw [same]
          rcases read with same' | ⟨-, bad⟩
          · rwa [← same']
          · exact absurd bad (reliable.entry geo (by decide) inside)
        · exact (rest reliable).2 e (by omega) (by omega)

variable (faults) in
theorem fatAllocCluster_cases (s : Io) :
    ∃ r s', fatAllocCluster (device faults) vol s = (r, s') ∧
      ((r ≠ 0 ∧ Cluster vol r ∧ (view vol s.disk).link r = 0 ∧
          Becomes vol s s' (((view vol s.disk).setLink r 0xFFF).setData r fun _ => 0)) ∨
        (r = 0 ∧ Touches (fun e => Cluster vol e ∧ (view vol s.disk).link e = 0) (view vol s.disk)
            (view vol s'.disk) ∧
          (Reliable faults → s'.disk = s.disk ∧ ∀ e, Cluster vol e → (view vol s.disk).link e ≠ 0))) := by
  obtain ⟨r, s', call, outcome⟩ := fatAllocFrom_cases faults geo (dataClustersMax vol) 2
    (Nat.le_refl 2) (Nat.add_comm 2 _) s
  rw [← geo.clustersEnd] at call
  refine ⟨r, s', call, outcome.imp_right fun ⟨none', touches, rest⟩ => ⟨none', touches, fun reliable => ?_⟩⟩
  exact ⟨(rest reliable).1, fun e inside => (rest reliable).2 e inside.1 (by have := inside.2; omega)⟩

end Alloc

end NovaKernel
