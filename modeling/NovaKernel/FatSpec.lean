import NovaKernel.Lib.Linked
import NovaKernel.FatView

set_option autoImplicit false

namespace NovaKernel

open Linked

/-- The disk of `s'` shows as `v'`, and its FAT copies agree if they did in `s`. -/
structure Becomes (vol : Volume) (s s' : Io) (v' : View) : Prop where
  shows : view vol s'.disk = v'
  agree : CopiesAgree vol s.disk → CopiesAgree vol s'.disk

theorem Becomes.refl {vol : Volume} {s s' : Io} (same : s'.disk = s.disk) :
    Becomes vol s s' (view vol s.disk) :=
  ⟨by rw [same], by rw [same]; exact id⟩

theorem Becomes.trans {vol : Volume} {s s' s'' : Io} {v v' : View} (first : Becomes vol s s' v)
    (second : Becomes vol s' s'' v') : Becomes vol s s'' v' :=
  ⟨second.shows, second.agree ∘ first.agree⟩

namespace View

def setData (v : View) (c : Nat) (f : Nat → Byte) : View :=
  { v with data := Function.update v.data c f }

@[simp] theorem setData_link (v : View) (c : Nat) (f : Nat → Byte) :
    (v.setData c f).link = v.link := rfl
@[simp] theorem setData_dir (v : View) (c : Nat) (f : Nat → Byte) :
    (v.setData c f).dir = v.dir := rfl
@[simp] theorem setData_data (v : View) (c : Nat) (f : Nat → Byte) :
    (v.setData c f).data = Function.update v.data c f := rfl

def setSlot (v : View) (k : Nat) (e : Nat → Byte) : View :=
  { v with dir := Function.update v.dir k e }

@[simp] theorem setSlot_link (v : View) (k : Nat) (e : Nat → Byte) :
    (v.setSlot k e).link = v.link := rfl
@[simp] theorem setSlot_data (v : View) (k : Nat) (e : Nat → Byte) :
    (v.setSlot k e).data = v.data := rfl
@[simp] theorem setSlot_dir (v : View) (k : Nat) (e : Nat → Byte) :
    (v.setSlot k e).dir = Function.update v.dir k e := rfl

end View

section Regions

variable {vol : Volume} (geo : Geometry vol)

include geo

theorem copiesAgree_above {disk disk' : Nat → Byte} (agree : CopiesAgree vol disk)
    (kept : ∀ a < 512 * vol.rootLba, disk' a = disk a) : CopiesAgree vol disk' := by
  have root := geo.root
  intro o inside
  rw [kept _ (by omega), kept _ (by omega)]
  exact agree o inside

theorem view_link_above {disk disk' : Nat → Byte}
    (kept : ∀ a < 512 * vol.rootLba, disk' a = disk a) :
    (view vol disk').link = (view vol disk).link := by
  funext c
  simp only [view]
  by_cases inside : Cluster vol c
  · have below := geo.fatAddr_lt (show 0 < 2 by decide) inside
    rw [if_pos inside, if_pos inside, fatEntry, fatEntry, kept _ (by omega), kept _ below]
  · rw [if_neg inside, if_neg inside]

theorem becomes_data {s s' : Io} {c : Nat} (inside : Cluster vol c) (f : Nat → Byte)
    (kept : ∀ a, a < dataAddr vol c ∨ dataAddr vol c + 512 * vol.spc ≤ a → s'.disk a = s.disk a)
    (stored : ∀ j < 512 * vol.spc, s'.disk (dataAddr vol c + j) = f j) :
    Becomes vol s s' ((view vol s.disk).setData c fun j => if j < 512 * vol.spc then f j else 0) := by
  have area := geo.area
  have start : 512 * vol.dataLba ≤ dataAddr vol c := by
    rw [dataAddr]
    omega
  have below : ∀ a < 512 * vol.rootLba, s'.disk a = s.disk a := fun a low => kept a (by omega)
  refine ⟨View.ext (view_link_above geo below) ?_ ?_,
    fun agree => copiesAgree_above geo agree below⟩
  · funext k j
    simp only [view, View.setData_dir]
    by_cases slot : k < 16 * vol.rootSectors ∧ j < 32
    · rw [if_pos slot, if_pos slot, kept _ (by rw [slotAddr]; omega)]
    · rw [if_neg slot, if_neg slot]
  · funext e j
    simp only [View.setData_data]
    by_cases same : e = c
    · rw [same, Function.update_self, view]
      simp only [inside, true_and]
      by_cases low : j < 512 * vol.spc
      · rw [if_pos low, if_pos low, stored j low]
      · rw [if_neg low, if_neg low]
    · rw [Function.update_of_ne same]
      simp only [view]
      by_cases member : Cluster vol e ∧ j < 512 * vol.spc
      · rw [if_pos member, if_pos member, kept]
        by_contra overlap
        have there : dataAddr vol e + j =
            dataAddr vol c + (dataAddr vol e + j - dataAddr vol c) := by omega
        exact same (dataAddr_inj member.1 inside member.2 (by omega) there).1
      · rw [if_neg member, if_neg member]

theorem becomes_slot {s s' : Io} {k : Nat} (inside : k < 16 * vol.rootSectors) (e : Nat → Byte)
    (kept : ∀ a, a < slotAddr vol k ∨ slotAddr vol k + 32 ≤ a → s'.disk a = s.disk a)
    (stored : ∀ j < 32, s'.disk (slotAddr vol k + j) = e j) :
    Becomes vol s s' ((view vol s.disk).setSlot k fun j => if j < 32 then e j else 0) := by
  have area := geo.area
  have below : ∀ a < 512 * vol.rootLba, s'.disk a = s.disk a := fun a low =>
    kept a (.inl (Nat.lt_of_lt_of_le low (Nat.le_add_right _ _)))
  refine ⟨View.ext (view_link_above geo below) ?_ ?_,
    fun agree => copiesAgree_above geo agree below⟩
  · funext i j
    simp only [View.setSlot_dir]
    by_cases same : i = k
    · rw [same, Function.update_self, view]
      simp only [inside, true_and]
      by_cases low : j < 32
      · rw [if_pos low, if_pos low, stored j low]
      · rw [if_neg low, if_neg low]
    · rw [Function.update_of_ne same]
      simp only [view]
      by_cases member : i < 16 * vol.rootSectors ∧ j < 32
      · have apart : slotAddr vol i + j < slotAddr vol k ∨
            slotAddr vol k + 32 ≤ slotAddr vol i + j := by
          simp only [slotAddr]
          rcases Nat.lt_or_gt_of_ne same with before | after
          · exact .inl (by omega)
          · exact .inr (by omega)
        rw [if_pos member, if_pos member, kept _ apart]
      · rw [if_neg member, if_neg member]
  · funext c j
    simp only [view, View.setSlot_data]
    rw [kept _ (.inr (by rw [slotAddr, dataAddr]; omega))]

theorem Geometry.fatSector_lt {copy c : Nat} (first : copy < 2) (inside : Cluster vol c) :
    fatSector vol copy c < diskSectors ∧ (Split c → fatSector vol copy c + 1 < diskSectors) := by
  have below := geo.fatAddr_lt first inside
  have addr : fatAddr vol copy c = 512 * fatSector vol copy c + (c + c / 2) % 512 := by
    simp only [fatAddr, fatSector]
    omega
  have volume := geo.volume
  have area := geo.area
  simp only [Split]
  omega

end Regions

section Entries

variable {faults : Faults} {vol : Volume} (geo : Geometry vol) {c : Nat}

include geo

theorem Reliable.entry (reliable : Reliable faults) {copy : Nat} (first : copy < 2)
    (inside : Cluster vol c) : ¬ BadEntry faults vol copy c := by
  have bounds := geo.fatSector_lt first inside
  rintro (bad | ⟨split, bad⟩)
  · exact reliable.good bounds.1 bad
  · exact reliable.good (bounds.2 split) bad

variable (faults) in
omit geo in
theorem fatGet_view (inside : Cluster vol c) (s : Io) :
    ∃ x s', fatGet (device faults) vol c s = (x, s') ∧ s'.disk = s.disk ∧
      (x = (view vol s.disk).link c ∨ (x = 0xFFF ∧ BadEntry faults vol 0 c)) := by
  have link : (view vol s.disk).link c = fatEntry vol s.disk 0 c := if_pos inside
  rw [link]
  exact fatGet_cases faults vol c s

theorem fatGet_ok (reliable : Reliable faults) (inside : Cluster vol c) (s : Io) :
    ∃ s', fatGet (device faults) vol c s = ((view vol s.disk).link c, s') ∧ s'.disk = s.disk := by
  obtain ⟨x, s', call, disk, rfl | ⟨-, bad⟩⟩ := fatGet_view faults inside s
  · exact ⟨s', call, disk⟩
  · exact absurd bad (reliable.entry geo (by decide) inside)

variable (faults) in
theorem fatSet_cases (inside : Cluster vol c) {x : Nat} (small : x < 4096) (s : Io) :
    (∃ s', fatSet (device faults) vol c x s = (true, s') ∧
      Becomes vol s s' ((view vol s.disk).setLink c x)) ∨
      ∃ s', fatSet (device faults) vol c x s = (false, s') ∧
        (BadEntry faults vol 0 c ∨ BadEntry faults vol 1 c) ∧
        (view vol s'.disk = view vol s.disk ∨ view vol s'.disk = (view vol s.disk).setLink c x ∨
          view vol s'.disk = (view vol s.disk).setLink c (halfStored c x ((view vol s.disk).link c)) ∧
            Split c ∧ Bad faults (fatSector vol 0 c + 1)) := by
  rcases fatSetCopy_cases faults vol 0 c x s with ⟨s₁, stored, disk⟩ | ⟨s₁, failed, bad, partly⟩
  · have first := view_putFat_first geo inside small s.disk
    rcases fatSetCopy_cases faults vol 1 c x s₁ with ⟨s₂, stored₂, disk₂⟩ | ⟨s₂, failed, bad, partly⟩
    · refine .inl ⟨s₂, by simp only [fatSet, stored, stored₂], ?_, ?_⟩
      · rw [disk₂, view_mirror geo inside fun a => putFat_kept vol 1 c x s₁.disk, disk, first]
      · rw [disk₂, disk]
        exact copiesAgree_putFat (geo.entry_lt inside) x
    · refine .inr ⟨s₂, by simp only [fatSet, stored, failed], .inr bad, .inr (.inl ?_)⟩
      rcases partly with disk₂ | ⟨disk₂, -⟩
      · rw [disk₂, disk, first]
      · rw [disk₂, view_mirror geo inside fun a other _ => putHalf_kept vol 1 c x s₁.disk other,
          disk, first]
  · refine .inr ⟨s₁, by simp only [fatSet, failed], .inl bad, ?_⟩
    rcases partly with disk | ⟨disk, split, next⟩
    · exact .inl (by rw [disk])
    · refine .inr (.inr ⟨?_, split, next⟩)
      rw [disk, view_putHalf_first geo inside]

theorem fatSet_ok (reliable : Reliable faults) (inside : Cluster vol c) {x : Nat} (small : x < 4096)
    (s : Io) : ∃ s', fatSet (device faults) vol c x s = (true, s') ∧
      Becomes vol s s' ((view vol s.disk).setLink c x) := by
  rcases fatSet_cases faults geo inside small s with stored | ⟨s', -, bad | bad, -⟩
  · exact stored
  · exact absurd bad (reliable.entry geo (by decide) inside)
  · exact absurd bad (reliable.entry geo (by decide) inside)

end Entries

def FatChain (vol : Volume) (v : View) : Nat → List Nat → Prop :=
  Chain v.link (Cluster vol) (0xFF0 ≤ ·)

def View.release (v : View) (l : List Nat) : View :=
  { v with link := fun c => if c ∈ l then 0 else v.link c }

theorem View.release_link (v : View) (l : List Nat) (c : Nat) :
    (v.release l).link c = if c ∈ l then 0 else v.link c := rfl

theorem View.release_cons (v : View) (c : Nat) (l : List Nat) :
    (v.setLink c 0).release l = v.release (c :: l) := by
  simp only [View.release, View.setLink]
  congr 1
  funext e
  by_cases same : e = c <;> simp [same]

section Chains

variable {faults : Faults} {vol : Volume} (geo : Geometry vol)

include geo

theorem Geometry.exclusive (c : Nat) (inside : Cluster vol c) : ¬ 0xFF0 ≤ c := by
  have small := geo.cluster_lt inside
  omega

theorem FatChain.nodup {v : View} {a : Nat} {l : List Nat} (chain : FatChain vol v a l) : l.Nodup :=
  Chain.nodup geo.exclusive chain

theorem freeChainFrom_ok (reliable : Reliable faults) {l : List Nat} (n : Nat)
    (enough : l.length ≤ n) {a : Nat} {s : Io} (chain : FatChain vol (view vol s.disk) a l) :
    Becomes vol s (freeChainFrom (device faults) vol n a s) ((view vol s.disk).release l) := by
  induction l generalizing n a s with
  | nil =>
    have unchanged : freeChainFrom (device faults) vol n a s = s := by
      cases chain with
      | nil halted =>
        cases n with
        | zero => rfl
        | succ n => rw [freeChainFrom, if_neg (by omega)]
    rw [unchanged]
    have same : (view vol s.disk).release [] = view vol s.disk := by simp [View.release]
    rw [same]
    exact .refl rfl
  | cons c l ih =>
    have fresh := List.nodup_cons.mp (FatChain.nodup geo chain)
    cases chain with
    | cons inside later =>
      obtain ⟨n, rfl⟩ : ∃ m, n = m + 1 := ⟨n - 1, by simp at enough; omega⟩
      have small := geo.cluster_lt inside
      obtain ⟨s₁, got, disk₁⟩ := fatGet_ok geo reliable inside s
      obtain ⟨s₂, stored, becomes⟩ := fatSet_ok geo reliable inside (x := 0) (by decide) s₁
      rw [disk₁] at becomes
      have rest : FatChain vol (view vol s₂.disk) ((view vol s.disk).link c) l := by
        rw [becomes.shows]
        refine later.congr fun e member => ?_
        rw [View.setLink_link, Function.update_of_ne]
        rintro rfl
        exact fresh.1 member
      have call : freeChainFrom (device faults) vol (n + 1) c s =
          freeChainFrom (device faults) vol n ((view vol s.disk).link c) s₂ := by
        rw [freeChainFrom, if_pos ⟨inside.1, by omega⟩]
        simp only [got, stored]
      have later' := ih n (by simpa using enough) rest
      rw [becomes.shows, View.release_cons] at later'
      rw [call]
      exact (Becomes.refl disk₁).trans (becomes.trans later')

end Chains

end NovaKernel
