import NovaKernel.FatPacking
import NovaKernel.FatSlots
import NovaKernel.Floppy
import Mathlib.Order.Interval.Finset.Nat

set_option autoImplicit false

namespace NovaKernel

open Linked

-- The values that `fat_free_chain` goes on from.
def Linking (c : Nat) : Prop := 2 ≤ c ∧ c < 0xFF0

instance (c : Nat) : Decidable (Linking c) := inferInstanceAs (Decidable (2 ≤ c ∧ c < 0xFF0))

def Reached (disk : Nat → Byte) (start : Nat) : Nat → Prop :=
  Reach (fatEntry floppy disk 0) Linking start

-- A copy has 3072 entries. The first entry after them is the first one of the second copy.
def copyEntries : Nat := 3072

-- The entries that are erased with the clusters of `seen`, counted from the start of the first
-- copy.
def Erases (seen : List Nat) (e : Nat) : Prop :=
  e ∈ seen ∨ (copyEntries ≤ e ∧ e - copyEntries ∈ seen)

instance (seen : List Nat) (e : Nat) : Decidable (Erases seen e) :=
  inferInstanceAs (Decidable (e ∈ seen ∨ (copyEntries ≤ e ∧ e - copyEntries ∈ seen)))

/-- The clusters the walk meets, after those of `seen`. It ends at an entry that is erased by then. -/
def visits (link : Nat → Nat) : Nat → List Nat → Nat → List Nat
  | 0, seen, _ => seen
  | n + 1, seen, c =>
    if Linking c then
      if Erases seen c then c :: seen else visits link n (c :: seen) (link c)
    else seen

def met (disk : Nat → Byte) (start : Nat) : List Nat :=
  visits (fatEntry floppy disk 0) 0xFF0 [] start

section Fields

variable (disk : Nat → Byte) (c v : Nat)

theorem fatAddr_alias : fatAddr floppy 1 c = fatAddr floppy 0 (c + copyEntries) := by
  simp only [fatAddr, floppy, copyEntries]
  omega

theorem alias_parity : (c + copyEntries) % 2 = c % 2 := by
  simp only [copyEntries]
  omega

theorem fatEntry_alias : fatEntry floppy disk 1 c = fatEntry floppy disk 0 (c + copyEntries) := by
  simp only [fatEntry, fatAddr_alias, entryOf, alias_parity]

theorem putFat_alias : putFat floppy 1 c v disk = putFat floppy 0 (c + copyEntries) v disk := by
  simp only [putFat, fatAddr_alias, entryLo, entryHi, alias_parity]

def clear : Nat → Byte := putFat floppy 1 c 0 (putFat floppy 0 c 0 disk)

theorem fatEntry_clear (e : Nat) : fatEntry floppy (clear disk c) 0 e =
    if e = c ∨ e = c + copyEntries then 0 else fatEntry floppy disk 0 e := by
  rw [clear, putFat_alias, fatEntry_putFat, fatEntry_putFat]
  by_cases first : e = c
  · simp [first]
  · by_cases second : e = c + copyEntries
    · simp [second]
    · simp [first, second]

theorem zeroed_bytes {lo hi : Byte} (zero : entryOf c lo hi = 0) :
    entryLo c 0 lo = lo ∧ entryHi c 0 hi = hi := by
  rcases Nat.mod_two_eq_zero_or_one c with even | odd
  · rw [entryOf_even even] at zero
    constructor
    · apply BitVec.eq_of_toNat_eq
      rw [entryLo_even even]
      omega
    · apply BitVec.eq_of_toNat_eq
      rw [entryHi_even even]
      omega
  · rw [entryOf_odd odd] at zero
    constructor
    · apply BitVec.eq_of_toNat_eq
      rw [entryLo_odd odd]
      omega
    · apply BitVec.eq_of_toNat_eq
      rw [entryHi_odd odd]
      omega

end Fields

structure Erased (disk disk' : Nat → Byte) (seen : List Nat) : Prop where
  entry : ∀ e, fatEntry floppy disk' 0 e = if Erases seen e then 0 else fatEntry floppy disk 0 e
  -- A byte changes only if the erasing of one of the entries changes it.
  kept : ∀ a, (∀ c ∈ seen, ∀ copy < 2, putFat floppy copy c 0 disk a = disk a) → disk' a = disk a

namespace Erased

variable {disk disk' : Nat → Byte} {seen : List Nat}

theorem refl (disk : Nat → Byte) : Erased disk disk [] where
  entry e := by simp [Erases]
  kept _ _ := rfl

theorem putFat_byte (vol : Volume) (copy c x : Nat) {a : Nat} (same : disk' a = disk a) :
    putFat vol copy c x disk' a = putFat vol copy c x disk a := by
  by_cases first : a = fatAddr vol copy c
  · subst first
    rw [putFat_first, putFat_first, same]
  · by_cases second : a = fatAddr vol copy c + 1
    · subst second
      rw [putFat_second, putFat_second, same]
    · rw [putFat_kept _ _ _ _ _ first second, putFat_kept _ _ _ _ _ first second, same]

theorem cons (erased : Erased disk disk' seen) (c : Nat) :
    Erased disk (clear disk' c) (c :: seen) := by
  constructor
  · intro e
    rw [fatEntry_clear, erased.entry]
    have more : Erases (c :: seen) e ↔ (e = c ∨ e = c + copyEntries) ∨ Erases seen e := by
      simp only [Erases, List.mem_cons]
      constructor
      · rintro ((here | later) | ⟨above, here | later⟩)
        · exact .inl (.inl here)
        · exact .inr (.inl later)
        · exact .inl (.inr (by omega))
        · exact .inr (.inr ⟨above, later⟩)
      · rintro ((here | here) | later | ⟨above, later⟩)
        · exact .inl (.inl here)
        · exact .inr ⟨by omega, .inl (by omega)⟩
        · exact .inl (.inr later)
        · exact .inr ⟨above, .inr later⟩
    by_cases first : e = c ∨ e = c + copyEntries
    · rw [if_pos first, if_pos (more.mpr (.inl first))]
    · rw [if_neg first]
      by_cases second : Erases seen e
      · rw [if_pos second, if_pos (more.mpr (.inr second))]
      · rw [if_neg second, if_neg fun both => (more.mp both).elim first second]
  · intro a unchanged
    have same := erased.kept a fun e member => unchanged e (List.mem_cons_of_mem _ member)
    have first : putFat floppy 0 c 0 disk' a = disk a :=
      (putFat_byte floppy 0 c 0 same).trans (unchanged c (List.mem_cons_self ..) 0 (by decide))
    rw [clear, putFat_byte floppy 1 c 0 first]
    exact unchanged c (List.mem_cons_self ..) 1 (by decide)

end Erased

section Walk

variable {faults : Faults} (reliable : Reliable faults)

include reliable

theorem floppy_entry {c copy : Nat} (first : copy < 2) (linking : Linking c) :
    ¬ BadEntry faults floppy copy c := by
  simp only [Linking] at linking
  have low : fatSector floppy copy c + 1 < diskSectors := by
    simp only [fatSector, floppy, diskSectors]
    have copies : copy = 0 ∨ copy = 1 := by omega
    rcases copies with rfl | rfl <;> omega
  rintro (bad | ⟨-, bad⟩)
  · exact reliable.good (by omega) bad
  · exact reliable.good low bad

theorem fatGet_floppy {c : Nat} (linking : Linking c) (s : Io) :
    ∃ s', fatGet (device faults) floppy c s = (fatEntry floppy s.disk 0 c, s') ∧
      s'.disk = s.disk := by
  obtain ⟨x, s', call, disk, rfl | ⟨-, bad⟩⟩ := fatGet_cases faults floppy c s
  · exact ⟨s', call, disk⟩
  · exact absurd bad (floppy_entry reliable (by decide) linking)

theorem fatClear_floppy {c : Nat} (linking : Linking c) (s : Io) :
    ∃ s', fatSet (device faults) floppy c 0 s = (true, s') ∧ s'.disk = clear s.disk c := by
  rcases fatSetCopy_cases faults floppy 0 c 0 s with ⟨s₁, stored, disk⟩ | ⟨s₁, -, bad, -⟩
  · rcases fatSetCopy_cases faults floppy 1 c 0 s₁ with ⟨s₂, stored₂, disk₂⟩ | ⟨s₂, -, bad, -⟩
    · exact ⟨s₂, by simp only [fatSet, stored, stored₂], by rw [disk₂, disk, clear]⟩
    · exact absurd bad (floppy_entry reliable (by decide) linking)
  · exact absurd bad (floppy_entry reliable (by decide) linking)

theorem freeChainFrom_pass {c : Nat} (linking : Linking c) (s : Io) :
    ∃ s', s'.disk = clear s.disk c ∧ ∀ n, freeChainFrom (device faults) floppy (n + 1) c s =
      freeChainFrom (device faults) floppy n (fatEntry floppy s.disk 0 c) s' := by
  obtain ⟨s₁, got, disk₁⟩ := fatGet_floppy reliable linking s
  obtain ⟨s₂, stored, disk₂⟩ := fatClear_floppy reliable linking s₁
  refine ⟨s₂, by rw [disk₂, disk₁], fun n => ?_⟩
  have goes : 2 ≤ c ∧ c < 0xFF0 := linking
  rw [freeChainFrom, if_pos goes]
  simp only [got, stored]

omit reliable in
theorem freeChainFrom_stop {c : Nat} (stops : ¬ Linking c) (n : Nat) (s : Io) :
    freeChainFrom (device faults) floppy n c s = s := by
  cases n with
  | zero => rfl
  | succ n => rw [freeChainFrom, if_neg (by exact stops)]

omit reliable in
theorem linking_length {seen : List Nat} (fresh : seen.Nodup) (linking : ∀ c ∈ seen, Linking c) :
    seen.length < 0xFEF := by
  have inside : seen.toFinset ⊆ Finset.Ico 2 0xFF0 := fun c member =>
    Finset.mem_Ico.mpr (linking c (List.mem_toFinset.mp member))
  have bound := Finset.card_le_card inside
  rw [List.toFinset_card_of_nodup fresh, Nat.card_Ico] at bound
  omega

theorem freeChainFrom_erases {disk : Nat → Byte} (m : Nat) {seen : List Nat} (fresh : seen.Nodup)
    (linking : ∀ c ∈ seen, Linking c) (enough : 0xFF0 ≤ m + seen.length) (c : Nat) (s : Io)
    (erased : Erased disk s.disk seen) :
    ∃ s', (∀ n, m < n → freeChainFrom (device faults) floppy n c s = s') ∧
      Erased disk s'.disk (visits (fatEntry floppy disk 0) m seen c) := by
  induction m generalizing seen c s with
  | zero =>
    have bound := linking_length fresh linking
    omega
  | succ m ih =>
    by_cases goes : Linking c
    · obtain ⟨s₁, disk₁, pass⟩ := freeChainFrom_pass reliable goes s
      have next := erased.cons c
      rw [← disk₁] at next
      rw [erased.entry] at pass
      rw [visits, if_pos goes]
      by_cases again : Erases seen c
      · -- The entry reads zero, and the loop stops there.
        rw [if_pos again]
        rw [if_pos again] at pass
        refine ⟨s₁, fun n more => ?_, next⟩
        obtain ⟨n, rfl⟩ : ∃ k, n = k + 1 := ⟨n - 1, by omega⟩
        rw [pass, freeChainFrom_stop (by unfold Linking; omega)]
      · rw [if_neg again]
        rw [if_neg again] at pass
        have first : c ∉ seen := fun member => again (.inl member)
        obtain ⟨s', runs, ends⟩ := ih (List.nodup_cons.mpr ⟨first, fresh⟩)
          (List.forall_mem_cons.mpr ⟨goes, linking⟩) (by rw [List.length_cons]; omega)
          (fatEntry floppy disk 0 c) s₁ next
        refine ⟨s', fun n more => ?_, ends⟩
        obtain ⟨n, rfl⟩ : ∃ k, n = k + 1 := ⟨n - 1, by omega⟩
        rw [pass, runs n (by omega)]
    · rw [visits, if_neg goes]
      exact ⟨s, fun n _ => freeChainFrom_stop goes n s, erased⟩

theorem fatFreeChain_erases (c : Nat) (s : Io) :
    Erased s.disk (fatFreeChain (device faults) floppy c s).disk (met s.disk c) := by
  obtain ⟨s', runs, ends⟩ := freeChainFrom_erases reliable 0xFF0 List.nodup_nil (by simp)
    (Nat.le_refl _) c s (Erased.refl s.disk)
  rw [fatFreeChain, runs 65536 (by decide)]
  exact ends

theorem freeChainFrom_settles (c : Nat) (s : Io) (n : Nat) (enough : 0xFF0 < n) :
    freeChainFrom (device faults) floppy n c s = fatFreeChain (device faults) floppy c s := by
  obtain ⟨s', runs, -⟩ := freeChainFrom_erases reliable 0xFF0 List.nodup_nil (by simp)
    (Nat.le_refl _) c s (Erased.refl s.disk)
  rw [fatFreeChain, runs n enough, runs 65536 (by decide)]

end Walk

section Visits

variable {link link' : Nat → Nat} {m : Nat} {seen : List Nat} {a : Nat}

theorem visits_congr (same : ∀ c, Linking c → link' c = link c) (m : Nat) (seen : List Nat)
    (a : Nat) :
    visits link' m seen a = visits link m seen a := by
  induction m generalizing seen a with
  | zero => rfl
  | succ m ih =>
    rw [visits, visits]
    by_cases goes : Linking a
    · rw [if_pos goes, if_pos goes, ih, same a goes]
    · rw [if_neg goes, if_neg goes]

theorem visits_reach {c : Nat} (member : c ∈ visits link m seen a) :
    c ∈ seen ∨ Reach link Linking a c := by
  induction m generalizing seen a with
  | zero => exact .inl member
  | succ m ih =>
    rw [visits] at member
    by_cases goes : Linking a
    · have first : c ∈ a :: seen → c ∈ seen ∨ Reach link Linking a c := fun member => by
        rcases List.mem_cons.mp member with rfl | before
        · exact .inr (.here goes)
        · exact .inl before
      rw [if_pos goes] at member
      by_cases again : Erases seen a
      · rw [if_pos again] at member
        exact first member
      · rw [if_neg again] at member
        rcases ih member with before | later
        · exact first before
        · exact .inr (.next goes later)
    · rw [if_neg goes] at member
      exact .inl member

end Visits

end NovaKernel
