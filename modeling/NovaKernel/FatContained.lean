import NovaKernel.FatErase

set_option autoImplicit false

namespace NovaKernel

open Linked

def startOf (disk : Nat → Byte) (entry : Nat) : Nat := u16Of (fun j => disk (entry + j)) 26

/-- The clusters that can be reached are free, and nothing changes but their entries and the first
byte of the directory entry. -/
structure Contained (disk disk' : Nat → Byte) (entry : Nat) : Prop where
  freed : ∀ c, Reached disk (startOf disk entry) c → fatEntry floppy disk' 0 c = 0
  others : ∀ c < copyEntries, ¬ Reached disk (startOf disk entry) c →
    ∀ copy < 2, fatEntry floppy disk' copy c = fatEntry floppy disk copy c
  outside : ∀ a, a ≠ entry → a < 512 * floppy.fatLba ∨ 512 * floppy.rootLba ≤ a → disk' a = disk a

/-- What the walk erases beyond the first copy is the entry of a cluster that can be reached, or zero
already, and it does not end before everything is free. -/
structure Harmless (disk : Nat → Byte) (entry : Nat) : Prop where
  -- The second copy of an entry that is not in the table lies in the root directory.
  root : ∀ c ∈ met disk (startOf disk entry), copyEntries ≤ c →
    ∀ a, a ≠ entry → putFat floppy 1 c 0 disk a = disk a
  mirror : ∀ c ∈ met disk (startOf disk entry), copyEntries ≤ c →
    Reached disk (startOf disk entry) (c - copyEntries) ∨ fatEntry floppy disk 0 c = 0
  rest : ∀ c, Reached disk (startOf disk entry) c →
    Erases (met disk (startOf disk entry)) c ∨ fatEntry floppy disk 0 c = 0

section Marked

variable {disk : Nat → Byte} {entry : Nat} (low : 512 * floppy.rootLba ≤ entry)

def mark (disk : Nat → Byte) (entry : Nat) : Nat → Byte := Function.update disk entry 0xE5

include low

theorem fatEntry_mark {e : Nat} (inside : e < 2 * copyEntries) :
    fatEntry floppy (mark disk entry) 0 e = fatEntry floppy disk 0 e := by
  simp only [copyEntries] at inside
  simp only [floppy] at low
  rw [fatEntry, fatEntry, mark, Function.update_of_ne, Function.update_of_ne]
  all_goals
    simp only [fatAddr, floppy]
    omega

theorem met_mark (start : Nat) : met (mark disk entry) start = met disk start :=
  visits_congr (fun _ linking => fatEntry_mark low (by simp only [copyEntries, Linking] at *; omega)) _ _ _

end Marked

theorem met_reached {disk : Nat → Byte} {start c : Nat} (member : c ∈ met disk start) :
    Reached disk start c :=
  (visits_reach member).resolve_left (List.not_mem_nil)

theorem reached_linking {disk : Nat → Byte} {start c : Nat} (reached : Reached disk start c) :
    Linking c := reached.goes

theorem erase_outside {a c copy : Nat} (first : copy < 2) (linking : Linking c)
    (outside : a < 512 * floppy.fatLba ∨ 512 * floppy.rootLba ≤ a)
    (touched : a = fatAddr floppy copy c ∨ a = fatAddr floppy copy c + 1) :
    copy = 1 ∧ copyEntries ≤ c := by
  simp only [Linking] at linking
  simp only [floppy, fatAddr, copyEntries] at *
  have copies : copy = 0 ∨ copy = 1 := by omega
  rcases copies with rfl | rfl <;> omega

section Deleted

variable {disk disk' : Nat → Byte} {entry : Nat} (low : 512 * floppy.rootLba ≤ entry)
  (erased : Erased (mark disk entry) disk' (met disk (startOf disk entry)))

include low erased

theorem Erased.small {e : Nat} (inside : e < 2 * copyEntries) : fatEntry floppy disk' 0 e =
    if Erases (met disk (startOf disk entry)) e then 0 else fatEntry floppy disk 0 e := by
  rw [erased.entry, fatEntry_mark low inside]

theorem Erased.harmless (contained : Contained disk disk' entry) : Harmless disk entry := by
  constructor
  case root =>
    intro c member above a other
    have zero : fatEntry floppy disk' 1 c = 0 := by
      rw [fatEntry_alias, erased.entry, if_pos (.inr ⟨Nat.le_add_left _ _, by simpa using member⟩)]
    obtain ⟨lo, hi⟩ := zeroed_bytes c zero
    have kept : ∀ a, a ≠ entry → (a = fatAddr floppy 1 c ∨ a = fatAddr floppy 1 c + 1) →
        disk' a = disk a := fun a other touched => contained.outside a other (by
          simp only [copyEntries] at above
          simp only [floppy, fatAddr] at *
          omega)
    by_cases first : a = fatAddr floppy 1 c
    · subst first
      have same := kept _ other (.inl rfl)
      rw [putFat_first, ← same, lo]
    · by_cases second : a = fatAddr floppy 1 c + 1
      · subst second
        have same := kept _ other (.inr rfl)
        rw [putFat_second, ← same, hi]
      · exact putFat_kept _ _ _ _ _ first second
  case mirror =>
    intro c member above
    by_contra neither
    rw [not_or] at neither
    have linking := reached_linking (met_reached member)
    have below : c - copyEntries < copyEntries := by
      simp only [copyEntries, Linking] at *
      omega
    have same := contained.others _ below neither.1 1 (by decide)
    rw [fatEntry_alias, fatEntry_alias, Nat.sub_add_cancel above, erased.entry,
      if_pos (.inl member)] at same
    exact neither.2 same.symm
  case rest =>
    intro c reached
    by_cases gone : Erases (met disk (startOf disk entry)) c
    · exact .inl gone
    · have linking := reached_linking reached
      have free := contained.freed c reached
      rw [erased.small low (by simp only [copyEntries, Linking] at *; omega), if_neg gone] at free
      exact .inr free

theorem Erased.contained (harmless : Harmless disk entry) : Contained disk disk' entry := by
  constructor
  case freed =>
    intro c reached
    have linking := reached_linking reached
    rw [erased.small low (by simp only [copyEntries, Linking] at *; omega)]
    by_cases gone : Erases (met disk (startOf disk entry)) c
    · rw [if_pos gone]
    · rw [if_neg gone]
      exact (harmless.rest c reached).resolve_left gone
  case others =>
    intro c below away copy first
    have unmet : c ∉ met disk (startOf disk entry) := fun member => away (met_reached member)
    have copies : copy = 0 ∨ copy = 1 := by omega
    rcases copies with rfl | rfl
    · rw [erased.small low (by omega), if_neg fun gone => gone.elim unmet fun above => by omega]
    · rw [fatEntry_alias, fatEntry_alias, erased.small low (by omega)]
      by_cases gone : Erases (met disk (startOf disk entry)) (c + copyEntries)
      · rw [if_pos gone]
        rcases gone with member | ⟨-, member⟩
        · rcases harmless.mirror _ member (Nat.le_add_left _ _) with reached | zero
          · rw [Nat.add_sub_cancel] at reached
            exact absurd reached away
          · exact zero.symm
        · rw [Nat.add_sub_cancel] at member
          exact absurd member unmet
      · rw [if_neg gone]
  case outside =>
    intro a other there
    have same : mark disk entry a = disk a := Function.update_of_ne other _ _
    rw [erased.kept a, same]
    intro c member copy first
    rw [Erased.putFat_byte floppy copy c 0 same, same]
    by_cases touched : a = fatAddr floppy copy c ∨ a = fatAddr floppy copy c + 1
    · obtain ⟨rfl, above⟩ :=
        erase_outside first (reached_linking (met_reached member)) there touched
      exact harmless.root c member above a other
    · rw [not_or] at touched
      exact putFat_kept _ _ _ _ _ touched.1 touched.2

end Deleted

section Call

variable {faults : Faults} (reliable : Reliable faults)

theorem View.findSlot_inside {v : View} {norm : List Byte} {n k i : Nat} {free : Option Nat}
    (found : v.findSlot norm n k free = some (i, true)) : i < k + n := by
  induction n generalizing k free with
  | zero => cases free <;> simp [View.findSlot] at found
  | succ n ih =>
    rw [View.findSlot] at found
    split at found
    next => cases free <;> simp at found
    next =>
      split at found
      next =>
        have bound := ih found
        omega
      next =>
        split at found
        next =>
          cases found
          omega
        next =>
          have bound := ih found
          omega

include reliable

theorem dirFindSlot_inside {name : List Byte} {s : Io} {slot : Slot}
    (found : (dirFindSlot (device faults) floppy (normName name) s).1 = some slot)
    (existed : slot.existed = true) : ∃ k, k < 16 * floppy.rootSectors ∧
    slot = slotOf floppy k true := by
  obtain ⟨s₁, searched, -⟩ := dirFindSlot_ok (normName_length name) floppy_geometry reliable s
  rw [searched, Option.map_eq_some_iff] at found
  obtain ⟨⟨k, there⟩, chosen, rfl⟩ := found
  obtain rfl : there = true := existed
  have inside := View.findSlot_inside chosen
  exact ⟨k, by omega, rfl⟩

theorem fatDelete_erases {name : List Byte} {s : Io} {slot : Slot}
    (found : (dirFindSlot (device faults) floppy (normName name) s).1 = some slot)
    (existed : slot.existed = true) :
    ∃ s', fatDelete (device faults) floppy name s = (true, s') ∧
      512 * floppy.rootLba ≤ 512 * slot.lba + slot.off ∧
      Erased (mark s.disk (512 * slot.lba + slot.off)) s'.disk
        (met s.disk (startOf s.disk (512 * slot.lba + slot.off))) := by
  obtain ⟨k, inside, rfl⟩ := dirFindSlot_inside reliable found existed
  obtain ⟨s₁, searched, disk₁⟩ := dirFindSlot_ok (normName_length name) floppy_geometry reliable s
  obtain ⟨s₂, loaded, disk₂, buf, -⟩ := loadSlot_ok floppy_geometry reliable inside true s₁
  rw [disk₁] at disk₂ buf
  have entry : 512 * floppy.rootLba ≤
      512 * (slotOf floppy k true).lba + (slotOf floppy k true).off := by
    simp only [slotOf]
    omega
  obtain ⟨s₃, stored, disk₃⟩ := storeSecbuf_good
    (s := { s₂ with secbuf := Function.update s₂.secbuf (slotOf floppy k true).off 0xE5 })
    (reliable.good (show (slotOf floppy k true).lba < diskSectors from floppy_geometry.slot_lt inside))
  have marked : s₃.disk = mark s.disk (512 * (slotOf floppy k true).lba + (slotOf floppy k true).off) := by
    rw [disk₃, mark]
    dsimp only
    rw [disk₂, buf, putSector_update _ _ _ (by simp only [slotOf]; omega), putSector_sectorOf]
  have start : u16Of s₂.secbuf ((slotOf floppy k true).off + 26) =
      startOf s.disk (512 * (slotOf floppy k true).lba + (slotOf floppy k true).off) := by
    simp only [u16Of, startOf, buf, sectorOf, Nat.add_assoc]
  have freed := fatFreeChain_erases reliable
    (startOf s.disk (512 * (slotOf floppy k true).lba + (slotOf floppy k true).off)) s₃
  rw [marked, met_mark entry] at freed
  refine ⟨_, ?_, entry, freed⟩
  have there : (!(slotOf floppy k true).existed) = false := rfl
  rw [searched] at found
  dsimp only at found
  have mounted : ¬ (!floppy.mounted) = true := by decide
  rw [fatDelete, if_neg mounted, searched, found]
  simp only [there, Bool.false_eq_true, if_false, loaded, start, stored]

/-- Deleting an existing name is done in fewer passes than the guard allows, and it is contained
exactly if the walk does no harm. -/
theorem fatDelete_contained_iff {name : List Byte} {s : Io} {slot : Slot}
    (found : (dirFindSlot (device faults) floppy (normName name) s).1 = some slot)
    (existed : slot.existed = true) :
    (∀ c t n, 0xFF0 < n →
      freeChainFrom (device faults) floppy n c t = fatFreeChain (device faults) floppy c t) ∧
      ∃ s', fatDelete (device faults) floppy name s = (true, s') ∧
        (Contained s.disk s'.disk (512 * slot.lba + slot.off) ↔
          Harmless s.disk (512 * slot.lba + slot.off)) := by
  refine ⟨fun c t => freeChainFrom_settles reliable c t, ?_⟩
  obtain ⟨s', call, low, erased⟩ := fatDelete_erases reliable found existed
  exact ⟨s', call, erased.harmless low, erased.contained low⟩

end Call

deriving instance DecidableEq for Slot

def strayLink : Nat → Byte := fun a => if a = 516 ∨ a = 5124 then 0x0C else 0

def strayIo : Io := { blankIo with
  disk := putEntry (putEntry strayLink 9728 (newEntry (normName [0x42]) 0 0)) 9760
    (newEntry (normName [0x41]) 2 1) }

def strayDelete : Bool × Io := fatDelete (device noFaults) floppy [0x41] strayIo

theorem strayDelete_other : strayDelete.2.disk 9728 = 0x00 ∧ strayIo.disk 9728 = 0x42 := by
  decide +kernel

/-- The other file goes with it. -/
theorem fatDelete_spills : ¬ ∀ (faults : Faults) (_ : Reliable faults) (name : List Byte) (s : Io) (slot : Slot),
    (dirFindSlot (device faults) floppy (normName name) s).1 = some slot → slot.existed = true →
      ∃ s', fatDelete (device faults) floppy name s = (true, s') ∧
        Contained s.disk s'.disk (512 * slot.lba + slot.off) := by
  intro always
  obtain ⟨s', call, contained⟩ := always noFaults noFaults_reliable [0x41] strayIo
    { lba := 19, off := 32, existed := true } (by decide +kernel) rfl
  have state : strayDelete.2 = s' := by rw [strayDelete, call]
  have kept := contained.outside 9728 (by decide) (.inr (by decide))
  rw [← state, strayDelete_other.1, strayDelete_other.2] at kept
  exact absurd kept (by decide)

def soundIo : Io := { blankIo with
  disk := putEntry (fun a => if a = 515 ∨ a = 5123 then 0xFF else if a = 516 ∨ a = 5124 then 0x0F else 0) 9728
    (newEntry (normName [0x41]) 2 1) }

theorem soundIo_slot : (dirFindSlot (device noFaults) floppy (normName [0x41]) soundIo).1 =
    some { lba := 19, off := 0, existed := true } := by
  decide +kernel

theorem fatDelete_contained_sound :
    ∃ s', fatDelete (device noFaults) floppy [0x41] soundIo = (true, s') ∧
      (Contained soundIo.disk s'.disk 9728 ↔ Harmless soundIo.disk 9728) :=
  (fatDelete_contained_iff noFaults_reliable soundIo_slot rfl).2

end NovaKernel
