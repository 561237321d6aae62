import NovaKernel.FatDir
import NovaKernel.FatChains

set_option autoImplicit false

namespace NovaKernel

def slotPlace (vol : Volume) (k : Nat) : Nat × Nat := (vol.rootLba + k / 16, 32 * (k % 16))

def slotOf (vol : Volume) (k : Nat) (existed : Bool) : Slot where
  lba := vol.rootLba + k / 16
  off := 32 * (k % 16)
  existed := existed

theorem slotPlace_eq (vol : Volume) {i m : Nat} (first : m < 16) :
    slotPlace vol (16 * i + m) = (vol.rootLba + i, 32 * m) := by
  have sector : (16 * i + m) / 16 = i := by omega
  have place : (16 * i + m) % 16 = m := by omega
  rw [slotPlace, sector, place]

theorem freeSlot_eq (vol : Volume) (free : Option Nat) :
    freeSlot (free.map (slotPlace vol)) =
      (free.map (·, false)).map fun p => slotOf vol p.1 p.2 := by
  cases free <;> rfl

section Scans

variable {vol : Volume} {v : View} {norm : List Byte} (long : norm.length = 11)

include long

variable (vol) in
theorem scanSlots_spec {i : Nat} {buf : Sector} (holds : HoldsSector v i buf) (rest n m : Nat)
    (total : m + n = 16) (free : Option Nat) :
    (∃ found, scanSlots norm buf (vol.rootLba + i) n (32 * m) (free.map (slotPlace vol)) =
        .done (found.map fun p => slotOf vol p.1 p.2) ∧
        v.findSlot norm (n + rest) (16 * i + m) free = found) ∨
      ∃ free', scanSlots norm buf (vol.rootLba + i) n (32 * m) (free.map (slotPlace vol)) =
        .more (free'.map (slotPlace vol)) ∧
        v.findSlot norm (n + rest) (16 * i + m) free =
          v.findSlot norm rest (16 * i + 16) free' := by
  induction n generalizing m free with
  | zero =>
    obtain rfl : m = 16 := by omega
    exact .inr ⟨free, rfl, by rw [Nat.zero_add]⟩
  | succ n ih =>
    have inside : m < 16 := by omega
    have first := holds m inside 0 (by decide)
    have attr := holds m inside 11 (by decide)
    rw [Nat.add_zero] at first
    have step : n + 1 + rest = n + rest + 1 := by omega
    have later := fun free => ih (m + 1) (by omega) free
    rw [Nat.mul_succ, ← Nat.add_assoc] at later
    have here : (free.map (slotPlace vol)).or (some (vol.rootLba + i, 32 * m)) =
        (free.or (some (16 * i + m))).map (slotPlace vol) := by
      cases free with
      | none => exact congrArg some (slotPlace_eq vol inside).symm
      | some f => rfl
    rw [step, scanSlots, View.findSlot, first, attr, holds_match long holds inside]
    by_cases ended : v.dir (16 * i + m) 0 = 0x00
    · refine .inl ⟨_, ?_, rfl⟩
      rw [if_pos (.inr ended), if_pos ended, if_pos ended, here, freeSlot_eq]
    · rw [if_neg ended, if_neg ended]
      by_cases deleted : v.dir (16 * i + m) 0 = 0xE5
      · rw [if_pos (.inl deleted), if_pos deleted, here]
        exact later _
      · rw [if_neg (not_or.mpr ⟨deleted, ended⟩), if_neg deleted]
        by_cases skipped : v.dir (16 * i + m) 11 = 0x0F
        · have dead : v.live (16 * i + m) = false := by
            rw [Bool.eq_false_iff, Ne, View.live_iff]
            exact fun alive => alive.2.2 skipped
          rw [if_pos skipped, dead, Bool.false_and, if_neg (by simp)]
          exact later free
        · rw [if_neg skipped, View.live_iff.mpr ⟨ended, deleted, skipped⟩, Bool.true_and]
          by_cases match' : (v.name (16 * i + m) == norm) = true
          · refine .inl ⟨some (16 * i + m, true), ?_, by rw [if_pos match']⟩
            have sector : (16 * i + m) / 16 = i := by omega
            have place : (16 * i + m) % 16 = m := by omega
            rw [if_pos match', Option.map_some, slotOf, sector, place]
          · rw [if_neg match', if_neg match']
            exact later free

variable {faults : Faults} (geo : Geometry vol) (reliable : Reliable faults)

include geo reliable

theorem dirFindSlotFrom_ok (n i : Nat) (total : i + n = vol.rootSectors) (free : Option Nat)
    (s : Io) :
    ∃ s', dirFindSlotFrom (device faults) vol norm n i (free.map (slotPlace vol)) s =
        (((view vol s.disk).findSlot norm (16 * n) (16 * i) free).map fun p => slotOf vol p.1 p.2, s') ∧
      s'.disk = s.disk := by
  induction n generalizing i free s with
  | zero => exact ⟨s, congrArg (·, s) (freeSlot_eq vol free), rfl⟩
  | succ n ih =>
    have volume := geo.volume
    have area := geo.area
    obtain ⟨s₁, loaded, disk, buf⟩ := loadSecbuf_good (s := s)
      (reliable.good (show vol.rootLba + i < diskSectors by omega))
    have holds := holds_sector vol s (show i < vol.rootSectors by omega)
    rw [← buf] at holds
    have scanned := scanSlots_spec vol long holds (16 * n) 16 0 (by decide) free
    rw [Nat.mul_zero, Nat.add_zero, show 16 + 16 * n = 16 * (n + 1) by omega] at scanned
    simp only [dirFindSlotFrom, loaded]
    rcases scanned with ⟨found, scan, same⟩ | ⟨free', scan, same⟩
    · exact ⟨s₁, by rw [scan, same], disk⟩
    · obtain ⟨s', call, disk'⟩ := ih (i + 1) (by omega) free' s₁
      rw [disk, Nat.mul_add] at call
      exact ⟨s', by rw [scan, same]; exact call, disk'.trans disk⟩

theorem dirFindSlot_ok (s : Io) :
    ∃ s', dirFindSlot (device faults) vol norm s =
        (((view vol s.disk).findSlot norm (16 * vol.rootSectors) 0 none).map fun p => slotOf vol p.1 p.2, s') ∧
      s'.disk = s.disk :=
  dirFindSlotFrom_ok long geo reliable vol.rootSectors 0 (Nat.zero_add _) none s

end Scans

section Entries

variable {faults : Faults} {vol : Volume} (geo : Geometry vol) (reliable : Reliable faults)

include geo

theorem Geometry.slot_lt {k : Nat} (inside : k < 16 * vol.rootSectors) :
    vol.rootLba + k / 16 < diskSectors := by
  have volume := geo.volume
  have area := geo.area
  omega

include reliable

theorem loadSlot_ok {k : Nat} (inside : k < 16 * vol.rootSectors) (existed : Bool) (s : Io) :
    ∃ s', loadSecbuf (device faults) (slotOf vol k existed).lba s = (true, s') ∧ s'.disk = s.disk ∧
      s'.secbuf = sectorOf s.disk (slotOf vol k existed).lba ∧
      ∀ j < 32, s'.secbuf ((slotOf vol k existed).off + j) = (view vol s.disk).dir k j := by
  obtain ⟨s', loaded, disk, buf⟩ := loadSecbuf_good (s := s) (reliable.good (geo.slot_lt inside))
  refine ⟨s', loaded, disk, buf, fun j low => ?_⟩
  have place : 512 * (vol.rootLba + k / 16) + (32 * (k % 16) + j) = slotAddr vol k + j := by
    simp only [slotAddr]
    omega
  simp only [buf, sectorOf, slotOf, view, place]
  rw [if_pos ⟨inside, low⟩]

theorem storeSlot_ok {k : Nat} (inside : k < 16 * vol.rootSectors) (existed : Bool) {buf : Sector}
    {s : Io} {e : Nat → Byte} (loaded : buf = putEntry (sectorOf s.disk (slotOf vol k existed).lba)
      (slotOf vol k existed).off e) :
    ∃ s', storeSecbuf (device faults) (slotOf vol k existed).lba { s with secbuf := buf } =
      (true, s') ∧
      Becomes vol s s' ((view vol s.disk).setSlot k fun j => if j < 32 then e j else 0) := by
  obtain ⟨s', stored, disk⟩ := storeSecbuf_good (s := { s with secbuf := buf })
    (reliable.good (geo.slot_lt inside))
  refine ⟨s', stored, becomes_slot geo inside e (fun a outside => ?_) fun j low => ?_⟩
  · rw [disk, putSector]
    by_cases here : a / 512 = vol.rootLba + k / 16
    · have whole : 512 * (vol.rootLba + k / 16) + a % 512 = a := by omega
      have apart : ¬(32 * (k % 16) ≤ a % 512 ∧ a % 512 < 32 * (k % 16) + 32) := by
        simp only [slotAddr] at outside
        omega
      simp only [slotOf, here, if_true, loaded, putEntry, if_neg apart, sectorOf, whole]
    · exact if_neg here
  · have sector : (slotAddr vol k + j) / 512 = vol.rootLba + k / 16 := by
      simp only [slotAddr]
      omega
    have offset : (slotAddr vol k + j) % 512 = 32 * (k % 16) + j := by
      simp only [slotAddr]
      omega
    have within : 32 * (k % 16) ≤ 32 * (k % 16) + j ∧ 32 * (k % 16) + j < 32 * (k % 16) + 32 := by omega
    simp only [disk, putSector, slotOf, sector, if_true, loaded, putEntry, offset, if_pos within,
      Nat.add_sub_cancel_left]

theorem writeEntry_ok {k : Nat} (inside : k < 16 * vol.rootSectors) (existed : Bool)
    (norm : List Byte) (first len : Nat) (s : Io) :
    ∃ s', writeEntry (device faults) (slotOf vol k existed) norm first len s = (true, s') ∧
      Becomes vol s s' ((view vol s.disk).setSlot k fun j => if j < 32 then newEntry norm first len j else 0) := by
  obtain ⟨s₁, loaded, disk, buf, -⟩ := loadSlot_ok geo reliable inside existed s
  rw [← disk] at buf
  obtain ⟨s', stored, becomes⟩ := storeSlot_ok geo reliable inside existed (s := s₁)
    (e := newEntry norm first len) (congrArg (putEntry · _ _) buf)
  rw [disk] at becomes
  exact ⟨s', by simp only [writeEntry, loaded, stored], (Becomes.refl disk).trans becomes⟩

theorem loadStart_ok {k : Nat} (inside : k < 16 * vol.rootSectors) (existed : Bool) (s : Io) :
    ∃ s', loadSecbuf (device faults) (slotOf vol k existed).lba s = (true, s') ∧ s'.disk = s.disk ∧
      s'.secbuf = sectorOf s.disk (slotOf vol k existed).lba ∧
      u16Of s'.secbuf ((slotOf vol k existed).off + 26) = (view vol s.disk).start k := by
  obtain ⟨s', loaded, disk, buf, bytes⟩ := loadSlot_ok geo reliable inside existed s
  refine ⟨s', loaded, disk, buf, ?_⟩
  rw [u16Of, Nat.add_assoc, bytes 26 (by decide), bytes 27 (by decide)]
  rfl

end Entries

end NovaKernel
