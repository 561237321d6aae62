import NovaKernel.FatSpec
import Mathlib.Data.List.GetD

set_option autoImplicit false

namespace NovaKernel

theorem normName_length (name : List Byte) : (normName name).length = 11 := by
  have base : ((name.take 8).takeWhile (· ≠ 0x2E)).length ≤ 8 :=
    Nat.le_trans (List.takeWhile_prefix _).length_le (by rw [List.length_take]; omega)
  simp only [normName, List.length_append, List.length_map, List.length_replicate]
  split
  · split
    · simp only [List.length_take]
      omega
    · simp only [List.length_nil]
      omega
  · simp only [List.length_nil]
    omega

namespace View

def live (v : View) (k : Nat) : Bool :=
  v.dir k 0 != 0x00 && v.dir k 0 != 0xE5 && v.dir k 11 != 0x0F

def name (v : View) (k : Nat) : List Byte := (List.range 11).map (v.dir k)

def start (v : View) (k : Nat) : Nat := u16Of (v.dir k) 26

def size (v : View) (k : Nat) : Nat := u32Of (v.dir k) 28

-- The slots `k .. k + n` up to the end mark.
def find (v : View) (norm : List Byte) : Nat → Nat → Option Nat
  | 0, _ => none
  | n + 1, k =>
    if v.dir k 0 = 0x00 then none
    else if v.live k && v.name k == norm then some k
    else find v norm n (k + 1)

-- The slot of the name, or else the first free one.
def findSlot (v : View) (norm : List Byte) : Nat → Nat → Option Nat → Option (Nat × Bool)
  | 0, _, free => free.map (·, false)
  | n + 1, k, free =>
    if v.dir k 0 = 0x00 then (free.or (some k)).map (·, false)
    else if v.dir k 0 = 0xE5 then findSlot v norm n (k + 1) (free.or (some k))
    else if v.live k && v.name k == norm then some (k, true)
    else findSlot v norm n (k + 1) free

end View

theorem View.live_iff {v : View} {k : Nat} :
    v.live k = true ↔ v.dir k 0 ≠ 0x00 ∧ v.dir k 0 ≠ 0xE5 ∧ v.dir k 11 ≠ 0x0F := by
  simp only [View.live, Bool.and_eq_true, bne_iff_ne, and_assoc]

theorem dirMatch_iff {e : Nat → Byte} {norm : List Byte} (long : norm.length = 11) :
    dirMatch e norm = ((List.range 11).map e == norm) := by
  rw [Bool.eq_iff_iff, beq_iff_eq, dirMatch, List.all_eq_true]
  constructor
  · intro all
    refine List.ext_getElem (by rw [List.length_map, List.length_range, long]) fun i low low' => ?_
    rw [List.length_map, List.length_range] at low
    have byte := all i (List.mem_range.mpr low)
    rw [beq_iff_eq, List.getD_eq_getElem _ _ low'] at byte
    rw [List.getElem_map, List.getElem_range, byte]
  · intro same i member
    have low := List.mem_range.mp member
    rw [beq_iff_eq, ← same, List.getD_eq_getElem _ _ (by simpa using low), List.getElem_map,
      List.getElem_range]

section Scans

variable {vol : Volume} {v : View} {norm : List Byte} (long : norm.length = 11)

def HoldsSector (v : View) (i : Nat) (buf : Sector) : Prop :=
  ∀ m < 16, ∀ j < 32, buf (32 * m + j) = v.dir (16 * i + m) j

variable (vol) in
theorem holds_sector (s : Io) {i : Nat} (inside : i < vol.rootSectors) :
    HoldsSector (view vol s.disk) i (sectorOf s.disk (vol.rootLba + i)) := by
  intro m first j low
  have place : 512 * (vol.rootLba + i) + (32 * m + j) = slotAddr vol (16 * i + m) + j := by
    simp only [slotAddr]
    omega
  simp only [sectorOf, view, place]
  rw [if_pos ⟨by omega, low⟩]

include long

theorem holds_match {i m : Nat} {buf : Sector} (holds : HoldsSector v i buf) (first : m < 16) :
    dirMatch (entryAt buf (32 * m)) norm = (v.name (16 * i + m) == norm) := by
  have bytes : (List.range 11).map (entryAt buf (32 * m)) = v.name (16 * i + m) :=
    List.map_congr_left fun j member =>
      holds m first j (Nat.lt_trans (List.mem_range.mp member) (by decide))
  rw [dirMatch_iff long, bytes]

theorem scanEntries_spec {i : Nat} {buf : Sector} (holds : HoldsSector v i buf) (rest n m : Nat)
    (total : m + n = 16) :
    (∃ k < 16, scanEntries norm buf n (32 * m) = .entry (32 * k) ∧
        v.find norm (n + rest) (16 * i + m) = some (16 * i + k)) ∨
      (scanEntries norm buf n (32 * m) = .endMark ∧ v.find norm (n + rest) (16 * i + m) = none) ∨
      (scanEntries norm buf n (32 * m) = .more ∧
        v.find norm (n + rest) (16 * i + m) = v.find norm rest (16 * i + 16)) := by
  induction n generalizing m with
  | zero =>
    obtain rfl : m = 16 := by omega
    exact .inr (.inr ⟨rfl, by rw [Nat.zero_add]⟩)
  | succ n ih =>
    have first := holds m (by omega) 0 (by decide)
    have attr := holds m (by omega) 11 (by decide)
    rw [Nat.add_zero] at first
    have step : n + 1 + rest = n + rest + 1 := by omega
    have later := ih (m + 1) (by omega)
    rw [Nat.mul_succ, ← Nat.add_assoc] at later
    rw [step, scanEntries, View.find, first, attr, holds_match long holds (by omega)]
    by_cases ended : v.dir (16 * i + m) 0 = 0x00
    · rw [if_pos ended, if_pos ended]
      exact .inr (.inl ⟨rfl, rfl⟩)
    · rw [if_neg ended, if_neg ended]
      by_cases skipped : v.dir (16 * i + m) 0 = 0xE5 ∨ v.dir (16 * i + m) 11 = 0x0F
      · have dead : v.live (16 * i + m) = false := by
          rw [Bool.eq_false_iff, Ne, View.live_iff]
          exact fun alive => skipped.elim alive.2.1 alive.2.2
        rw [if_pos skipped, dead, Bool.false_and, if_neg (by simp)]
        exact later
      · have alive : v.live (16 * i + m) = true := by
          rw [not_or] at skipped
          exact View.live_iff.mpr ⟨ended, skipped⟩
        rw [if_neg skipped, alive, Bool.true_and]
        by_cases match' : (v.name (16 * i + m) == norm) = true
        · rw [if_pos match', if_pos match']
          exact .inl ⟨m, by omega, rfl, rfl⟩
        · rw [if_neg match', if_neg match']
          exact later

theorem dirLocate_ok {faults : Faults} (geo : Geometry vol) (reliable : Reliable faults) (n i : Nat)
    (total : i + n = vol.rootSectors) (s : Io) :
    ∃ s', dirLocate (device faults) vol norm n i s =
        (((view vol s.disk).find norm (16 * n) (16 * i)).map fun k => 32 * (k % 16), s') ∧
      s'.disk = s.disk ∧
      ∀ k, (view vol s.disk).find norm (16 * n) (16 * i) = some k →
        ∀ j < 32, s'.secbuf (32 * (k % 16) + j) = (view vol s.disk).dir k j := by
  induction n generalizing i s with
  | zero => exact ⟨s, rfl, rfl, fun k none' => by simp [View.find] at none'⟩
  | succ n ih =>
    have volume := geo.volume
    have area := geo.area
    obtain ⟨s₁, loaded, disk, buf⟩ := loadSecbuf_good (s := s)
      (reliable.good (show vol.rootLba + i < diskSectors by omega))
    have holds := holds_sector vol s (show i < vol.rootSectors by omega)
    rw [← buf] at holds
    have scanned := scanEntries_spec long holds (16 * n) 16 0 (by decide)
    rw [Nat.mul_zero, Nat.add_zero, ← Nat.mul_succ, Nat.succ_eq_one_add, Nat.add_comm 1,
      show 16 + 16 * n = 16 * (n + 1) by omega] at scanned
    simp only [dirLocate, loaded]
    rcases scanned with ⟨k, first, scan, found⟩ | ⟨scan, none'⟩ | ⟨scan, more⟩
    · refine ⟨s₁, ?_, disk, ?_⟩
      · have place : (16 * i + k) % 16 = k := by omega
        rw [scan, found]
        simp only [Option.map_some, place]
      · intro k' same j low
        obtain rfl := Option.some.inj (found.symm.trans same)
        have place : (16 * i + k) % 16 = k := by omega
        rw [place]
        exact holds k first j low
    · refine ⟨s₁, by rw [scan, none']; rfl, disk, fun k some' => ?_⟩
      rw [none'] at some'
      cases some'
    · obtain ⟨s', call, disk', bytes⟩ := ih (i + 1) (by omega) s₁
      rw [disk, Nat.mul_add] at call bytes
      rw [scan, more]
      exact ⟨s', call, disk'.trans disk, bytes⟩

end Scans

end NovaKernel
