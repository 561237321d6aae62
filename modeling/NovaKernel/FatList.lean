import NovaKernel.FatDir
import NovaKernel.Floppy

set_option autoImplicit false

namespace NovaKernel

-- "BASE.EXT" of an entry, each part up to its first space, as the C string it is copied to.
def listName (e : Nat → Byte) : List Byte :=
  let base := ((List.range 8).map e).takeWhile (· ≠ 0x20)
  let ext := if e 8 ≠ 0x20 then 0x2E :: ((List.range 3).map fun i => e (8 + i)).takeWhile (· ≠ 0x20) else []
  ((base ++ ext).takeWhile (· ≠ 0x00)).take 15

def listEntry (e : Nat → Byte) : List Byte × Nat := (listName e, u32Of e 28)

-- The last `n` entries of the sector in `buf`; the first result is whether the end mark is met.
def listEntries (max : Nat) (buf : Nat → Byte) :
    Nat → Nat → List (List Byte × Nat) → Bool × List (List Byte × Nat)
  | 0, _, out => (false, out)
  | n + 1, off, out =>
    if out.length < max then
      if buf off = 0x00 then (true, out)
      else if buf off = 0xE5 then listEntries max buf n (off + 32) out
      else if buf (off + 11) = 0x0F then listEntries max buf n (off + 32) out
      else if buf (off + 11) &&& 0x08 ≠ 0 then listEntries max buf n (off + 32) out
      else listEntries max buf n (off + 32) (out ++ [listEntry (entryAt buf off)])
    else (false, out)

section Calls

variable (ata : Ata) (vol : Volume)

def listSectors (max : Nat) : Nat → Nat → List (List Byte × Nat) → Io → List (List Byte × Nat) × Io
  | 0, _, out, s => (out, s)
  | n + 1, i, out, s =>
    if out.length < max then
      match loadSecbuf ata (vol.rootLba + i) s with
      | (false, s) => (out, s)
      | (true, s) =>
        match listEntries max s.secbuf 16 0 out with
        | (true, out) => (out, s)
        | (false, out) => listSectors max n (i + 1) out s
    else (out, s)

def fatList (max : Nat) (s : Io) : Option (List (List Byte × Nat)) × Io :=
  if !vol.mounted then (none, s)
  else
    let (out, s) := listSectors ata vol max vol.rootSectors 0 [] s
    (some out, s)

end Calls

namespace View

def label (v : View) (k : Nat) : Bool := v.dir k 11 &&& 0x08 != 0

def listed (v : View) : Nat → Nat → List Nat
  | 0, _ => []
  | n + 1, k =>
    if v.dir k 0 = 0x00 then []
    else if v.live k && !v.label k then k :: listed v n (k + 1)
    else listed v n (k + 1)

theorem mem_listed {v : View} {n k i : Nat} : i ∈ v.listed n k ↔
    (k ≤ i ∧ i < k + n) ∧ (∀ j, k ≤ j → j ≤ i → v.dir j 0 ≠ 0x00) ∧ v.live i = true ∧
      v.label i = false := by
  induction n generalizing k with
  | zero =>
    refine ⟨fun member => absurd member (by simp [listed]), fun ⟨bounds, _⟩ => ?_⟩
    omega
  | succ n ih =>
    rw [listed]
    by_cases ended : v.dir k 0 = 0x00
    · rw [if_pos ended]
      refine ⟨fun member => absurd member List.not_mem_nil, fun ⟨bounds, marks, _⟩ => ?_⟩
      exact absurd ended (marks k (Nat.le_refl k) bounds.1)
    · have later : (k + 1 ≤ i ∧ i < k + 1 + n) ∧ (∀ j, k + 1 ≤ j → j ≤ i → v.dir j 0 ≠ 0x00) ↔
          (k + 1 ≤ i ∧ i < k + (n + 1)) ∧ (∀ j, k ≤ j → j ≤ i → v.dir j 0 ≠ 0x00) := by
        constructor
        · refine fun ⟨bounds, marks⟩ => ⟨by omega, fun j low high => ?_⟩
          rcases Nat.eq_or_lt_of_le low with rfl | more
          · exact ended
          · exact marks j more high
        · exact fun ⟨bounds, marks⟩ => ⟨by omega, fun j low high => marks j (by omega) high⟩
      have skip : i ∈ v.listed n (k + 1) ↔
          ((k + 1 ≤ i ∧ i < k + (n + 1)) ∧ ∀ j, k ≤ j → j ≤ i → v.dir j 0 ≠ 0x00) ∧
            v.live i = true ∧ v.label i = false := by
        rw [ih, ← later]
        simp only [and_assoc]
      rw [if_neg ended]
      by_cases shown : (v.live k && !v.label k) = true
      · rw [if_pos shown, List.mem_cons, skip]
        constructor
        · rintro (rfl | ⟨⟨bounds, marks⟩, rest⟩)
          · refine ⟨⟨Nat.le_refl _, by omega⟩, fun j low high => ?_, by simpa using shown⟩
            obtain rfl : j = i := by omega
            exact ended
          · exact ⟨⟨by omega, bounds.2⟩, marks, rest⟩
        · rintro ⟨bounds, marks, rest⟩
          rcases Nat.eq_or_lt_of_le bounds.1 with rfl | more
          · exact .inl rfl
          · exact .inr ⟨⟨⟨more, bounds.2⟩, marks⟩, rest⟩
      · rw [if_neg shown, skip]
        constructor
        · exact fun ⟨⟨bounds, marks⟩, rest⟩ => ⟨⟨by omega, bounds.2⟩, marks, rest⟩
        · rintro ⟨bounds, marks, rest⟩
          rcases Nat.eq_or_lt_of_le bounds.1 with rfl | more
          · exact absurd (by simpa using rest) shown
          · exact ⟨⟨⟨more, bounds.2⟩, marks⟩, rest⟩

theorem listed_nodup (v : View) (n k : Nat) : (v.listed n k).Nodup := by
  induction n generalizing k with
  | zero => exact List.nodup_nil
  | succ n ih =>
    rw [listed]
    split
    next => exact List.nodup_nil
    next =>
      split
      next =>
        refine List.nodup_cons.mpr ⟨fun member => ?_, ih (k + 1)⟩
        have bounds := (mem_listed.mp member).1
        omega
      next => exact ih (k + 1)

theorem listed_length (v : View) (n k : Nat) : (v.listed n k).length ≤ n := by
  induction n generalizing k with
  | zero => exact Nat.le_refl 0
  | succ n ih =>
    have later := ih (k + 1)
    rw [listed]
    split
    next => exact Nat.zero_le _
    next =>
      split
      next =>
        rw [List.length_cons]
        omega
      next => omega

end View

section Spec

variable {faults : Faults} {vol : Volume} {v : View} {max : Nat}

theorem listEntry_congr {e e' : Nat → Byte} (same : ∀ j < 32, e' j = e j) :
    listEntry e' = listEntry e := by
  have base : (List.range 8).map e' = (List.range 8).map e :=
    List.map_congr_left fun j member => same j (by have := List.mem_range.mp member; omega)
  have ext : ((List.range 3).map fun i => e' (8 + i)) = (List.range 3).map fun i => e (8 + i) :=
    List.map_congr_left fun j member => same (8 + j) (by have := List.mem_range.mp member; omega)
  rw [listEntry, listEntry, listName, listName, base, ext, same 8 (by decide), u32Of, u32Of,
    same 28 (by decide), same (28 + 1) (by decide), same (28 + 2) (by decide),
    same (28 + 3) (by decide)]

def listing (v : View) (max : Nat) (out : List (List Byte × Nat)) (slots : List Nat) :
    List (List Byte × Nat) :=
  out ++ (slots.take (max - out.length)).map fun k => listEntry (v.dir k)

theorem listing_full {out : List (List Byte × Nat)} (full : ¬ out.length < max) (slots : List Nat) :
    listing v max out slots = out := by
  rw [listing, Nat.sub_eq_zero_of_le (Nat.le_of_not_lt full), List.take_zero, List.map_nil,
    List.append_nil]

theorem listing_cons {out : List (List Byte × Nat)} (more : out.length < max) (k : Nat)
    (slots : List Nat) :
    listing v max out (k :: slots) = listing v max (out ++ [listEntry (v.dir k)]) slots := by
  obtain ⟨left, here⟩ : ∃ left, max - out.length = left + 1 := ⟨max - out.length - 1, by omega⟩
  have after : max - (out ++ [listEntry (v.dir k)]).length = left := by
    rw [List.length_append, List.length_singleton]
    omega
  rw [listing, listing, here, after, List.take_succ_cons, List.map_cons, List.append_assoc,
    List.singleton_append]

variable (max) in
theorem listEntries_spec {i : Nat} {buf : Sector} (holds : HoldsSector v i buf) (rest n m : Nat)
    (total : m + n = 16) (out : List (List Byte × Nat)) :
    (∃ out', listEntries max buf n (32 * m) out = (true, out') ∧
        out' = listing v max out (v.listed (n + rest) (16 * i + m))) ∨
      ∃ out', listEntries max buf n (32 * m) out = (false, out') ∧
        listing v max out' (v.listed rest (16 * i + 16)) =
          listing v max out (v.listed (n + rest) (16 * i + m)) := by
  induction n generalizing m out with
  | zero =>
    obtain rfl : m = 16 := by omega
    exact .inr ⟨out, rfl, by rw [Nat.zero_add]⟩
  | succ n ih =>
    have inside : m < 16 := by omega
    have first := holds m inside 0 (by decide)
    have attr := holds m inside 11 (by decide)
    rw [Nat.add_zero] at first
    have entry : listEntry (entryAt buf (32 * m)) = listEntry (v.dir (16 * i + m)) :=
      listEntry_congr (holds m inside)
    have step : n + 1 + rest = n + rest + 1 := by omega
    have later := ih (m + 1) (by omega)
    rw [Nat.mul_succ, ← Nat.add_assoc] at later
    rw [listEntries, first, attr, entry]
    by_cases more : out.length < max
    · rw [if_pos more, step, View.listed]
      by_cases ended : v.dir (16 * i + m) 0 = 0x00
      · rw [if_pos ended, if_pos ended]
        exact .inl ⟨out, rfl, by simp [listing]⟩
      · rw [if_neg ended, if_neg ended]
        by_cases deleted : v.dir (16 * i + m) 0 = 0xE5
        · have dead : v.live (16 * i + m) = false := by simp [View.live, deleted]
          rw [if_pos deleted, dead, Bool.false_and, if_neg (by simp)]
          exact later out
        · rw [if_neg deleted]
          by_cases long : v.dir (16 * i + m) 11 = 0x0F
          · have dead : v.live (16 * i + m) = false := by simp [View.live, long]
            rw [if_pos long, dead, Bool.false_and, if_neg (by simp)]
            exact later out
          · have alive : v.live (16 * i + m) = true := View.live_iff.mpr ⟨ended, deleted, long⟩
            rw [if_neg long, alive, Bool.true_and]
            by_cases label : v.dir (16 * i + m) 11 &&& 0x08 ≠ 0
            · have marked : v.label (16 * i + m) = true := bne_iff_ne.mpr label
              rw [if_pos label, marked, if_neg (by simp)]
              exact later out
            · have plain : v.label (16 * i + m) = false := by simpa [View.label] using label
              rw [if_neg label, plain, Bool.not_false, if_pos rfl, listing_cons more]
              exact later _
    · rw [if_neg more]
      exact .inr ⟨out, rfl, by rw [listing_full more, listing_full more]⟩

variable (geo : Geometry vol) (reliable : Reliable faults)

include geo reliable

variable (max) in
theorem listSectors_ok (n i : Nat) (total : i + n = vol.rootSectors) (out : List (List Byte × Nat))
    (s : Io) :
    ∃ s', listSectors (device faults) vol max n i out s =
        (listing (view vol s.disk) max out ((view vol s.disk).listed (16 * n) (16 * i)), s') ∧
      s'.disk = s.disk := by
  induction n generalizing i out s with
  | zero => exact ⟨s, by simp [listSectors, View.listed, listing], rfl⟩
  | succ n ih =>
    have volume := geo.volume
    have area := geo.area
    rw [listSectors]
    by_cases more : out.length < max
    · obtain ⟨s₁, loaded, disk, buf⟩ := loadSecbuf_good (s := s)
        (reliable.good (show vol.rootLba + i < diskSectors by omega))
      have holds := holds_sector vol s (show i < vol.rootSectors by omega)
      rw [← buf] at holds
      have scanned := listEntries_spec max holds (16 * n) 16 0 (by decide) out
      rw [Nat.mul_zero, Nat.add_zero, show 16 + 16 * n = 16 * (n + 1) by omega] at scanned
      simp only [if_pos more, loaded]
      rcases scanned with ⟨out', scan, same⟩ | ⟨out', scan, same⟩
      · exact ⟨s₁, by simp only [scan, same], disk⟩
      · obtain ⟨s', call, disk'⟩ := ih (i + 1) (by omega) out' s₁
        rw [disk, Nat.mul_add, same] at call
        exact ⟨s', by simp only [scan, call], disk'.trans disk⟩
    · exact ⟨s, by rw [if_neg more, listing_full more], rfl⟩

variable (max) in
theorem fatList_ok (s : Io) :
    ∃ s', fatList (device faults) vol max s =
        (some ((((view vol s.disk).listed (16 * vol.rootSectors) 0).take max).map fun k =>
          listEntry ((view vol s.disk).dir k)), s') ∧
      s'.disk = s.disk := by
  obtain ⟨s', call, disk⟩ := listSectors_ok max geo reliable vol.rootSectors 0 (Nat.zero_add _) [] s
  rw [Nat.mul_zero] at call
  have mounted : (!vol.mounted) = false := by rw [geo.mounted]; rfl
  refine ⟨s', ?_, disk⟩
  simp only [fatList, mounted, call, Bool.false_eq_true, if_false, listing, List.nil_append,
    List.length_nil, Nat.sub_zero]

end Spec

end NovaKernel
