import NovaKernel.FatAccess

set_option autoImplicit false

namespace NovaKernel

def halfStored (c x old : Nat) : Nat :=
  if c % 2 = 1 then x % 16 + 16 * (old / 16) else x % 256 + 256 * (old / 256)

theorem entryOf_halfStored (c x : Nat) (lo hi : Byte) :
    entryOf c (entryLo c x lo) hi = halfStored c x (entryOf c lo hi) := by
  have low := lo.isLt
  rw [entryOf_half, halfStored]
  rcases Nat.mod_two_eq_zero_or_one c with even | odd
  · rw [if_neg (by omega), if_neg (by omega), entryOf_even even]
    omega
  · rw [if_pos odd, if_pos odd, entryOf_odd odd]
    omega

theorem fatEntry_ne {vol : Volume} {disk disk' : Nat → Byte} {copy c : Nat}
    (kept : ∀ a, a ≠ fatAddr vol copy c → a ≠ fatAddr vol copy c + 1 → disk' a = disk a)
    -- Neighbours see the nibble that is not theirs change.
    (before : ∀ e lo, e % 2 = 0 → e + 1 = c →
      entryOf e lo (disk' (fatAddr vol copy c)) = entryOf e lo (disk (fatAddr vol copy c)))
    (after : ∀ hi, c % 2 = 0 →
      entryOf (c + 1) (disk' (fatAddr vol copy c + 1)) hi =
        entryOf (c + 1) (disk (fatAddr vol copy c + 1)) hi)
    {e : Nat} (other : e ≠ c) : fatEntry vol disk' copy e = fatEntry vol disk copy e := by
  have place : ∀ n, fatAddr vol copy n = 512 * (vol.fatLba + copy * vol.fatSectors) + (n + n / 2) :=
    fun n => rfl
  by_cases left : e % 2 = 0 ∧ e + 1 = c
  · have shared : fatAddr vol copy e + 1 = fatAddr vol copy c := by
      rw [place, place]
      omega
    rw [fatEntry, fatEntry, shared, before e _ left.1 left.2,
      kept (fatAddr vol copy e) (by omega) (by omega)]
  · by_cases right : c % 2 = 0 ∧ e = c + 1
    · obtain ⟨even, rfl⟩ := right
      have shared : fatAddr vol copy (c + 1) = fatAddr vol copy c + 1 := by
        rw [place, place]
        omega
      rw [fatEntry, fatEntry, shared, after _ even,
        kept (fatAddr vol copy c + 1 + 1) (by omega) (by omega)]
    · have apart := place e
      have apart' := place c
      rw [fatEntry, fatEntry, kept _ (by omega) (by omega), kept _ (by omega) (by omega)]

section Stores

variable {vol : Volume} (geo : Geometry vol) {c : Nat}

theorem putFat_kept (vol : Volume) (copy c x : Nat) (disk : Nat → Byte) {a : Nat}
    (first : a ≠ fatAddr vol copy c) (second : a ≠ fatAddr vol copy c + 1) :
    putFat vol copy c x disk a = disk a := by
  simp only [putFat]
  rw [Function.update_of_ne second, Function.update_of_ne first]

theorem putFat_first (vol : Volume) (copy c x : Nat) (disk : Nat → Byte) :
    putFat vol copy c x disk (fatAddr vol copy c) = entryLo c x (disk (fatAddr vol copy c)) := by
  simp only [putFat]
  rw [Function.update_of_ne (Nat.succ_ne_self _).symm, Function.update_self]

theorem putFat_second (vol : Volume) (copy c x : Nat) (disk : Nat → Byte) :
    putFat vol copy c x disk (fatAddr vol copy c + 1) =
      entryHi c x (disk (fatAddr vol copy c + 1)) := by
  simp only [putFat]
  rw [Function.update_self]

theorem putHalf_kept (vol : Volume) (copy c x : Nat) (disk : Nat → Byte) {a : Nat}
    (first : a ≠ fatAddr vol copy c) : putHalf vol copy c x disk a = disk a :=
  Function.update_of_ne first _ _

theorem putHalf_first (vol : Volume) (copy c x : Nat) (disk : Nat → Byte) :
    putHalf vol copy c x disk (fatAddr vol copy c) = entryLo c x (disk (fatAddr vol copy c)) :=
  Function.update_self _ _ _

theorem fatEntry_putFat (vol : Volume) (copy c x : Nat) (disk : Nat → Byte) (e : Nat) :
    fatEntry vol (putFat vol copy c x disk) copy e =
      if e = c then x % 4096 else fatEntry vol disk copy e := by
  by_cases same : e = c
  · rw [if_pos same, same, fatEntry, putFat_first, putFat_second, entryOf_stored]
  · rw [if_neg same]
    refine fatEntry_ne (fun a => putFat_kept vol copy c x disk) ?_ ?_ same
    · rintro e lo even rfl
      rw [putFat_first, entryOf_before even]
    · intro hi even
      rw [putFat_second, entryOf_after even]

theorem fatEntry_putHalf (vol : Volume) (copy c x : Nat) (disk : Nat → Byte) (e : Nat) :
    fatEntry vol (putHalf vol copy c x disk) copy e =
      if e = c then halfStored c x (fatEntry vol disk copy c) else fatEntry vol disk copy e := by
  by_cases same : e = c
  · rw [if_pos same, same, fatEntry, putHalf_first, putHalf_kept _ _ _ _ _ (Nat.succ_ne_self _),
      entryOf_halfStored, fatEntry]
  · rw [if_neg same]
    refine fatEntry_ne (fun a first _ => putHalf_kept vol copy c x disk first) ?_ ?_ same
    · rintro e lo even rfl
      rw [putHalf_first, entryOf_before even]
    · intro hi _
      rw [putHalf_kept _ _ _ _ _ (Nat.succ_ne_self _)]

include geo

theorem view_fat (disk disk' : Nat → Byte) (kept : ∀ a, 512 * vol.rootLba ≤ a → disk' a = disk a) :
    (view vol disk').dir = (view vol disk).dir ∧ (view vol disk').data = (view vol disk).data := by
  have area := geo.area
  constructor
  · funext k j
    simp only [view]
    rw [kept _ (by rw [slotAddr]; omega)]
  · funext c j
    simp only [view]
    rw [kept _ (by rw [dataAddr]; omega)]

theorem view_putFat_first (inside : Cluster vol c) {x : Nat} (small : x < 4096)
    (disk : Nat → Byte) :
    view vol (putFat vol 0 c x disk) = (view vol disk).setLink c x := by
  have below := geo.fatAddr_lt (show 0 < 2 by decide) inside
  obtain ⟨dir, data⟩ := view_fat geo disk (putFat vol 0 c x disk) fun a above =>
    putFat_kept vol 0 c x disk (by omega) (by omega)
  refine View.ext ?_ dir data
  funext e
  rw [View.setLink_link]
  by_cases same : e = c
  · rw [same, Function.update_self, view]
    simp only [if_pos inside, fatEntry_putFat, if_true, Nat.mod_eq_of_lt small]
  · rw [Function.update_of_ne same]
    simp only [view, fatEntry_putFat, if_neg same]

theorem view_putHalf_first (inside : Cluster vol c) (x : Nat) (disk : Nat → Byte) :
    view vol (putHalf vol 0 c x disk) =
      (view vol disk).setLink c (halfStored c x ((view vol disk).link c)) := by
  have below := geo.fatAddr_lt (show 0 < 2 by decide) inside
  obtain ⟨dir, data⟩ := view_fat geo disk (putHalf vol 0 c x disk) fun a above =>
    putHalf_kept vol 0 c x disk (by omega)
  refine View.ext ?_ dir data
  funext e
  rw [View.setLink_link]
  by_cases same : e = c
  · rw [same, Function.update_self]
    simp only [view, if_pos inside, fatEntry_putHalf, if_true]
  · rw [Function.update_of_ne same]
    simp only [view, fatEntry_putHalf, if_neg same]

theorem view_mirror (inside : Cluster vol c) {disk disk' : Nat → Byte}
    (kept : ∀ a, a ≠ fatAddr vol 1 c → a ≠ fatAddr vol 1 c + 1 → disk' a = disk a) :
    view vol disk' = view vol disk := by
  have below := geo.fatAddr_lt (show 1 < 2 by decide) inside
  obtain ⟨dir, data⟩ := view_fat geo disk disk' fun a above =>
    kept a (by omega) (by omega)
  refine View.ext ?_ dir data
  funext e
  simp only [view]
  by_cases member : Cluster vol e
  · have bound := geo.entry_lt member
    have place : fatAddr vol 0 e = 512 * vol.fatLba + (e + e / 2) := by
      simp only [fatAddr, Nat.zero_mul, Nat.add_zero]
    have place' : fatAddr vol 1 c = 512 * (vol.fatLba + vol.fatSectors) + (c + c / 2) := by
      simp only [fatAddr, Nat.one_mul]
    rw [if_pos member, if_pos member, fatEntry, fatEntry, kept _ (by omega) (by omega),
      kept _ (by omega) (by omega)]
  · rw [if_neg member, if_neg member]

omit geo in
theorem copiesAgree_putFat (bound : c + c / 2 + 1 < 512 * vol.fatSectors) (x : Nat)
    {disk : Nat → Byte} (agree : CopiesAgree vol disk) :
    CopiesAgree vol (putFat vol 1 c x (putFat vol 0 c x disk)) := by
  have place : fatAddr vol 0 c = 512 * vol.fatLba + (c + c / 2) := by
    simp only [fatAddr, Nat.zero_mul, Nat.add_zero]
  have place' : fatAddr vol 1 c = 512 * (vol.fatLba + vol.fatSectors) + (c + c / 2) := by
    simp only [fatAddr, Nat.one_mul]
  have next : 512 * vol.fatLba + (c + c / 2 + 1) = fatAddr vol 0 c + 1 := by
    rw [place, ← Nat.add_assoc (512 * vol.fatLba) (c + c / 2)]
  have next' : 512 * (vol.fatLba + vol.fatSectors) + (c + c / 2 + 1) = fatAddr vol 1 c + 1 := by
    rw [place', ← Nat.add_assoc _ (c + c / 2)]
  have first := agree (c + c / 2) (by omega)
  have second := agree (c + c / 2 + 1) (by omega)
  rw [next, next'] at second
  rw [← place, ← place'] at first
  intro o within'
  rw [putFat_kept vol 1 c x _ (by omega) (by omega)]
  by_cases low : o = c + c / 2
  · rw [low, ← place, ← place', putFat_first, putFat_first,
      putFat_kept vol 0 c x _ (by omega) (by omega), first]
  · by_cases high : o = c + c / 2 + 1
    · rw [high, next, next', putFat_second, putFat_second,
        putFat_kept vol 0 c x _ (by omega) (by omega), second]
    · rw [putFat_kept vol 0 c x _ (by omega) (by omega),
        putFat_kept vol 1 c x _ (by omega) (by omega),
        putFat_kept vol 0 c x _ (by omega) (by omega)]
      exact agree o within'

end Stores

end NovaKernel
