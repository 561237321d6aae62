import NovaKernel.Lib.Arena
import Mathlib.Logic.Function.Basic

set_option autoImplicit false

namespace NovaKernel

open Arena

-- The kernel's own memory, heap and stacks: the dword at each 4-aligned address.
abbrev Ram := Nat → Nat

def heapStart : Nat := 0x300000
def heapEnd : Nat := 0x400000

-- `struct block` is three dwords: size, free and next.
def sizeofBlock : Nat := 12

namespace Ram

def set (m : Ram) (addr value : Nat) : Ram := Function.update m addr value

def blockSize (m : Ram) (b : Nat) : Nat := m b
def blockFree (m : Ram) (b : Nat) : Nat := m (b + 4)
def blockNext (m : Ram) (b : Nat) : Nat := m (b + 8)

end Ram

-- The blocks a list inside the arena can have, which bounds the loops over it.
def heapFuel : Nat := (heapEnd - heapStart) / sizeofBlock

-- `heap_head` is HEAP_START from here on; nothing else sets it.
def kheapInit (m : Ram) : Ram :=
  ((m.set heapStart (heapEnd - heapStart - sizeofBlock)).set (heapStart + 4) 1).set (heapStart + 8) 0

-- The caller made sure that `need` is at most the size of `b`.
def heapSplit (m : Ram) (b need : Nat) : Ram :=
  let total := m.blockSize b
  if total - need ≤ sizeofBlock + 8 then m
  else
    let rest := b + sizeofBlock + need
    ((((m.set rest (total - need - sizeofBlock)).set (rest + 4) 1).set (rest + 8) (m.blockNext b)).set
      b need).set (b + 8) rest

def findBlock (m : Ram) (size : Nat) : Nat → Nat → Option Nat
  | 0, _ => none
  | fuel + 1, b =>
    if b = 0 then none
    else if m.blockFree b ≠ 0 ∧ size ≤ m.blockSize b then some b
    else findBlock m size fuel (m.blockNext b)

-- `(size + 7) & ~7`, where 0 counts as 8.
def roundSize (size : Nat) : Nat :=
  ((if size = 0 then 8 else size) + 7) % 2 ^ 32 / 8 * 8

def kmalloc (m : Ram) (size : Nat) : Option Nat × Ram :=
  match findBlock m (roundSize size) heapFuel heapStart with
  | some b => (some (b + sizeofBlock), (heapSplit m b (roundSize size)).set (b + 4) 0)
  | none => (none, m)

def coalesce : Nat → Ram → Nat → Ram
  | 0, m, _ => m
  | fuel + 1, m, b =>
    let next := m.blockNext b
    if next ≠ 0 ∧ m.blockFree next ≠ 0 then
      coalesce fuel
        ((m.set b (m.blockSize b + (sizeofBlock + m.blockSize next))).set (b + 8) (m.blockNext next)) b
    else m

def kfree (m : Ram) (ptr : Nat) : Ram :=
  if ptr = 0 then m else coalesce heapFuel (m.set (ptr - sizeofBlock + 4) 1) (ptr - sizeofBlock)

def usedFrom (m : Ram) : Nat → Nat → Nat
  | 0, _ => 0
  | fuel + 1, b =>
    if b = 0 then 0
    else (if m.blockFree b = 0 then m.blockSize b else 0) + usedFrom m fuel (m.blockNext b)

def kheapUsed (m : Ram) : Nat := usedFrom m heapFuel heapStart

-- The header of the last block points at `stop`.
def Tiles (m : Ram) (stop : Nat) : Nat → List Block → Prop
  | _, [] => True
  | a, b :: rest =>
    m.blockSize a = b.size ∧ m.blockFree a = (if b.free then 1 else 0) ∧
      m.blockNext a = (if rest = [] then stop else a + sizeofBlock + b.size) ∧
      Tiles m stop (a + sizeofBlock + b.size) rest

/-- Following `next` from the start of the arena visits these blocks, which fill it. -/
structure HeapAt (m : Ram) (blocks : List Block) : Prop where
  tiles : Tiles m 0 heapStart blocks
  total : span sizeofBlock blocks = heapEnd - heapStart
  aligned : ∀ b ∈ blocks, b.size % 4 = 0

def listHead (a : Nat) (blocks : List Block) : Nat := if blocks = [] then 0 else a

@[simp] theorem Ram.set_self (m : Ram) (addr value : Nat) : m.set addr value addr = value := by
  simp [Ram.set]

theorem Ram.set_ne (m : Ram) {addr a : Nat} (value : Nat) (other : a ≠ addr) :
    m.set addr value a = m a := by
  simp [Ram.set, other]

theorem tiles_append {m : Ram} {l r : List Block} {stop a : Nat} (more : r ≠ []) :
    Tiles m stop a (l ++ r) ↔
      Tiles m (a + span sizeofBlock l) a l ∧ Tiles m stop (a + span sizeofBlock l) r := by
  induction l generalizing a with
  | nil => simp [Tiles]
  | cons b rest ih =>
    have shift : a + sizeofBlock + b.size + span sizeofBlock rest =
        a + (sizeofBlock + b.size + span sizeofBlock rest) := by omega
    have nonempty : rest ++ r ≠ [] := by simp [more]
    simp only [List.cons_append, Tiles, ih, span_cons, shift, nonempty, if_false, and_assoc]
    by_cases last : rest = []
    · simp [last, Nat.add_assoc]
    · simp [last]

theorem Tiles.congr {m m' : Ram} {stop : Nat} {blocks : List Block} {a : Nat}
    (tiles : Tiles m stop a blocks)
    (same : ∀ x b, (x, b) ∈ layout sizeofBlock a blocks →
      m' x = m x ∧ m' (x + 4) = m (x + 4) ∧ m' (x + 8) = m (x + 8)) : Tiles m' stop a blocks := by
  induction blocks generalizing a with
  | nil => exact trivial
  | cons b rest ih =>
    obtain ⟨size, free, next, later⟩ := tiles
    obtain ⟨first, second, third⟩ := same a b (by simp [layout])
    refine ⟨first.trans size, second.trans free, third.trans next, ih later ?_⟩
    exact fun x c member => same x c (by simp [layout, member])

theorem Tiles.outside {m m' : Ram} {stop : Nat} {blocks : List Block} {a : Nat}
    (tiles : Tiles m stop a blocks)
    (same : ∀ w, a ≤ w → w < a + span sizeofBlock blocks → m' w = m w) :
    Tiles m' stop a blocks := by
  apply tiles.congr
  intro x b member
  have bounds := layout_bounds member
  have three : sizeofBlock = 12 := rfl
  exact ⟨same _ (by omega) (by omega), same _ (by omega) (by omega), same _ (by omega) (by omega)⟩

theorem Tiles.next {m : Ram} {a : Nat} {b : Block} {rest : List Block}
    (tiles : Tiles m 0 a (b :: rest)) :
    m.blockNext a = listHead (a + sizeofBlock + b.size) rest := tiles.2.2.1

theorem Tiles.head_free {m : Ram} {stop a : Nat} {b : Block} {rest : List Block}
    (tiles : Tiles m stop a (b :: rest)) : m.blockFree a ≠ 0 ↔ b.free = true := by
  rw [tiles.2.1]
  cases b.free <;> simp

theorem findBlock_eq {m : Ram} {blocks : List Block} {a fuel : Nat} (need : Nat)
    (tiles : Tiles m 0 a blocks) (positive : 0 < a) (enough : blocks.length ≤ fuel) :
    findBlock m need fuel (listHead a blocks) =
      (alloc sizeofBlock 8 need a blocks).map fun found => found.1 - sizeofBlock := by
  induction blocks generalizing a fuel with
  | nil => cases fuel <;> simp [findBlock, listHead, alloc]
  | cons b rest ih =>
    obtain ⟨fuel, rfl⟩ : ∃ n, fuel = n + 1 := ⟨fuel - 1, by simp at enough; omega⟩
    have test : (m.blockFree a ≠ 0 ∧ need ≤ m.blockSize a) ↔ fits need b = true := by
      rw [tiles.head_free, tiles.1, fits]
      simp
    have start : listHead a (b :: rest) = a := by simp [listHead]
    rw [findBlock, start, if_neg (by omega), tiles.next, alloc]
    by_cases fit : fits need b = true
    · rw [if_pos (test.mpr fit), if_pos fit]
      simp
    · rw [if_neg fun h => fit (test.mp h), if_neg fit,
        ih tiles.2.2.2 (by omega) (by simpa using enough), Option.map_map]
      rfl

theorem span_length (blocks : List Block) :
    sizeofBlock * blocks.length ≤ span sizeofBlock blocks := by
  induction blocks with
  | nil => simp
  | cons b rest ih =>
    rw [span_cons, List.length_cons, Nat.mul_succ]
    omega

theorem span_aligned (blocks : List Block) (aligned : ∀ b ∈ blocks, b.size % 4 = 0) :
    span sizeofBlock blocks % 4 = 0 := by
  induction blocks with
  | nil => rfl
  | cons b rest ih =>
    have first := aligned b (by simp)
    have later := ih fun c member => aligned c (by simp [member])
    rw [span_cons, sizeofBlock] at *
    omega

theorem HeapAt.length_le {m : Ram} {blocks : List Block} (heap : HeapAt m blocks) :
    blocks.length ≤ heapFuel := by
  have few := span_length blocks
  rw [heap.total] at few
  exact (Nat.le_div_iff_mul_le (by decide)).mpr (by rwa [Nat.mul_comm])

theorem HeapAt.nonempty {m : Ram} {blocks : List Block} (heap : HeapAt m blocks) : blocks ≠ [] := by
  rintro rfl
  exact absurd heap.total (by decide)

theorem usedFrom_eq {m : Ram} {blocks : List Block} {a fuel : Nat} (tiles : Tiles m 0 a blocks)
    (positive : 0 < a) (enough : blocks.length ≤ fuel) :
    usedFrom m fuel (listHead a blocks) = used blocks := by
  induction blocks generalizing a fuel with
  | nil => cases fuel <;> simp [usedFrom, listHead]
  | cons b rest ih =>
    obtain ⟨fuel, rfl⟩ : ∃ n, fuel = n + 1 := ⟨fuel - 1, by simp at enough; omega⟩
    have start : listHead a (b :: rest) = a := by simp [listHead]
    rw [usedFrom, start, if_neg (by omega), tiles.next,
      ih tiles.2.2.2 (by omega) (by simpa using enough), used_cons, tiles.1, tiles.2.1]
    cases b.free <;> simp

theorem kheapUsed_eq {m : Ram} {blocks : List Block} (heap : HeapAt m blocks) :
    kheapUsed m = used blocks := by
  have start : listHead heapStart blocks = heapStart := if_neg heap.nonempty
  rw [kheapUsed, ← start]
  exact usedFrom_eq heap.tiles (by decide) heap.length_le

theorem roundSize_aligned (n : Nat) : roundSize n % 8 = 0 := by
  rw [roundSize, Nat.mul_mod_left]

theorem le_roundSize {n : Nat} (small : n ≤ heapEnd - heapStart) :
    n ≤ roundSize n ∧ 8 ≤ roundSize n := by
  simp only [heapEnd, heapStart] at small
  unfold roundSize
  split <;> omega

def OutsideFree (blocks : List Block) (w : Nat) : Prop :=
  ∀ x b, (x, b) ∈ layout sizeofBlock heapStart blocks → b.free = true →
    w < x ∨ x + sizeofBlock + b.size ≤ w

theorem tiles_carved {m : Ram} {need x stop : Nat} {b : Block} {r : List Block}
    (tiles : Tiles m stop x (b :: r)) (fit : fits need b = true) :
    Tiles ((heapSplit m x need).set (x + 4) 0) stop x (carve sizeofBlock 8 need b ++ r) ∧
      ∀ w, w < x ∨ x + sizeofBlock + b.size ≤ w →
        ((heapSplit m x need).set (x + 4) 0) w = m w := by
  obtain ⟨size, -, next, later⟩ := tiles
  obtain ⟨-, enough⟩ : b.free = true ∧ need ≤ b.size := by simpa [fits] using fit
  have kept : ∀ w, w < x ∨ x + sizeofBlock + b.size ≤ w →
      ((heapSplit m x need).set (x + 4) 0) w = m w := by
    intro w outside
    unfold heapSplit
    simp only [size, sizeofBlock] at outside ⊢
    split
    · simp (disch := omega) only [Ram.set_ne]
    · simp (disch := omega) only [Ram.set_ne]
  have rest : Tiles ((heapSplit m x need).set (x + 4) 0) stop (x + sizeofBlock + b.size) r :=
    later.outside fun w low _ => kept w (.inr low)
  refine ⟨?_, kept⟩
  generalize written : (heapSplit m x need).set (x + 4) 0 = m' at rest
  unfold heapSplit at written
  unfold carve
  by_cases small : b.size - need ≤ sizeofBlock + 8
  · simp only [size, if_pos small] at written
    rw [if_pos small]
    subst written
    refine ⟨?_, ?_, ?_, rest⟩
    · rw [Ram.blockSize, Ram.set_ne _ _ (by omega)]
      exact size
    · rw [Ram.blockFree, Ram.set_self]
      rfl
    · rw [Ram.blockNext, Ram.set_ne _ _ (by omega)]
      exact next
  · simp only [size, if_neg small] at written
    rw [if_neg small]
    simp only [sizeofBlock] at small written next rest
    have after : x + 12 + need + 12 + (b.size - need - 12) = x + 12 + b.size := by omega
    subst written
    refine ⟨?_, ?_, ?_, ?_, ?_, ?_, ?_⟩
    · simp (disch := omega) only [Ram.blockSize, Ram.set_ne, Ram.set_self]
    · simp only [Ram.blockFree, Ram.set_self, Bool.false_eq_true, if_false]
    · simp (disch := omega) only [Ram.blockNext, Ram.set_ne, Ram.set_self]
      rfl
    · simp (disch := omega) only [Ram.blockSize, sizeofBlock, Ram.set_ne, Ram.set_self]
    · simp (disch := omega) only [Ram.blockFree, sizeofBlock, Ram.set_ne, Ram.set_self, if_true]
    · simp (disch := omega) only [Ram.blockNext, sizeofBlock, Ram.set_ne, Ram.set_self]
      rw [after]
      exact next
    · simp only [sizeofBlock, after]
      exact rest

theorem tiles_absorbed {g : Block} {r : List Block} {m : Ram} {x size : Nat}
    (tiles : Tiles m 0 x (⟨size, true⟩ :: g :: r)) :
    Tiles ((m.set x (m.blockSize x + (sizeofBlock + m.blockSize (x + sizeofBlock + size)))).set
      (x + 8) (m.blockNext (x + sizeofBlock + size))) 0 x (⟨size + sizeofBlock + g.size, true⟩ :: r) := by
  obtain ⟨first, free, -, later⟩ := tiles
  simp only [sizeofBlock] at *
  refine ⟨?_, ?_, ?_, ?_⟩
  · simp (disch := omega) only [Ram.blockSize, Ram.set_ne, Ram.set_self]
    rw [show m x = size from first, show m (x + 12 + size) = g.size from later.1, Nat.add_assoc]
  · simp (disch := omega) only [Ram.blockFree, Ram.set_ne]
    exact free
  · rw [Ram.blockNext, Ram.set_self, later.2.2.1]
    simp only [sizeofBlock, Nat.add_assoc]
  · have onward := later.2.2.2
    simp only [sizeofBlock, Nat.add_assoc] at onward ⊢
    exact onward.outside fun w low _ => by
      simp (disch := omega) only [Ram.set_ne]

theorem tiles_coalesced (fuel : Nat) {r : List Block} {m : Ram} {x size : Nat}
    (tiles : Tiles m 0 x (⟨size, true⟩ :: r)) (enough : r.length ≤ fuel) :
    Tiles (coalesce fuel m x) 0 x (merge sizeofBlock size r) ∧
      ∀ w, w ≠ x → w ≠ x + 8 → coalesce fuel m x w = m w := by
  induction r generalizing m size fuel with
  | nil =>
    have none : m.blockNext x = 0 := tiles.next
    have same : coalesce fuel m x = m := by
      cases fuel <;> simp [coalesce, none]
    rw [same]
    exact ⟨tiles, fun _ _ _ => rfl⟩
  | cons g r ih =>
    obtain ⟨fuel, rfl⟩ : ∃ n, fuel = n + 1 := ⟨fuel - 1, by simp at enough; omega⟩
    have next : m.blockNext x = x + sizeofBlock + size := tiles.next
    have later := tiles.2.2.2
    have positive : x + sizeofBlock + size ≠ 0 := by simp [sizeofBlock]
    rw [coalesce, merge, next]
    by_cases gap : g.free = true
    · rw [if_pos ⟨positive, later.head_free.mpr gap⟩, if_pos gap]
      obtain ⟨merged, kept⟩ := ih fuel (tiles_absorbed tiles) (by simpa using enough)
      refine ⟨merged, fun w other other' => ?_⟩
      rw [kept w other other', Ram.set_ne _ _ other', Ram.set_ne _ _ other]
    · rw [if_neg fun h => gap (later.head_free.mp h.2), if_neg gap]
      exact ⟨tiles, fun _ _ _ => rfl⟩

theorem kmalloc_spec {m : Ram} {blocks : List Block} (heap : HeapAt m blocks) (n : Nat) :
    kmalloc m n = (none, m) ∧ alloc sizeofBlock 8 (roundSize n) heapStart blocks = none ∨
    ∃ p blocks' m', kmalloc m n = (some p, m') ∧
      alloc sizeofBlock 8 (roundSize n) heapStart blocks = some (p, blocks') ∧ HeapAt m' blocks' ∧
      ∀ w, OutsideFree blocks w → m' w = m w := by
  have start : listHead heapStart blocks = heapStart := if_neg heap.nonempty
  have search := findBlock_eq (roundSize n) heap.tiles (by decide) heap.length_le
  rw [start] at search
  cases found : alloc sizeofBlock 8 (roundSize n) heapStart blocks with
  | none =>
    rw [found] at search
    left
    simp only [kmalloc, search, Option.map_none, and_self]
  | some hit =>
    obtain ⟨p, blocks'⟩ := hit
    obtain ⟨l, b, r, rfl, -, fit, rfl, rfl⟩ := alloc_some found
    rw [found, Option.map_some, Nat.add_sub_cancel] at search
    right
    obtain ⟨before, here⟩ := (tiles_append (by simp)).mp heap.tiles
    obtain ⟨carved, kept⟩ := tiles_carved here fit
    obtain ⟨free, enough⟩ : b.free = true ∧ roundSize n ≤ b.size := by simpa [fits] using fit
    have returned : kmalloc m n = (some (heapStart + span sizeofBlock l + sizeofBlock),
        (heapSplit m (heapStart + span sizeofBlock l) (roundSize n)).set
          (heapStart + span sizeofBlock l + 4) 0) := by
      simp only [kmalloc, search]
    refine ⟨_, _, _, returned, rfl, ⟨?_, ?_, ?_⟩, ?_⟩
    · refine (tiles_append ?_).mpr ⟨before.outside fun w _ below => kept w (.inl below), carved⟩
      unfold carve
      split <;> simp
    · rw [← heap.total]
      simp only [span_append, span_cons, span_carve sizeofBlock 8 enough]
    · have last := heap.aligned b (by simp)
      have rounded := roundSize_aligned n
      intro c member
      rcases List.mem_append.mp member with inL | rest
      · exact heap.aligned c (by simp [inL])
      · rcases List.mem_append.mp rest with inB | inR
        · unfold carve at inB
          split at inB
          · rw [List.mem_singleton.mp inB]
            exact last
          · rcases List.mem_cons.mp inB with rfl | inB'
            · simp only
              omega
            · rw [List.mem_singleton.mp inB']
              simp only [sizeofBlock]
              omega
        · exact heap.aligned c (by simp [inR])
    · intro w outside
      apply kept
      apply outside _ b _ free
      rw [layout_append, layout]
      simp

theorem kmalloc_none {m m' : Ram} {blocks : List Block} (heap : HeapAt m blocks) {n : Nat}
    (refused : kmalloc m n = (none, m')) :
    m' = m ∧ alloc sizeofBlock 8 (roundSize n) heapStart blocks = none := by
  rcases kmalloc_spec heap n with ⟨same, full⟩ | ⟨p, blocks', m'', same, -⟩
  · exact ⟨(Prod.mk.inj (refused.symm.trans same)).2, full⟩
  · exact absurd (Prod.mk.inj (refused.symm.trans same)).1 (by simp)

theorem kmalloc_some {m m' : Ram} {blocks : List Block} (heap : HeapAt m blocks) {n p : Nat}
    (returned : kmalloc m n = (some p, m')) :
    ∃ blocks', alloc sizeofBlock 8 (roundSize n) heapStart blocks = some (p, blocks') ∧
      HeapAt m' blocks' ∧ ∀ w, OutsideFree blocks w → m' w = m w := by
  rcases kmalloc_spec heap n with ⟨same, -⟩ | ⟨q, blocks', m'', same, rest⟩
  · exact absurd (Prod.mk.inj (returned.symm.trans same)).1 (by simp)
  · obtain ⟨same', rfl⟩ := Prod.mk.inj (returned.symm.trans same)
    obtain rfl := Option.some.inj same'
    exact ⟨blocks', rest⟩

theorem kmalloc_of_alloc {m : Ram} {blocks blocks' : List Block} (heap : HeapAt m blocks)
    {n p : Nat} (found : alloc sizeofBlock 8 (roundSize n) heapStart blocks = some (p, blocks')) :
    ∃ m', kmalloc m n = (some p, m') ∧ HeapAt m' blocks' ∧
      ∀ w, OutsideFree blocks w → m' w = m w := by
  rcases kmalloc_spec heap n with ⟨-, full⟩ | ⟨q, blocks'', m', returned, found', rest⟩
  · exact absurd (found.symm.trans full) (by simp)
  · obtain ⟨rfl, rfl⟩ := Prod.mk.inj (Option.some.inj (found'.symm.trans found))
    exact ⟨m', returned, rest⟩

theorem tiles_freed {m : Ram} {x size : Nat} {r : List Block}
    (tiles : Tiles m 0 x (⟨size, false⟩ :: r)) :
    Tiles (m.set (x + 4) 1) 0 x (⟨size, true⟩ :: r) := by
  obtain ⟨first, -, next, later⟩ := tiles
  refine ⟨?_, ?_, ?_, ?_⟩
  · rw [Ram.blockSize, Ram.set_ne _ _ (by omega)]
    exact first
  · rw [Ram.blockFree, Ram.set_self]
    rfl
  · rw [Ram.blockNext, Ram.set_ne _ _ (by omega)]
    exact next
  · simp only [sizeofBlock] at later ⊢
    exact later.outside fun w low _ => Ram.set_ne _ _ (by omega)

theorem kfree_spec {m : Ram} {blocks : List Block} (heap : HeapAt m blocks) {p size : Nat}
    (member : (p, size) ∈ taken sizeofBlock heapStart blocks) :
    HeapAt (kfree m p) (release sizeofBlock p heapStart blocks) ∧
      ∀ w, w < p - sizeofBlock ∨ p ≤ w → kfree m p w = m w := by
  have few := heap.length_le
  obtain ⟨l, r, rfl, rfl⟩ := taken_split member
  rw [release_split (by decide)]
  obtain ⟨before, here⟩ := (tiles_append (by simp)).mp heap.tiles
  generalize position : heapStart + span sizeofBlock l = x at *
  have far : heapStart ≤ x := by omega
  have positive : x + sizeofBlock ≠ 0 := by simp [sizeofBlock]
  obtain ⟨merged, kept⟩ := tiles_coalesced heapFuel (tiles_freed here) (by
    simp only [List.length_append, List.length_cons] at few
    omega)
  have result : kfree m (x + sizeofBlock) = coalesce heapFuel (m.set (x + 4) 1) x := by
    rw [kfree, if_neg positive, Nat.add_sub_cancel]
  have outside : ∀ w, w < x ∨ x + sizeofBlock ≤ w → kfree m (x + sizeofBlock) w = m w := by
    intro w apart
    simp only [sizeofBlock] at apart
    rw [result, kept w (by omega) (by omega), Ram.set_ne _ _ (by omega)]
  refine ⟨⟨?_, ?_, ?_⟩, by rw [Nat.add_sub_cancel]; exact outside⟩
  · rw [tiles_append, position]
    · refine ⟨before.outside fun w _ below => outside w (.inl (by omega)), ?_⟩
      rw [result]
      exact merged
    · obtain ⟨_, _, _, _, _, same⟩ := merge_spec sizeofBlock size r
      simp [same]
  · rw [← heap.total, ← release_split (b := ⟨size, false⟩) (by decide) heapStart]
    exact (release_spec (by decide) (by rw [position]; exact member)).1
  · obtain ⟨gaps, rest, rfl, -, -, same⟩ := merge_spec sizeofBlock size r
    rw [same]
    have pieces := heap.aligned
    have gapsAligned := span_aligned gaps fun g member => pieces g (by simp [member])
    have own : size % 4 = 0 := pieces ⟨size, false⟩ (by simp)
    intro c inside
    rcases List.mem_append.mp inside with inL | inside'
    · exact pieces c (by simp [inL])
    · rcases List.mem_cons.mp inside' with rfl | inRest
      · simp only
        omega
      · exact pieces c (by simp [inRest])

theorem Tiles.size_eq {m : Ram} {stop : Nat} {blocks : List Block} {a x : Nat} {b : Block}
    (tiles : Tiles m stop a blocks) (member : (x, b) ∈ layout sizeofBlock a blocks) :
    m.blockSize x = b.size := by
  induction blocks generalizing a with
  | nil => simp [layout] at member
  | cons c rest ih =>
    rcases List.mem_cons.mp member with here | later
    · obtain ⟨rfl, rfl⟩ := Prod.mk.inj here
      exact tiles.1
    · exact ih tiles.2.2.2 later

theorem HeapAt.congr {m m' : Ram} {blocks : List Block} (heap : HeapAt m blocks)
    (same : ∀ x b, (x, b) ∈ layout sizeofBlock heapStart blocks →
      ∀ w, x ≤ w → w < x + sizeofBlock → m' w = m w) : HeapAt m' blocks where
  tiles := by
    have three : sizeofBlock = 12 := rfl
    exact heap.tiles.congr fun x b member => ⟨same x b member _ (by omega) (by omega),
      same x b member _ (by omega) (by omega), same x b member _ (by omega) (by omega)⟩
  total := heap.total
  aligned := heap.aligned

theorem HeapAt.payload {m m' : Ram} {blocks : List Block} (heap : HeapAt m blocks) {p size : Nat}
    (member : (p, size) ∈ taken sizeofBlock heapStart blocks)
    (same : ∀ w, w < p ∨ p + size ≤ w → m' w = m w) : HeapAt m' blocks := by
  obtain ⟨y, found, rfl⟩ := mem_taken.mp member
  apply heap.congr
  intro x b other w low high
  apply same
  by_cases here : x = y
  · exact .inl (by omega)
  · rcases layout_apart other found here with before | after
    · exact .inl (by omega)
    · exact .inr (by simp only at after; omega)

def initialBlocks : List Block := [⟨heapEnd - heapStart - sizeofBlock, true⟩]

theorem heapAt_init (m : Ram) : HeapAt (kheapInit m) initialBlocks where
  tiles := by
    simp (disch := decide) only [initialBlocks, Tiles, kheapInit, Ram.blockSize, Ram.blockFree,
      Ram.blockNext, Ram.set_ne, Ram.set_self, if_true, and_self]
  total := by decide
  aligned b member := by
    rw [List.mem_singleton.mp member]
    decide

end NovaKernel
