import NovaKernel.KheapReuse

set_option autoImplicit false

namespace NovaKernel

open Arena Transition

structure FirstFitAt (blocks l : List Block) (b : Block) (r : List Block) (size : Nat) : Prop where
  split : blocks = l ++ b :: r
  fit : fits size b = true
  first : ∀ c ∈ l, fits size c = false

/-- Only `b` changes: it keeps the bytes asked for, and what is split off is one free block with 16
bytes or more. -/
structure Carved (m m' : Ram) (l : List Block) (b : Block) (r : List Block)
    (size : Nat) : Prop where
  blocks : ∃ kept, size ≤ kept ∧ 8 ≤ kept ∧
    (HeapAt m' (l ++ ⟨kept, false⟩ :: r) ∨
      ∃ remainder, 16 ≤ remainder ∧ HeapAt m' (l ++ ⟨kept, false⟩ :: ⟨remainder, true⟩ :: r))
  same : ∀ w, w < heapStart + span sizeofBlock l ∨
    heapStart + span sizeofBlock l + sizeofBlock + b.size ≤ w → m' w = m w

structure Serves (m : Ram) (blocks : List Block) (size : Nat) : Prop where
  found : ∀ l b r, FirstFitAt blocks l b r size → ∃ m',
    kmalloc m size = (some (heapStart + span sizeofBlock l + sizeofBlock), m') ∧
      Carved m m' l b r size
  refused : (kmalloc m size).1 = none ↔ ∀ b ∈ blocks, fits size b = false
  unchanged : (kmalloc m size).1 = none → (kmalloc m size).2 = m

/-- Rounding the request up neither wraps nor loses the block, and what is left of the block is not a header with 9 to
15 bytes. -/
structure RoundsWell (blocks : List Block) (size : Nat) : Prop where
  wraps : size + 7 < 2 ^ 32 ∨ ∀ b ∈ blocks, b.free = false
  exact : ∀ l b r, FirstFitAt blocks l b r size → roundSize size ≤ b.size
  remainder : ∀ l b r, FirstFitAt blocks l b r size → roundSize size + 20 < b.size →
    roundSize size + 28 ≤ b.size

theorem owned_call {s t : Heap} {event : HeapEvent} {blocks : List Block} (owned : Owned s blocks)
    (call : HeapCall s event t) : ∃ blocks', Owned t blocks' := by
  cases call with
  | kmalloc word returned =>
    rename_i result m
    cases result with
    | none =>
      obtain ⟨rfl, -⟩ := kmalloc_none owned.heap returned
      exact ⟨blocks, owned⟩
    | some p =>
      obtain ⟨blocks', found, heap, -⟩ := kmalloc_some owned.heap returned
      exact ⟨blocks', owned.carved found heap⟩
  | kfree held =>
    rename_i ptr
    rcases held with rfl | held
    · have nonzero : (0 : Nat) ∉ s.allocated := fun member => by
        obtain ⟨size, there⟩ := (owned.payloads 0).mp member
        exact absurd (taken_bounds there).1 (by decide)
      have same : kfree s.ram 0 = s.ram := if_pos rfl
      refine ⟨blocks, ?_⟩
      rw [same, Finset.erase_eq_of_notMem nonzero]
      exact owned
    · exact ⟨_, owned.released held⟩
  | store held low high => exact ⟨blocks, owned.store _ held low high⟩

theorem kmalloc_carves {m : Ram} {blocks l r : List Block} {b : Block} {n : Nat}
    (heap : HeapAt m blocks) (chosen : FirstFitAt blocks l b r (roundSize n)) :
    ∃ m', kmalloc m n = (some (heapStart + span sizeofBlock l + sizeofBlock), m') ∧
      HeapAt m' (l ++ (carve sizeofBlock 8 (roundSize n) b ++ r)) ∧
      ∀ w, w < heapStart + span sizeofBlock l ∨
        heapStart + span sizeofBlock l + sizeofBlock + b.size ≤ w → m' w = m w := by
  obtain ⟨rfl, fit, first⟩ := chosen
  have found : alloc sizeofBlock 8 (roundSize n) heapStart (l ++ b :: r) = _ :=
    alloc_of_fits heapStart first fit
  have start : listHead heapStart (l ++ b :: r) = heapStart := if_neg heap.nonempty
  have search := findBlock_eq (roundSize n) heap.tiles (by decide) heap.length_le
  rw [start, found, Option.map_some, Nat.add_sub_cancel] at search
  obtain ⟨-, here⟩ := (tiles_append (by simp)).mp heap.tiles
  obtain ⟨m', returned, heap', -⟩ := kmalloc_of_alloc heap found
  refine ⟨m', returned, heap', ?_⟩
  simp only [kmalloc, search] at returned
  obtain rfl := (Prod.mk.inj returned).2
  exact (tiles_carved here fit).2

theorem fits_iff {need : Nat} {b : Block} : fits need b = true ↔ b.free = true ∧ need ≤ b.size := by
  simp [fits]

theorem unfit_iff {need : Nat} {b : Block} :
    fits need b = false ↔ (b.free = true → b.size < need) := by
  cases free : b.free <;> simp [fits, free]

theorem exists_firstFit {blocks : List Block} {size : Nat} {b : Block} (member : b ∈ blocks)
    (fit : fits size b = true) : ∃ l c r, FirstFitAt blocks l c r size := by
  induction blocks with
  | nil => cases member
  | cons c rest ih =>
    by_cases here : fits size c = true
    · exact ⟨[], c, rest, rfl, here, by simp⟩
    · rcases List.mem_cons.mp member with rfl | later
      · exact absurd fit here
      · obtain ⟨l, d, r, rfl, fit', first⟩ := ih later
        refine ⟨c :: l, d, r, rfl, fit', fun e inside => ?_⟩
        rcases List.mem_cons.mp inside with rfl | inside
        · exact Bool.eq_false_iff.mpr here
        · exact first e inside

theorem le_roundSize_iff {size : Nat} (fine : size + 7 < 2 ^ 32) :
    size ≤ roundSize size ∧ 8 ≤ roundSize size := by
  unfold roundSize
  split <;> omega

theorem carve_carved {m m' : Ram} {l r : List Block} {b : Block} {size : Nat}
    (fine : size + 7 < 2 ^ 32) (enough : roundSize size ≤ b.size)
    (large : roundSize size + 20 < b.size → roundSize size + 28 ≤ b.size)
    (heap : HeapAt m' (l ++ (carve sizeofBlock 8 (roundSize size) b ++ r)))
    (same : ∀ w, w < heapStart + span sizeofBlock l ∨
      heapStart + span sizeofBlock l + sizeofBlock + b.size ≤ w → m' w = m w) :
    Carved m m' l b r size := by
  obtain ⟨least, eight⟩ := le_roundSize_iff fine
  refine ⟨?_, same⟩
  unfold carve at heap
  split at heap
  next => exact ⟨b.size, by omega, by omega, .inl heap⟩
  next splits =>
    have header : sizeofBlock = 12 := rfl
    refine ⟨roundSize size, least, eight, .inr ⟨_, ?_, heap⟩⟩
    have := large (by omega)
    omega

theorem Carved.remainder {m m' : Ram} {l r : List Block} {b : Block} {size : Nat}
    (carved : Carved m m' l b r size)
    (heap : HeapAt m' (l ++ (carve sizeofBlock 8 (roundSize size) b ++ r)))
    (splits : roundSize size + 20 < b.size) :
    roundSize size + 28 ≤ b.size := by
  have header : sizeofBlock = 12 := rfl
  have two : carve sizeofBlock 8 (roundSize size) b =
      [⟨roundSize size, false⟩, ⟨b.size - roundSize size - sizeofBlock, true⟩] := if_neg (by omega)
  rw [two] at heap
  obtain ⟨kept, -, -, whole | ⟨remainder, large, parts⟩⟩ := carved.blocks
  · have same := List.append_cancel_left (heap.unique whole)
    have lengths := congrArg List.length same
    simp at lengths
  · have same := List.append_cancel_left (heap.unique parts)
    obtain ⟨-, rest⟩ := List.cons.inj same
    have size := congrArg Block.size (List.cons.inj rest).1
    simp only at size
    omega

section Reachable

variable {m : Ram} {blocks : List Block} {size : Nat}

theorem FirstFitAt.no_wrap (wraps : size + 7 < 2 ^ 32 ∨ ∀ b ∈ blocks, b.free = false)
    {l r : List Block} {b : Block} (chosen : FirstFitAt blocks l b r size) : size + 7 < 2 ^ 32 := by
  rcases wraps with fine | none'
  · exact fine
  · have used := none' b (by rw [chosen.split]; simp)
    have free := (fits_iff.mp chosen.fit).1
    rw [used] at free
    cases free

theorem FirstFitAt.rounded {l r : List Block} {b : Block} (chosen : FirstFitAt blocks l b r size)
    (fine : size + 7 < 2 ^ 32) (enough : roundSize size ≤ b.size) :
    FirstFitAt blocks l b r (roundSize size) := by
  refine ⟨chosen.split, fits_iff.mpr ⟨(fits_iff.mp chosen.fit).1, enough⟩,
    fun c inside => unfit_iff.mpr fun free => ?_⟩
  have less := unfit_iff.mp (chosen.first c inside) free
  have least := (le_roundSize_iff fine).1
  omega

theorem RoundsWell.firstFit (rounds : RoundsWell blocks size) {l r : List Block} {b : Block}
    (chosen : FirstFitAt blocks l b r size) :
    size + 7 < 2 ^ 32 ∧ FirstFitAt blocks l b r (roundSize size) :=
  have fine := chosen.no_wrap rounds.wraps
  ⟨fine, chosen.rounded fine (rounds.exact l b r chosen)⟩

theorem serves_of_rounds (heap : HeapAt m blocks) (rounds : RoundsWell blocks size) :
    Serves m blocks size := by
  constructor
  case found =>
    intro l b r chosen
    obtain ⟨fine, chosen'⟩ := rounds.firstFit chosen
    obtain ⟨m', returned, heap', same⟩ := kmalloc_carves heap chosen'
    exact ⟨m', returned,
      carve_carved fine (fits_iff.mp chosen'.fit).2 (rounds.remainder l b r chosen) heap' same⟩
  case refused =>
    constructor
    · intro none' b member
      by_contra fit
      rw [Bool.not_eq_false] at fit
      obtain ⟨l, c, r, chosen⟩ := exists_firstFit member fit
      obtain ⟨-, chosen'⟩ := rounds.firstFit chosen
      obtain ⟨m', returned, -⟩ := kmalloc_carves heap chosen'
      rw [returned] at none'
      cases none'
    · intro unfit
      rcases kmalloc_spec heap size with ⟨refused, -⟩ | ⟨p, blocks', m', -, found, -⟩
      · rw [refused]
      · obtain ⟨l, b, r, rfl, -, fit, -⟩ := alloc_some found
        have free := (fits_iff.mp fit).1
        have none' := unfit_iff.mp (unfit b (by simp)) free
        have enough := (fits_iff.mp fit).2
        rcases rounds.wraps with fine | used
        · have least := (le_roundSize_iff fine).1
          omega
        · rw [used b (by simp)] at free
          cases free

  case unchanged =>
    intro none'
    rcases kmalloc_spec heap size with ⟨refused, -⟩ | ⟨p, -, m', returned, -⟩
    · rw [refused]
    · rw [returned] at none'
      cases none'

theorem roundSize_wrapped (word : size < 2 ^ 32) (wraps : ¬ size + 7 < 2 ^ 32) :
    roundSize size = 0 := by
  unfold roundSize
  split <;> omega

theorem size_lt_word (heap : HeapAt m blocks) {b : Block} (member : b ∈ blocks) :
    b.size < 2 ^ 21 := by
  obtain ⟨x, there⟩ : ∃ x, (x, b) ∈ layout sizeofBlock heapStart blocks :=
    layout_of_mem member heapStart
  have bounds := layout_bounds there
  rw [heap.total] at bounds
  simp only [heapStart, heapEnd, sizeofBlock] at bounds
  omega

theorem Serves.wraps (heap : HeapAt m blocks) (word : size < 2 ^ 32)
    (serves : Serves m blocks size) :
    size + 7 < 2 ^ 32 ∨ ∀ b ∈ blocks, b.free = false := by
  by_cases fine : size + 7 < 2 ^ 32
  · exact .inl fine
  · right
    have zero := roundSize_wrapped word fine
    have unfit : ∀ b ∈ blocks, fits size b = false := fun b member => unfit_iff.mpr fun _ => by
      have small := size_lt_word heap member
      omega
    have refused := serves.refused.mpr unfit
    intro b member
    by_contra used
    rw [Bool.not_eq_false] at used
    obtain ⟨p, m', returned⟩ := kmalloc_of_fits heap (n := size) member
      (fits_iff.mpr ⟨used, by omega⟩)
    rw [returned] at refused
    cases refused

theorem Serves.exact (heap : HeapAt m blocks) (serves : Serves m blocks size) {l r : List Block}
    {b : Block} (chosen : FirstFitAt blocks l b r size) : roundSize size ≤ b.size := by
  obtain ⟨m', returned, -⟩ := serves.found l b r chosen
  obtain ⟨blocks', found, -⟩ := kmalloc_some heap returned
  obtain ⟨l', c, r', split, -, fit, here, -⟩ := alloc_some found
  have place : ∀ (l r : List Block) (b : Block), blocks = l ++ b :: r →
      (heapStart + span sizeofBlock l, b) ∈ layout sizeofBlock heapStart blocks := by
    rintro l r b rfl
    rw [layout_append, layout]
    simp
  have mine := place l r b chosen.split
  have its := place l' r' c split
  have same : heapStart + span sizeofBlock l = heapStart + span sizeofBlock l' := by omega
  rw [← same] at its
  rw [layout_unique (by decide) mine its]
  exact (fits_iff.mp fit).2

theorem rounds_of_serves (heap : HeapAt m blocks) (word : size < 2 ^ 32)
    (serves : Serves m blocks size) :
    RoundsWell blocks size := by
  have wraps := serves.wraps heap word
  refine ⟨wraps, fun l b r chosen => serves.exact heap chosen, fun l b r chosen => ?_⟩
  obtain ⟨m', returned, carved⟩ := serves.found l b r chosen
  obtain ⟨m'', again, heap', -⟩ :=
    kmalloc_carves heap (chosen.rounded (chosen.no_wrap wraps) (serves.exact heap chosen))
  obtain rfl := (Prod.mk.inj (returned.symm.trans again)).2
  exact carved.remainder heap'

end Reachable

/-! After `kmalloc(100)`, `kmalloc(8)` and `kfree` of the first block. -/

def frontFreed : List Block := [⟨104, true⟩, ⟨8, false⟩, ⟨0xFFF6C, true⟩]

theorem frontFreed_first {l r : List Block} {b : Block} {size : Nat}
    (small : fits size ⟨104, true⟩ = true) (chosen : FirstFitAt frontFreed l b r size) :
    b = ⟨104, true⟩ := by
  cases l with
  | nil => exact (List.cons.inj chosen.split).1.symm
  | cons c l =>
    obtain ⟨rfl, -⟩ := List.cons.inj chosen.split
    exact absurd (chosen.first _ List.mem_cons_self) (by simp [small])

theorem frontFreed_run : ∃ t : Heap, HeapAt t.ram frontFreed ∧
    Run HeapCall ⟨kheapInit fun _ => 0, ∅⟩
      [.kmalloc 100 (some 0x30000C), .kmalloc 8 (some 0x300080), .kfree 0x30000C] t := by
  have found₁ : alloc sizeofBlock 8 (roundSize 100) heapStart initialBlocks =
      some (0x30000C, [⟨104, false⟩, ⟨0xFFF80, true⟩]) := by decide
  have found₂ : alloc sizeofBlock 8 (roundSize 8) heapStart [⟨104, false⟩, ⟨0xFFF80, true⟩] =
      some (0x300080, [⟨104, false⟩, ⟨8, false⟩, ⟨0xFFF6C, true⟩]) := by decide
  obtain ⟨m₁, first, heap₁, -⟩ := kmalloc_of_alloc (heapAt_init fun _ => 0) found₁
  obtain ⟨m₂, second, heap₂, -⟩ := kmalloc_of_alloc heap₁ found₂
  have held : (0x30000C, 104) ∈ taken sizeofBlock heapStart [⟨104, false⟩, ⟨8, false⟩,
      ⟨0xFFF6C, true⟩] := by
    decide
  exact ⟨_, (kfree_spec heap₂ held).1,
    (Run.single (.kfree (.inr (by simp)))).cons (.kmalloc (by decide) second) |>.cons
      (.kmalloc (by decide) first)⟩

/-- In every reachable heap first fit holds for exactly the requests that rounding does not spoil. -/
theorem kmalloc_first_fit {m : Ram} {events : List HeapEvent} {t : Heap} {size : Nat}
    (run : Run HeapCall ⟨kheapInit m, ∅⟩ events t) (word : size < 2 ^ 32) :
    ∃ blocks, HeapAt t.ram blocks ∧ (Serves t.ram blocks size ↔ RoundsWell blocks size) := by
  obtain ⟨blocks, owned⟩ : ∃ blocks, Owned t blocks := by
    apply run.invariant (fun s => ∃ blocks, Owned s blocks)
    · rintro s event s' ⟨blocks, owned⟩ call
      exact owned_call owned call
    · exact ⟨initialBlocks, owned_booted m⟩
  exact ⟨blocks, owned.heap, rounds_of_serves owned.heap word, serves_of_rounds owned.heap⟩

/-- A request of 64 bytes is served from the block that was freed; one of 80 leaves a block of 12 bytes. -/
theorem kmalloc_first_fit_reused : ∃ t : Heap, HeapAt t.ram frontFreed ∧
    Serves t.ram frontFreed 64 ∧ ¬ Serves t.ram frontFreed 80 := by
  obtain ⟨t, heap, run⟩ := frontFreed_run
  obtain ⟨blocks, heap', served⟩ := kmalloc_first_fit run (show 64 < 2 ^ 32 by decide)
  obtain ⟨blocks', heap'', refused⟩ := kmalloc_first_fit run (show 80 < 2 ^ 32 by decide)
  obtain rfl := heap.unique heap'
  obtain rfl := heap.unique heap''
  refine ⟨t, heap, served.mpr ⟨.inl (by decide), fun l b r chosen => ?_, fun l b r chosen => ?_⟩,
    fun serves => ?_⟩
  · rw [frontFreed_first (by decide) chosen]
    decide
  · rw [frontFreed_first (by decide) chosen]
    decide
  · have first : FirstFitAt frontFreed [] ⟨104, true⟩ _ 80 := ⟨rfl, by decide, by simp⟩
    exact absurd ((refused.mp serves).remainder _ _ _ first (by decide)) (by decide)

/-- A request of 2^32 - 1 bytes is rounded to 0, and served. -/
theorem kmalloc_wraps : ¬ ∀ (m : Ram) (events : List HeapEvent) (t : Heap) (size : Nat),
    Run HeapCall ⟨kheapInit m, ∅⟩ events t → size < 2 ^ 32 →
    ∃ blocks, HeapAt t.ram blocks ∧ Serves t.ram blocks size := by
  intro all
  obtain ⟨blocks, heap, serves⟩ := all (fun _ => 0) [] _ (2 ^ 32 - 1) .nil (by decide)
  obtain rfl := heap.unique (heapAt_init fun _ => 0)
  have wraps := (rounds_of_serves heap (by decide) serves).wraps
  rcases wraps with fine | used
  · exact absurd fine (by decide)
  · exact absurd (used ⟨heapEnd - heapStart - sizeofBlock, true⟩ (by decide)) (by decide)

end NovaKernel
