import NovaKernel.KheapPartition

set_option autoImplicit false

namespace NovaKernel

open Arena Transition

theorem Tiles.unique {m : Ram} {a : Nat} {blocks blocks' : List Block} (tiles : Tiles m 0 a blocks)
    (tiles' : Tiles m 0 a blocks') (alike : blocks = [] ↔ blocks' = []) : blocks = blocks' := by
  induction blocks generalizing a blocks' with
  | nil => exact (alike.mp rfl).symm
  | cons b rest ih =>
    cases blocks' with
    | nil => exact absurd (alike.mpr rfl) (by simp)
    | cons b' rest' =>
      have size : b.size = b'.size := tiles.1.symm.trans tiles'.1
      have free : b.free = b'.free := by
        rw [Bool.eq_iff_iff, ← tiles.head_free, tiles'.head_free]
      have next := tiles.next.symm.trans tiles'.next
      obtain ⟨-, -, -, later⟩ := tiles
      obtain ⟨-, -, -, later'⟩ := tiles'
      have positive : a + sizeofBlock + b.size ≠ 0 := by simp [sizeofBlock]
      rw [← size] at later' next
      have alike' : rest = [] ↔ rest' = [] := by
        unfold listHead at next
        constructor
        · intro none'
          by_contra more
          rw [if_pos none', if_neg more] at next
          exact positive next.symm
        · intro none'
          by_contra more
          rw [if_pos none', if_neg more] at next
          exact positive next
      rw [ih later later' alike', show b = b' from Block.ext size free]

theorem HeapAt.unique {m : Ram} {blocks blocks' : List Block} (heap : HeapAt m blocks)
    (heap' : HeapAt m blocks') : blocks = blocks' :=
  heap.tiles.unique heap'.tiles (iff_of_false heap.nonempty heap'.nonempty)

/-- A call of the allocator by its owners, or a store to a payload in use. -/
inductive HeapCall : Heap → HeapEvent → Heap → Prop
  | kmalloc {s : Heap} {size : Nat} {result : Option Nat} {m : Ram} :
      size < 2 ^ 32 → kmalloc s.ram size = (result, m) →
      HeapCall s (.kmalloc size result) ⟨m, result.elim s.allocated (insert · s.allocated)⟩
  | kfree {s : Heap} {ptr : Nat} :
      ptr = 0 ∨ ptr ∈ s.allocated → HeapCall s (.kfree ptr) ⟨kfree s.ram ptr, s.allocated.erase ptr⟩
  | store {s : Heap} {ptr addr value : Nat} :
      ptr ∈ s.allocated → ptr ≤ addr → addr < ptr + s.ram.blockSize (ptr - sizeofBlock) →
      HeapCall s (.store addr value) ⟨s.ram.set addr value, s.allocated⟩

/-- Free memory serves every request it is long enough for. -/
structure Reusable (s : Heap) : Prop where
  -- A stretch of free blocks, of which the first header does not count.
  stretch : ∀ l gaps r, HeapAt s.ram (l ++ gaps ++ r) → gaps ≠ [] → (∀ g ∈ gaps, g.free = true) →
    ∀ n, sizeofBlock + roundSize n ≤ span sizeofBlock gaps → ∃ p m, kmalloc s.ram n = (some p, m)
  whole : s.allocated = ∅ → ∃ p m, kmalloc s.ram ((heapEnd - heapStart - sizeofBlock) / 8 * 8) =
    (some p, m)

/-- The block in front of one that is freed is in use, as `kfree` does not look at it. -/
def FrontInUse (s : Heap) : HeapEvent → Prop
  | .kfree ptr => ∀ blocks, HeapAt s.ram blocks →
    ∀ x b, (x, b) ∈ layout sizeofBlock heapStart blocks →
      x + sizeofBlock + b.size + sizeofBlock = ptr → b.free = false
  | _ => True

structure Compact (s : Heap) (blocks : List Block) : Prop where
  owned : Owned s blocks
  coalesced : Coalesced blocks

theorem compact_init (m : Ram) : Compact ⟨kheapInit m, ∅⟩ initialBlocks where
  owned := ⟨heapAt_init m, fun p => by simp [initialBlocks, taken]⟩
  coalesced := .singleton _

theorem compact_step {s t : Heap} {event : HeapEvent} {blocks : List Block}
    (compact : Compact s blocks) (front : FrontInUse s event) (call : HeapCall s event t) :
    ∃ blocks', Compact t blocks' := by
  obtain ⟨owned, coalesced⟩ := compact
  cases call with
  | kmalloc word returned =>
    rename_i result m
    cases result with
    | none =>
      obtain ⟨rfl, -⟩ := kmalloc_none owned.heap returned
      exact ⟨blocks, owned, coalesced⟩
    | some p =>
      obtain ⟨blocks', found, heap, -⟩ := kmalloc_some owned.heap returned
      exact ⟨blocks', owned.carved found heap, coalesced_alloc found coalesced⟩
  | kfree held =>
    rename_i ptr
    have nonzero : (0 : Nat) ∉ s.allocated := fun member => by
      obtain ⟨size, there⟩ := (owned.payloads 0).mp member
      have bounds := (taken_bounds there).1
      exact absurd bounds (by decide)
    rcases held with rfl | held
    · refine ⟨blocks, ?_, coalesced⟩
      have same : kfree s.ram 0 = s.ram := if_pos rfl
      rw [same, Finset.erase_eq_of_notMem nonzero]
      exact owned
    · obtain ⟨size, member⟩ := (owned.payloads ptr).mp held
      exact ⟨_, owned.released held,
        coalesced_release (by decide) member coalesced (front blocks owned.heap)⟩
  | store held low high => exact ⟨blocks, owned.store _ held low high, coalesced⟩

theorem kmalloc_of_fits {m : Ram} {blocks : List Block} (heap : HeapAt m blocks) {n : Nat}
    {b : Block} (member : b ∈ blocks) (fit : fits (roundSize n) b = true) :
    ∃ p m', kmalloc m n = (some p, m') := by
  rcases kmalloc_spec heap n with ⟨-, full⟩ | ⟨p, -, m', returned, -⟩
  · rw [alloc_none_iff.mp full b member] at fit
    cases fit
  · exact ⟨p, m', returned⟩

theorem Compact.reusable {s : Heap} {blocks : List Block} (compact : Compact s blocks) :
    Reusable s := by
  obtain ⟨owned, coalesced⟩ := compact
  constructor
  case stretch =>
    intro l gaps r heap some' free n room
    rw [owned.heap.unique heap] at coalesced
    obtain ⟨g, rfl⟩ := coalesced.single some' free
    rw [span_cons, span_nil] at room
    refine kmalloc_of_fits heap (b := g) (by simp) ?_
    rw [fits, free g (by simp), Bool.true_and, decide_eq_true_eq]
    omega
  case whole =>
    intro none'
    have free : ∀ b ∈ blocks, b.free = true := by
      intro b member
      by_contra used'
      obtain ⟨x, there⟩ := layout_of_mem member heapStart
      have payload : (x + sizeofBlock, b.size) ∈ taken sizeofBlock heapStart blocks :=
        mem_taken.mpr ⟨x, by rwa [← Bool.not_eq_true _ |>.mp used'], rfl⟩
      have held := (owned.payloads _).mpr ⟨_, payload⟩
      rw [none'] at held
      exact absurd held (Finset.notMem_empty _)
    have alone : Coalesced ([] ++ blocks ++ []) := by simpa using coalesced
    obtain ⟨b, rfl⟩ := alone.single owned.heap.nonempty free
    have total := owned.heap.total
    rw [span_cons, span_nil] at total
    refine kmalloc_of_fits owned.heap (List.mem_singleton_self b) ?_
    have rounded : roundSize ((heapEnd - heapStart - sizeofBlock) / 8 * 8) ≤
        heapEnd - heapStart - sizeofBlock := by
      decide
    rw [fits, free b (by simp), Bool.true_and, decide_eq_true_eq]
    omega

/-- In a run in which every block is freed while the one in front of it is in use, what was freed is
usable again in every state. -/
theorem heap_reusable {m : Ram} {events : List HeapEvent} {t : Heap}
    (run : Run (Guarded FrontInUse HeapCall) ⟨kheapInit m, ∅⟩ events t) : Reusable t := by
  obtain ⟨blocks, compact⟩ := run.invariant (fun s => ∃ blocks, Compact s blocks)
    (fun _ _ _ ⟨_, compact⟩ step => compact_step compact step.1 step.2) ⟨_, compact_init m⟩
  exact compact.reusable

def bothTaken : List Block := [⟨104, false⟩, ⟨5000, false⟩, ⟨0xFEBEC, true⟩]

theorem bothTaken_run : ∃ s : Heap, HeapAt s.ram bothTaken ∧ s.allocated = {0x300080, 0x30000C} ∧
    Run (Guarded FrontInUse HeapCall) ⟨kheapInit fun _ => 0, ∅⟩
      [.kmalloc 100 (some 0x30000C), .kmalloc 5000 (some 0x300080)] s := by
  have found₁ : alloc sizeofBlock 8 (roundSize 100) heapStart initialBlocks =
      some (0x30000C, [⟨104, false⟩, ⟨0xFFF80, true⟩]) := by decide
  have found₂ : alloc sizeofBlock 8 (roundSize 5000) heapStart [⟨104, false⟩, ⟨0xFFF80, true⟩] =
      some (0x300080, bothTaken) := by decide
  obtain ⟨m₁, first, heap₁, -⟩ := kmalloc_of_alloc (heapAt_init fun _ => 0) found₁
  obtain ⟨m₂, second, heap₂, -⟩ := kmalloc_of_alloc heap₁ found₂
  refine ⟨_, heap₂, ?_, (Run.single ⟨trivial, .kmalloc (by decide) second⟩).cons
    ⟨trivial, .kmalloc (by decide) first⟩⟩
  rfl

theorem heap_reusable_twice : ∃ t : Heap, t.allocated = ∅ ∧
    Run (Guarded FrontInUse HeapCall) ⟨kheapInit fun _ => 0, ∅⟩
      [.kmalloc 100 (some 0x30000C), .kmalloc 5000 (some 0x300080), .kfree 0x300080, .kfree 0x30000C] t ∧
    Reusable t := by
  obtain ⟨s, heap, allocated, start⟩ := bothTaken_run
  have front : FrontInUse s (.kfree 0x300080) := by
    intro blocks heap' x b member behind
    have all : ∀ e ∈ layout sizeofBlock heapStart bothTaken,
        e.1 + sizeofBlock + e.2.size + sizeofBlock = 0x300080 → e.2.free = false := by decide
    rw [← heap.unique heap'] at member
    exact all (x, b) member behind
  have front' : FrontInUse ⟨kfree s.ram 0x300080, s.allocated.erase 0x300080⟩ (.kfree 0x30000C) := by
    intro blocks heap' x b member behind
    have bounds := (layout_bounds member).1
    simp only [sizeofBlock, heapStart] at bounds behind
    omega
  have held : 0x300080 ∈ s.allocated ∧ 0x30000C ∈ s.allocated.erase 0x300080 := by
    rw [allocated]
    decide
  have run := start.append ((Run.single ⟨front', .kfree (.inr held.2)⟩).cons ⟨front, .kfree (.inr held.1)⟩)
  refine ⟨_, ?_, run, heap_reusable run⟩
  show (s.allocated.erase 0x300080).erase 0x30000C = ∅
  rw [allocated]
  decide

/-- Freed from the front, the first block stays apart. -/
theorem heap_splits : ¬ ∀ (m : Ram) (events : List HeapEvent) (t : Heap),
    Run HeapCall ⟨kheapInit m, ∅⟩ events t → Reusable t := by
  intro always
  obtain ⟨s, heap, allocated, start⟩ := bothTaken_run
  have member : (0x30000C, 104) ∈ taken sizeofBlock heapStart bothTaken := by decide
  have heap₃ : HeapAt (kfree s.ram 0x30000C) [⟨104, true⟩, ⟨5000, false⟩, ⟨0xFEBEC, true⟩] :=
    (kfree_spec heap member).1
  have member' : (0x300080, 5000) ∈ taken sizeofBlock heapStart [⟨104, true⟩, ⟨5000, false⟩,
      ⟨0xFEBEC, true⟩] := by
    decide
  have heap₄ : HeapAt (kfree (kfree s.ram 0x30000C) 0x300080) [⟨104, true⟩, ⟨0xFFF80, true⟩] :=
    (kfree_spec heap₃ member').1
  have held : 0x30000C ∈ s.allocated ∧ 0x300080 ∈ s.allocated.erase 0x30000C := by
    rw [allocated]
    decide
  have none' : (s.allocated.erase 0x30000C).erase 0x300080 = ∅ := by
    rw [allocated]
    decide
  have run := (start.mono fun _ _ _ step => step.2).append
    ((Run.single (.kfree (.inr held.2))).cons (.kfree (.inr held.1)))
  obtain ⟨p, m', returned⟩ := (always _ _ _ run).whole none'
  have full : alloc sizeofBlock 8 (roundSize ((heapEnd - heapStart - sizeofBlock) / 8 * 8)) heapStart
      [⟨104, true⟩, ⟨0xFFF80, true⟩] = none := by decide
  rcases kmalloc_spec heap₄ ((heapEnd - heapStart - sizeofBlock) / 8 * 8) with ⟨refused, -⟩ | ⟨_, _, _, _,
    found, -⟩
  · exact absurd (Prod.mk.inj (refused.symm.trans returned)).1 (by simp)
  · rw [full] at found
    cases found

end NovaKernel
