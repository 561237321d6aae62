import NovaKernel.Kheap
import NovaKernel.Lib.Transition
import Mathlib.Data.Finset.Erase
import Mathlib.Data.Finset.Insert

set_option autoImplicit false

namespace NovaKernel

open Arena Transition

-- The memory and the pointers that were returned and not freed.
structure Heap where
  ram : Ram
  allocated : Finset Nat

inductive HeapEvent
  | kmalloc (size : Nat) (result : Option Nat)
  | kfree (ptr : Nat)
  | store (addr value : Nat)

inductive HeapStep : Heap → HeapEvent → Heap → Prop
  | kmalloc {s : Heap} {size : Nat} {result : Option Nat} {m : Ram} :
      size ≤ heapEnd - heapStart → kmalloc s.ram size = (result, m) →
      HeapStep s (.kmalloc size result) ⟨m, result.elim s.allocated (insert · s.allocated)⟩
  | kfree {s : Heap} {ptr : Nat} :
      ptr ∈ s.allocated → HeapStep s (.kfree ptr) ⟨kfree s.ram ptr, s.allocated.erase ptr⟩
  -- The owner of a payload writes to it.
  | store {s : Heap} {ptr addr value : Nat} :
      ptr ∈ s.allocated → ptr ≤ addr → addr < ptr + s.ram.blockSize (ptr - sizeofBlock) →
      HeapStep s (.store addr value) ⟨s.ram.set addr value, s.allocated⟩

/-- The list in memory is `blocks`; it tiles the arena and the pointers in use are its payloads. -/
structure Partitioned (s : Heap) (blocks : List Block) : Prop where
  list : Tiles s.ram 0 heapStart blocks
  ordered : (layout sizeofBlock heapStart blocks).Pairwise
    fun x y => x.1 + sizeofBlock + x.2.size ≤ y.1
  total : span sizeofBlock blocks = heapEnd - heapStart
  payloads : ∀ p, p ∈ s.allocated ↔ ∃ size, (p, size) ∈ taken sizeofBlock heapStart blocks
  inside : ∀ p size, (p, size) ∈ taken sizeofBlock heapStart blocks →
    heapStart + sizeofBlock ≤ p ∧ p + size ≤ heapEnd
  -- No other block reaches into a payload in use or its header, with its own header or payload.
  apart : ∀ p size x b, (p, size) ∈ taken sizeofBlock heapStart blocks →
    (x, b) ∈ layout sizeofBlock heapStart blocks → x + sizeofBlock ≠ p →
    x + sizeofBlock + b.size + sizeofBlock ≤ p ∨ p + size ≤ x
  used : kheapUsed s.ram = ((taken sizeofBlock heapStart blocks).map Prod.snd).sum

structure Owned (s : Heap) (blocks : List Block) : Prop where
  heap : HeapAt s.ram blocks
  payloads : ∀ p, p ∈ s.allocated ↔ ∃ size, (p, size) ∈ taken sizeofBlock heapStart blocks

theorem Owned.partitioned {s : Heap} {blocks : List Block} (owned : Owned s blocks) :
    Partitioned s blocks where
  list := owned.heap.tiles
  ordered := layout_ordered blocks heapStart
  total := owned.heap.total
  payloads := owned.payloads
  inside p size member := by
    have bounds := taken_bounds member
    rw [owned.heap.total] at bounds
    exact ⟨bounds.1, by simp only [heapStart, heapEnd] at *; omega⟩
  apart _ _ _ _ member other distinct := taken_apart member other distinct
  used := by rw [kheapUsed_eq owned.heap, sum_taken sizeofBlock]

theorem outsideFree_taken {blocks : List Block} {p size w : Nat}
    (member : (p, size) ∈ taken sizeofBlock heapStart blocks) (low : p - sizeofBlock ≤ w)
    (high : w < p + size) : OutsideFree blocks w := by
  intro x b other free
  obtain ⟨y, found, rfl⟩ := mem_taken.mp member
  have distinct : y ≠ x := by
    rintro rfl
    rw [layout_unique (by decide) other found] at free
    exact absurd free (by simp)
  rw [Nat.add_sub_cancel] at low
  rcases layout_apart found other distinct with before | after
  · exact .inl (by simp only at before; omega)
  · exact .inr (by omega)

namespace Owned

variable {s : Heap} {blocks : List Block} (owned : Owned s blocks)
include owned

theorem carved {n p : Nat} {blocks' : List Block} {m : Ram}
    (found : alloc sizeofBlock 8 (roundSize n) heapStart blocks = some (p, blocks'))
    (heap : HeapAt m blocks') :
    Owned ⟨m, insert p s.allocated⟩ blocks' := by
  obtain ⟨-, size, -, -, members, -⟩ := alloc_spec (by decide) found
  refine ⟨heap, fun q => ?_⟩
  simp only [Finset.mem_insert, owned.payloads, members, Prod.mk.injEq]
  constructor
  · rintro (rfl | ⟨t, member⟩)
    · exact ⟨size, .inl ⟨rfl, rfl⟩⟩
    · exact ⟨t, .inr member⟩
  · rintro ⟨t, ⟨rfl, rfl⟩ | member⟩
    · exact .inl rfl
    · exact .inr ⟨t, member⟩

theorem released {p : Nat} (held : p ∈ s.allocated) :
    Owned ⟨NovaKernel.kfree s.ram p, s.allocated.erase p⟩ (release sizeofBlock p heapStart blocks) := by
  obtain ⟨size, member⟩ := (owned.payloads p).mp held
  obtain ⟨-, -, members⟩ := release_spec (by decide) member
  refine ⟨(kfree_spec owned.heap member).1, fun q => ?_⟩
  simp only [Finset.mem_erase, owned.payloads, members]
  exact ⟨fun ⟨distinct, t, other⟩ => ⟨t, other, distinct⟩,
    fun ⟨t, other, distinct⟩ => ⟨distinct, t, other⟩⟩

theorem kmalloc_some {n p : Nat} {m : Ram} (small : n ≤ heapEnd - heapStart)
    (returned : kmalloc s.ram n = (some p, m)) :
    p ∉ s.allocated ∧ ∃ blocks' size, Owned ⟨m, insert p s.allocated⟩ blocks' ∧
      (p, size) ∈ taken sizeofBlock heapStart blocks' ∧ n ≤ size ∧
      ∀ q t, (q, t) ∈ taken sizeofBlock heapStart blocks →
        (q, t) ∈ taken sizeofBlock heapStart blocks' ∧
          ∀ w, q - sizeofBlock ≤ w → w < q + t → m w = s.ram w := by
  obtain ⟨blocks', found, heap, kept⟩ := NovaKernel.kmalloc_some owned.heap returned
  obtain ⟨-, size, room, -, members, fresh⟩ := alloc_spec (by decide) found
  have enough := (le_roundSize small).1
  refine ⟨fun held => ?_, blocks', size, owned.carved found heap, (members p size).mpr (.inl rfl),
    by omega, fun q t member => ⟨(members q t).mpr (.inr member), fun w low high =>
      kept w (outsideFree_taken member low high)⟩⟩
  obtain ⟨t, member⟩ := (owned.payloads p).mp held
  exact fresh t member

theorem kfree {p : Nat} (held : p ∈ s.allocated) :
    ∃ blocks', Owned ⟨NovaKernel.kfree s.ram p, s.allocated.erase p⟩ blocks' ∧
      ∀ q t, (q, t) ∈ taken sizeofBlock heapStart blocks → q ≠ p →
        (q, t) ∈ taken sizeofBlock heapStart blocks' ∧
          ∀ w, q - sizeofBlock ≤ w → w < q + t → NovaKernel.kfree s.ram p w = s.ram w := by
  obtain ⟨size, member⟩ := (owned.payloads p).mp held
  obtain ⟨-, kept⟩ := kfree_spec owned.heap member
  obtain ⟨-, -, members⟩ := release_spec (by decide) member
  refine ⟨_, owned.released held, fun q t other distinct =>
    ⟨(members q t).mpr ⟨other, distinct⟩, fun w low high => kept w ?_⟩⟩
  obtain ⟨x, header, rfl⟩ := mem_taken.mp member
  rcases taken_apart other header (Ne.symm distinct) with before | after
  · exact .inr (by simp only at before; omega)
  · exact .inl (by omega)

theorem store {p addr : Nat} (value : Nat) (held : p ∈ s.allocated) (low : p ≤ addr)
    (high : addr < p + s.ram.blockSize (p - sizeofBlock)) :
    Owned ⟨s.ram.set addr value, s.allocated⟩ blocks := by
  obtain ⟨size, member⟩ := (owned.payloads p).mp held
  refine ⟨owned.heap.payload member fun w outside => Ram.set_ne _ _ ?_, owned.payloads⟩
  obtain ⟨x, found, rfl⟩ := mem_taken.mp member
  rw [Nat.add_sub_cancel, owned.heap.tiles.size_eq found] at high
  simp only at high
  omega

end Owned

theorem owned_step {s t : Heap} {event : HeapEvent} {blocks : List Block} (owned : Owned s blocks)
    (step : HeapStep s event t) : ∃ blocks', Owned t blocks' := by
  cases step with
  | kmalloc small returned =>
    rename_i result m
    cases result with
    | none =>
      obtain ⟨rfl, -⟩ := kmalloc_none owned.heap returned
      exact ⟨blocks, owned⟩
    | some p =>
      obtain ⟨-, blocks', size, owned', -⟩ := owned.kmalloc_some small returned
      exact ⟨blocks', owned'⟩
  | kfree held =>
    obtain ⟨blocks', owned', -⟩ := owned.kfree held
    exact ⟨blocks', owned'⟩
  | store held low high => exact ⟨blocks, owned.store _ held low high⟩

theorem owned_booted (m : Ram) : Owned ⟨kheapInit m, ∅⟩ initialBlocks :=
  ⟨heapAt_init m, fun p => by simp [initialBlocks, taken]⟩

/-- The heap stays partitioned over every sequence of allocations, releases and stores. -/
theorem kheap_partition {m : Ram} {events : List HeapEvent} {t : Heap}
    (run : Run HeapStep ⟨kheapInit m, ∅⟩ events t) :
    ∃ blocks, Partitioned t blocks ∧
      (∀ n p m', n ≤ heapEnd - heapStart → kmalloc t.ram n = (some p, m') →
        p ∉ t.allocated ∧ ∃ blocks' size, Partitioned ⟨m', insert p t.allocated⟩ blocks' ∧
          (p, size) ∈ taken sizeofBlock heapStart blocks' ∧ n ≤ size ∧
          ∀ q s, (q, s) ∈ taken sizeofBlock heapStart blocks →
            (q, s) ∈ taken sizeofBlock heapStart blocks' ∧
              ∀ w, q - sizeofBlock ≤ w → w < q + s → m' w = t.ram w) ∧
      ∀ p ∈ t.allocated, ∃ blocks', Partitioned ⟨kfree t.ram p, t.allocated.erase p⟩ blocks' ∧
        ∀ q s, (q, s) ∈ taken sizeofBlock heapStart blocks → q ≠ p →
          (q, s) ∈ taken sizeofBlock heapStart blocks' ∧
            ∀ w, q - sizeofBlock ≤ w → w < q + s → kfree t.ram p w = t.ram w := by
  obtain ⟨blocks, owned⟩ : ∃ blocks, Owned t blocks := by
    apply run.invariant (fun s => ∃ blocks, Owned s blocks)
    · rintro s event s' ⟨blocks, owned⟩ step
      exact owned_step owned step
    · exact ⟨initialBlocks, owned_booted m⟩
  refine ⟨blocks, owned.partitioned, fun n p m' small returned => ?_, fun p held => ?_⟩
  · obtain ⟨fresh, blocks', size, owned', member, room, kept⟩ := owned.kmalloc_some small returned
    exact ⟨fresh, blocks', size, owned'.partitioned, member, room, kept⟩
  · obtain ⟨blocks', owned', kept⟩ := owned.kfree held
    exact ⟨blocks', owned'.partitioned, kept⟩

theorem kheap_partition_reused : ∃ t : Heap, ∃ blocks, t.allocated = {0x300080} ∧
    Run HeapStep ⟨kheapInit fun _ => 0, ∅⟩
      [.kmalloc 100 (some 0x30000C), .kmalloc 5000 (some 0x300080), .kfree 0x30000C] t ∧
    Partitioned t blocks := by
  have found₁ : alloc sizeofBlock 8 (roundSize 100) heapStart initialBlocks =
      some (0x30000C, [⟨104, false⟩, ⟨0xFFF80, true⟩]) := by decide
  have found₂ : alloc sizeofBlock 8 (roundSize 5000) heapStart [⟨104, false⟩, ⟨0xFFF80, true⟩] =
      some (0x300080, [⟨104, false⟩, ⟨5000, false⟩, ⟨0xFEBEC, true⟩]) := by decide
  obtain ⟨m₁, first, heap₁, -⟩ := kmalloc_of_alloc (heapAt_init fun _ => 0) found₁
  obtain ⟨m₂, second, -, -⟩ := kmalloc_of_alloc heap₁ found₂
  have run : Run HeapStep ⟨kheapInit fun _ => 0, ∅⟩
      [.kmalloc 100 (some 0x30000C), .kmalloc 5000 (some 0x300080), .kfree 0x30000C] _ :=
    (Run.single (.kfree (by simp))).cons (.kmalloc (by decide) second) |>.cons
      (.kmalloc (by decide) first)
  obtain ⟨blocks, partition, -⟩ := kheap_partition run
  have left : (insert 0x300080 (insert 0x30000C (∅ : Finset Nat))).erase 0x30000C = {0x300080} := by
    decide
  exact ⟨_, blocks, left, run, partition⟩

end NovaKernel
