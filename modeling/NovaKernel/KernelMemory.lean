import NovaKernel.KheapPartition

set_option autoImplicit false

namespace NovaKernel

open Arena

namespace Ram

def writeWords (m : Ram) (addr : Nat) : List Nat → Ram
  | [] => m
  | w :: ws => writeWords (m.set addr w) (addr + 4) ws

def readWords (m : Ram) (addr n : Nat) : List Nat :=
  (List.range n).map fun i => m (addr + 4 * i)

theorem writeWords_outside (m : Ram) {addr a : Nat} (words : List Nat)
    (outside : a < addr ∨ addr + 4 * words.length ≤ a) : m.writeWords addr words a = m a := by
  induction words generalizing m addr with
  | nil => rfl
  | cons w ws ih =>
    simp only [List.length_cons] at outside
    rw [writeWords, ih _ (by omega)]
    by_cases first : a = addr
    · omega
    · exact set_ne m w first

theorem writeWords_at (m : Ram) (addr : Nat) (words : List Nat) {i : Nat}
    (inside : i < words.length) :
    m.writeWords addr words (addr + 4 * i) = words[i] := by
  induction words generalizing m addr i with
  | nil => exact absurd inside (Nat.not_lt_zero i)
  | cons w ws ih =>
    cases i with
    | zero =>
      rw [writeWords, writeWords_outside _ _ (.inl (by omega))]
      exact set_self m addr w
    | succ i =>
      have shift : addr + 4 * (i + 1) = addr + 4 + 4 * i := by omega
      rw [writeWords, shift, ih _ _ (by simpa using inside)]
      rfl

theorem writeWords_set (m : Ram) {addr a : Nat} (words : List Nat) (below : a < addr) (v : Nat) :
    (m.writeWords addr words).set a v = (m.set a v).writeWords addr words := by
  induction words generalizing m addr with
  | nil => rfl
  | cons w ws ih =>
    have swapped : (m.set addr w).set a v = (m.set a v).set addr w := by
      simp only [Ram.set]
      exact Function.update_comm (Nat.ne_of_gt below) w v m
    rw [writeWords, writeWords, ih _ (by omega), swapped]

theorem readWords_length (m : Ram) (addr n : Nat) : (m.readWords addr n).length = n := by
  simp [readWords]

theorem readWords_congr {m m' : Ram} {addr n : Nat}
    (same : ∀ a, addr ≤ a → a < addr + 4 * n → m' a = m a) :
    m'.readWords addr n = m.readWords addr n :=
  List.map_congr_left fun i member => same _ (by omega) (by have := List.mem_range.mp member; omega)

theorem readWords_writeWords (m : Ram) (addr : Nat) (words : List Nat) :
    (m.writeWords addr words).readWords addr words.length = words := by
  apply List.ext_getElem (readWords_length _ _ _)
  intro i _ inside
  simp only [readWords, List.getElem_map, List.getElem_range]
  exact writeWords_at m addr words inside

end Ram

namespace Heap

def kmalloc (h : Heap) (size : Nat) : Option Nat × Heap :=
  let (ptr, ram) := NovaKernel.kmalloc h.ram size
  (ptr, ⟨ram, ptr.elim h.allocated (insert · h.allocated)⟩)

def kfree (h : Heap) (ptr : Nat) : Heap := ⟨NovaKernel.kfree h.ram ptr, h.allocated.erase ptr⟩

def Sound (h : Heap) : Prop := ∃ blocks, Owned h blocks

def Payload (h : Heap) (p size : Nat) : Prop :=
  p ∈ h.allocated ∧ size ≤ h.ram.blockSize (p - sizeofBlock)

theorem kmalloc_none {h h' : Heap} {size : Nat}
    (failed : h.kmalloc size = (none, h')) : h' = h := by
  cases found : findBlock h.ram (roundSize size) heapFuel heapStart with
  | none =>
    simp only [kmalloc, NovaKernel.kmalloc, found, Option.elim_none, Prod.mk.injEq] at failed
    exact failed.2.symm
  | some b => simp [kmalloc, NovaKernel.kmalloc, found] at failed

theorem payload_iff {h : Heap} {blocks : List Block} (owned : Owned h blocks) {p size : Nat} :
    h.Payload p size ↔ ∃ whole, (p, whole) ∈ taken sizeofBlock heapStart blocks ∧ size ≤ whole := by
  constructor
  · intro ⟨held, room⟩
    obtain ⟨whole, member⟩ := (owned.payloads p).mp held
    obtain ⟨x, found, rfl⟩ := mem_taken.mp member
    rw [Nat.add_sub_cancel, owned.heap.tiles.size_eq found] at room
    exact ⟨whole, member, room⟩
  · intro ⟨whole, member, room⟩
    refine ⟨(owned.payloads p).mpr ⟨whole, member⟩, ?_⟩
    obtain ⟨x, found, rfl⟩ := mem_taken.mp member
    rw [Nat.add_sub_cancel, owned.heap.tiles.size_eq found]
    exact room

theorem Payload.stores {h : Heap} {blocks : List Block} (owned : Owned h blocks) {m : Ram}
    {p size : Nat} (payload : h.Payload p size) (same : ∀ w, w < p ∨ p + size ≤ w → m w = h.ram w) :
    Owned ⟨m, h.allocated⟩ blocks := by
  obtain ⟨whole, member, room⟩ := (payload_iff owned).mp payload
  exact ⟨owned.heap.payload member fun w outside => same w (by omega), owned.payloads⟩

section Sound

variable {h : Heap} (sound : h.Sound)
include sound

theorem Payload.inside {p size : Nat} (payload : h.Payload p size) :
    heapStart + sizeofBlock ≤ p ∧ p + size ≤ heapEnd ∧ p % 4 = 0 := by
  obtain ⟨blocks, owned⟩ := sound
  obtain ⟨whole, member, room⟩ := (payload_iff owned).mp payload
  have bounds := taken_bounds member
  rw [owned.heap.total] at bounds
  obtain ⟨l, r, rfl, rfl⟩ := taken_split member
  have aligned := span_aligned l fun b inside => owned.heap.aligned b (by simp [inside])
  simp only [heapStart, heapEnd, sizeofBlock] at *
  omega

theorem Payload.apart {p size q size' : Nat} (payload : h.Payload p size)
    (other : h.Payload q size') (distinct : p ≠ q) : p + size + sizeofBlock ≤ q ∨
    q + size' + sizeofBlock ≤ p := by
  obtain ⟨blocks, owned⟩ := sound
  obtain ⟨whole, member, room⟩ := (payload_iff owned).mp payload
  obtain ⟨whole', member', room'⟩ := (payload_iff owned).mp other
  obtain ⟨x, header, rfl⟩ := mem_taken.mp member'
  rcases taken_apart member header (Ne.symm distinct) with before | after
  · exact .inr (by simp only at before; omega)
  · exact .inl (by omega)

theorem kmalloc_some {h' : Heap} {size p : Nat} (small : size ≤ heapEnd - heapStart)
    (returned : h.kmalloc size = (some p, h')) :
    h'.Sound ∧ p ∉ h.allocated ∧ h'.allocated = insert p h.allocated ∧ h'.Payload p size ∧
      (∀ q n, h.Payload q n → h'.Payload q n ∧ ∀ w, q ≤ w → w < q + n → h'.ram w = h.ram w) ∧
      ∀ w < heapStart, h'.ram w = h.ram w := by
  obtain ⟨blocks, owned⟩ := sound
  rcases call : NovaKernel.kmalloc h.ram size with ⟨ptr, m⟩
  simp only [kmalloc, call, Prod.mk.injEq] at returned
  obtain ⟨rfl, rfl⟩ := returned
  obtain ⟨fresh, blocks', whole, owned', member, room, others⟩ := owned.kmalloc_some small call
  obtain ⟨-, -, -, outside⟩ := NovaKernel.kmalloc_some owned.heap call
  refine ⟨⟨blocks', owned'⟩, fresh, rfl, (payload_iff owned').mpr ⟨whole, member, room⟩,
    fun q n payload => ?_, fun w low => outside w fun x b found _ => .inl ?_⟩
  · obtain ⟨t, member', room'⟩ := (payload_iff owned).mp payload
    obtain ⟨kept, same⟩ := others q t member'
    exact ⟨(payload_iff owned').mpr ⟨t, kept, room'⟩,
      fun w low high => same w (by omega) (by omega)⟩
  · have := layout_bounds found
    omega

theorem kfree_sound {p : Nat} (held : p ∈ h.allocated) :
    (h.kfree p).Sound ∧
      (∀ q n, h.Payload q n → q ≠ p →
        (h.kfree p).Payload q n ∧ ∀ w, q ≤ w → w < q + n → (h.kfree p).ram w = h.ram w) ∧
      ∀ w < heapStart, (h.kfree p).ram w = h.ram w := by
  obtain ⟨blocks, owned⟩ := sound
  obtain ⟨blocks', owned', others⟩ := owned.kfree held
  obtain ⟨whole, member⟩ := (owned.payloads p).mp held
  have bounds := taken_bounds member
  refine ⟨⟨blocks', owned'⟩, fun q n payload distinct => ?_,
    fun w low => (kfree_spec owned.heap member).2 w (.inl (by omega))⟩
  obtain ⟨t, member', room'⟩ := (payload_iff owned).mp payload
  obtain ⟨kept, same⟩ := others q t member' distinct
  exact ⟨(payload_iff owned').mpr ⟨t, kept, room'⟩, fun w low high => same w (by omega) (by omega)⟩

theorem stores_inside {m : Ram} {p size : Nat} (payload : h.Payload p size)
    (same : ∀ w, w < p ∨ p + size ≤ w → m w = h.ram w) :
    Sound ⟨m, h.allocated⟩ ∧ ∀ q n, h.Payload q n → Payload ⟨m, h.allocated⟩ q n := by
  obtain ⟨blocks, owned⟩ := sound
  have owned' := payload.stores owned same
  exact ⟨⟨blocks, owned'⟩, fun q n other => (payload_iff owned').mpr ((payload_iff owned).mp other)⟩

theorem stores_outside {m : Ram} (same : ∀ w, heapStart ≤ w → m w = h.ram w) :
    Sound ⟨m, h.allocated⟩ ∧ ∀ q n, h.Payload q n → Payload ⟨m, h.allocated⟩ q n := by
  obtain ⟨blocks, owned⟩ := sound
  have owned' : Owned ⟨m, h.allocated⟩ blocks :=
    ⟨owned.heap.congr fun x b found w low _ => same w (by have := layout_bounds found; omega), owned.payloads⟩
  exact ⟨⟨blocks, owned'⟩, fun q n other => (payload_iff owned').mpr ((payload_iff owned).mp other)⟩

end Sound

end Heap

end NovaKernel
