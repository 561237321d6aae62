import NovaKernel.Boot

set_option autoImplicit false

namespace NovaKernel

namespace Heap

/-- What an allocation leaves: the old payloads with their words, and everything below the heap. -/
structure Extends (h h' : Heap) : Prop where
  sound : h'.Sound
  payloads : ∀ q n, h.Payload q n → h'.Payload q n ∧ ∀ w, q ≤ w → w < q + n → h'.ram w = h.ram w
  low : ∀ w < heapStart, h'.ram w = h.ram w

variable {h h₁ : Heap}

theorem payload_zero {p : Nat} (held : p ∈ h.allocated) : h.Payload p 0 := ⟨held, Nat.zero_le _⟩

theorem Payload.ne_zero {p n : Nat} (sound : h.Sound) (payload : h.Payload p n) : p ≠ 0 := by
  have inside := Payload.inside sound payload
  simp only [heapStart] at inside
  omega

theorem Extends.allocated (extended : h.Extends h₁) {p : Nat} (held : p ∈ h.allocated) :
    p ∈ h₁.allocated :=
  (extended.payloads p 0 (payload_zero held)).1.1

theorem Extends.refl (sound : h.Sound) : h.Extends h :=
    ⟨sound, fun _ _ held => ⟨held, fun _ _ _ => rfl⟩, fun _ _ => rfl⟩

theorem Extends.trans {h₂ : Heap} (first : h.Extends h₁) (second : h₁.Extends h₂) :
    h.Extends h₂ where
  sound := second.sound
  payloads q n held := by
    obtain ⟨held₁, same⟩ := first.payloads q n held
    obtain ⟨held₂, same₂⟩ := second.payloads q n held₁
    exact ⟨held₂, fun w low high => (same₂ w low high).trans (same w low high)⟩
  low w below := (second.low w below).trans (first.low w below)

theorem kmalloc_extends {size p : Nat} (sound : h.Sound) (small : size ≤ heapEnd - heapStart)
    (returned : h.kmalloc size = (some p, h₁)) :
    h.Extends h₁ ∧ p ∉ h.allocated ∧ h₁.allocated = insert p h.allocated ∧ h₁.Payload p size := by
  obtain ⟨sound', fresh, allocated, payload, others, low⟩ := kmalloc_some sound small returned
  exact ⟨⟨sound', others, low⟩, fresh, allocated, payload⟩

theorem Extends.stores {m : Ram} {p n : Nat} (extended : h.Extends h₁) (fresh : p ∉ h.allocated)
    (payload : h₁.Payload p n) (same : ∀ w, w < p ∨ p + n ≤ w → m w = h₁.ram w) :
    h.Extends ⟨m, h₁.allocated⟩ ∧ ∀ q k, h₁.Payload q k → Payload ⟨m, h₁.allocated⟩ q k := by
  obtain ⟨sound, kept⟩ := stores_inside extended.sound payload same
  refine ⟨⟨sound, fun q k held => ?_, fun w below => ?_⟩, kept⟩
  · obtain ⟨held₁, words⟩ := extended.payloads q k held
    have distinct : p ≠ q := by
      rintro rfl
      exact fresh held.1
    have apart := Payload.apart extended.sound payload held₁ distinct
    exact ⟨kept q k held₁, fun w low high => (same w (by omega)).trans (words w low high)⟩
  · have inside := Payload.inside extended.sound payload
    exact (same w (.inl (by omega))).trans (extended.low w below)

theorem Extends.kfree {p : Nat} (extended : h.Extends h₁) (fresh : p ∉ h.allocated)
    (held : p ∈ h₁.allocated) :
    h.Extends (h₁.kfree p) := by
  obtain ⟨sound, others, low⟩ := kfree_sound extended.sound held
  refine ⟨sound, fun q n payload => ?_, fun w below => (low w below).trans (extended.low w below)⟩
  obtain ⟨payload₁, words⟩ := extended.payloads q n payload
  have distinct : q ≠ p := by
    rintro rfl
    exact fresh payload.1
  obtain ⟨kept, same⟩ := others q n payload₁ distinct
  exact ⟨kept, fun w first last => (same w first last).trans (words w first last)⟩

end Heap

def Task.blocks (t : Task) : List (Nat × Nat) :=
  [(t.stackBottom, taskStack), (t.irqStackTop - irqStack, irqStack), t.firstFrame].filter fun b => b.1 != 0

inductive Kernel.Owns (k : Kernel) (i lo n : Nat) : Prop
  | block {b : Nat × Nat} : b ∈ (k.tasks i).blocks → b.1 ≤ lo → lo + n ≤ b.1 + b.2 → Owns k i lo n
  | bootStack : i = 0 → k.bootStack ≤ lo → lo + n ≤ k.bootStack + taskStack → Owns k i lo n

/-- The ready tasks and the shell hold their heap blocks, each for itself. -/
structure Memory (k : Kernel) (buffers : Finset Nat) : Prop where
  sound : k.heap.Sound
  bootStack : k.bootStack + taskStack ≤ heapStart
  aligned : k.bootStack % 4 = 0
  held : ∀ i, (k.tasks i).ready = true → ∀ b ∈ (k.tasks i).blocks, k.heap.Payload b.1 b.2
  apart : ∀ i j, (k.tasks i).ready = true → (k.tasks j).ready = true → ∀ b ∈ (k.tasks i).blocks,
    ∀ c ∈ (k.tasks j).blocks, b.1 = c.1 → i = j
  buffers : ∀ p ∈ buffers, p ∈ k.heap.allocated ∧
    ∀ i, (k.tasks i).ready = true → ∀ b ∈ (k.tasks i).blocks, b.1 ≠ p
  stack : ∀ i, (k.tasks i).ready = true → k.Owns i (k.stackLow i) (k.stackHigh i - k.stackLow i)

def Kernel.SameWords (k k' : Kernel) (i : Nat) : Prop :=
  ∀ lo n, k.Owns i lo n → ∀ w, lo ≤ w → w < lo + n → k'.heap.ram w = k.heap.ram w

/-- A saved `esp` points at a whole interrupt frame in the task's own memory, as it was stored. -/
structure Kernel.Parked (k : Kernel) (i : Nat) : Prop where
  present : (k.tasks i).esp ≠ 0
  own : k.Owns i (k.tasks i).esp (4 * frameWords (k.tasks i).flags)
  stored : k.heap.ram.readWords (k.tasks i).esp (frameWords (k.tasks i).flags) = (k.tasks i).saved
  ring : (k.tasks i).saved.getD 15 0 % 4 = if (k.tasks i).flags = .user then 3 else 0

section Carry

variable {k k' : Kernel} {i : Nat}

theorem Kernel.Owns.congr {lo n : Nat} (own : k.Owns i lo n)
    (blocks : (k'.tasks i).blocks = (k.tasks i).blocks) (bootStack : k'.bootStack = k.bootStack) :
    k'.Owns i lo n := by
  cases own with
  | block member low high => exact .block (blocks ▸ member) low high
  | bootStack first low high => exact .bootStack first (bootStack ▸ low) (bootStack ▸ high)

theorem Kernel.Parked.carry (parked : k.Parked i) (task : k'.tasks i = k.tasks i)
    (bootStack : k'.bootStack = k.bootStack) (same : k.SameWords k' i) : k'.Parked i := by
  constructor
  · rw [task]
    exact parked.present
  · rw [task]
    exact parked.own.congr (congrArg Task.blocks task) bootStack
  · rw [task, ← parked.stored]
    exact Ram.readWords_congr (same _ _ parked.own)
  · rw [task]
    exact parked.ring

theorem Kernel.Parked.built {t : Task} {b : Nat × Nat} (task : k.tasks i = t) (present : t.esp ≠ 0)
    (block : b ∈ t.blocks) (low : b.1 ≤ t.esp) (high : t.esp + 4 * frameWords t.flags ≤ b.1 + b.2)
    (stored : k.heap.ram.readWords t.esp (frameWords t.flags) = t.saved)
    (ring : t.saved.getD 15 0 % 4 = if t.flags = .user then 3 else 0) : k.Parked i := by
  subst task
  exact ⟨present, .block block low high, stored, ring⟩

theorem stackLow_congr (task : (k'.tasks i).flags = (k.tasks i).flags ∧
    (k'.tasks i).irqStackTop = (k.tasks i).irqStackTop ∧
      (k'.tasks i).stackBottom = (k.tasks i).stackBottom)
    (bootStack : k'.bootStack = k.bootStack) :
    k'.stackLow i = k.stackLow i ∧ k'.stackHigh i = k.stackHigh i := by
  obtain ⟨flags, top, bottom⟩ := task
  simp only [Kernel.stackHigh, Kernel.stackLow, flags, top, bottom, bootStack, and_self]

end Carry

namespace Memory

variable {k k' : Kernel} {buffers : Finset Nat} (mem : Memory k buffers)
include mem

theorem separate {i j lo lo' n n' : Nat} (distinct : i ≠ j) (ready : (k.tasks i).ready = true)
    (ready' : (k.tasks j).ready = true) (own : k.Owns i lo n) (own' : k.Owns j lo' n') :
    lo + n ≤ lo' ∨ lo' + n' ≤ lo := by
  have boot := mem.bootStack
  cases own with
  | block member low high =>
    have payload := mem.held i ready _ member
    have inside := Heap.Payload.inside mem.sound payload
    cases own' with
    | block member' low' high' =>
      have apart := Heap.Payload.apart mem.sound payload (mem.held j ready' _ member')
        fun same => distinct (mem.apart i j ready ready' _ member _ member' same)
      omega
    | bootStack first low' high' => exact .inr (by omega)
  | bootStack first low high =>
    cases own' with
    | block member' low' high' =>
      have inside := Heap.Payload.inside mem.sound (mem.held j ready' _ member')
      exact .inl (by omega)
    | bootStack first' low' high' => omega

theorem separate_buffer {i lo n p size : Nat} (ready : (k.tasks i).ready = true)
    (own : k.Owns i lo n) (member : p ∈ buffers) (payload : k.heap.Payload p size) :
    lo + n ≤ p ∨ p + size ≤ lo := by
  have boot := mem.bootStack
  have inside := Heap.Payload.inside mem.sound payload
  cases own with
  | block held low high =>
    have apart := Heap.Payload.apart mem.sound (mem.held i ready _ held) payload
      ((mem.buffers p member).2 i ready _ held)
    omega
  | bootStack first low high => exact .inl (by omega)

theorem carry {buffers' : Finset Nat} (sound : k'.heap.Sound)
    (bootStack : k'.bootStack = k.bootStack)
    (tasks : ∀ i, (k'.tasks i).ready = true → (k.tasks i).ready = true ∧ (k'.tasks i).flags = (k.tasks i).flags ∧
      (k'.tasks i).irqStackTop = (k.tasks i).irqStackTop ∧
      (k'.tasks i).stackBottom = (k.tasks i).stackBottom ∧
        (k'.tasks i).firstFrame = (k.tasks i).firstFrame)
    (held : ∀ i, (k.tasks i).ready = true → ∀ b ∈ (k.tasks i).blocks, k'.heap.Payload b.1 b.2)
    (kept : ∀ p ∈ buffers', p ∈ k'.heap.allocated ∧
      ∀ i, (k.tasks i).ready = true → ∀ b ∈ (k.tasks i).blocks, b.1 ≠ p) : Memory k' buffers' := by
  have blocks : ∀ i, (k'.tasks i).ready = true →
      (k.tasks i).ready = true ∧ (k'.tasks i).blocks = (k.tasks i).blocks := fun i ready => by
    obtain ⟨ready', -, top, bottom, first⟩ := tasks i ready
    exact ⟨ready', by rw [Task.blocks, Task.blocks, top, bottom, first]⟩
  constructor
  · exact sound
  · rw [bootStack]
    exact mem.bootStack
  · rw [bootStack]
    exact mem.aligned
  · intro i ready b member
    rw [(blocks i ready).2] at member
    exact held i (blocks i ready).1 b member
  · intro i j ready ready' b member c member' same
    rw [(blocks i ready).2] at member
    rw [(blocks j ready').2] at member'
    exact mem.apart i j (blocks i ready).1 (blocks j ready').1 b member c member' same
  · intro p member
    refine ⟨(kept p member).1, fun i ready b held => ?_⟩
    rw [(blocks i ready).2] at held
    exact (kept p member).2 i (blocks i ready).1 b held
  · intro i ready
    obtain ⟨ready', flags, top, bottom, -⟩ := tasks i ready
    obtain ⟨low, high⟩ : k'.stackLow i = k.stackLow i ∧ k'.stackHigh i = k.stackHigh i :=
      stackLow_congr ⟨flags, top, bottom⟩ bootStack
    rw [low, high]
    exact (mem.stack i ready').congr (blocks i ready).2 bootStack

theorem retask (heap : k'.heap = k.heap) (bootStack : k'.bootStack = k.bootStack)
    (tasks : ∀ i, (k'.tasks i).ready = true → (k.tasks i).ready = true ∧ (k'.tasks i).flags = (k.tasks i).flags ∧
      (k'.tasks i).irqStackTop = (k.tasks i).irqStackTop ∧
      (k'.tasks i).stackBottom = (k.tasks i).stackBottom ∧
        (k'.tasks i).firstFrame = (k.tasks i).firstFrame) :
    Memory k' buffers :=
  mem.carry (heap ▸ mem.sound) bootStack tasks (fun i ready b member => heap ▸ mem.held i ready b member)
    fun p member => heap ▸ mem.buffers p member

theorem stores {i lo n : Nat} {m : Ram} (ready : (k.tasks i).ready = true) (own : k.Owns i lo n)
    (same : ∀ w, w < lo ∨ lo + n ≤ w → m w = k.heap.ram w) :
    Memory { k with heap := ⟨m, k.heap.allocated⟩ } buffers ∧
      ∀ j, j ≠ i → (k.tasks j).ready = true →
        k.SameWords { k with heap := ⟨m, k.heap.allocated⟩ } j := by
  have kept : Heap.Sound ⟨m, k.heap.allocated⟩ ∧
      ∀ q n, k.heap.Payload q n → Heap.Payload ⟨m, k.heap.allocated⟩ q n := by
    have boot := mem.bootStack
    cases own with
    | block member low high =>
      exact Heap.stores_inside mem.sound (mem.held i ready _ member) fun w outside =>
        same w (by omega)
    | bootStack first low high =>
      exact Heap.stores_outside mem.sound fun w above =>
        same w (.inr (by omega))
  refine ⟨mem.carry kept.1 rfl (fun _ ready => ⟨ready, rfl, rfl, rfl, rfl⟩)
    (fun i ready b member => kept.2 _ _ (mem.held i ready b member)) mem.buffers, ?_⟩
  intro j other ready' lo' n' own' w low high
  have apart := mem.separate other ready' ready own' own
  exact same w (by omega)

theorem buffer_stores {p size : Nat} {m : Ram} (member : p ∈ buffers)
    (payload : k.heap.Payload p size) (same : ∀ w, w < p ∨ p + size ≤ w → m w = k.heap.ram w) :
    Memory { k with heap := ⟨m, k.heap.allocated⟩ } buffers ∧
      ∀ j, (k.tasks j).ready = true → k.SameWords { k with heap := ⟨m, k.heap.allocated⟩ } j := by
  have kept := Heap.stores_inside mem.sound payload same
  refine ⟨mem.carry kept.1 rfl (fun _ ready => ⟨ready, rfl, rfl, rfl, rfl⟩)
    (fun i ready b member => kept.2 _ _ (mem.held i ready b member)) mem.buffers, ?_⟩
  intro j ready lo n own w low high
  have apart := mem.separate_buffer ready own member payload
  exact same w (by omega)

theorem extended {h : Heap} (extended : k.heap.Extends h) (heap : k'.heap = h) {j : Nat}
    (ready : (k.tasks j).ready = true) : k.SameWords k' j := by
  intro lo n own w low high
  have boot := mem.bootStack
  rw [heap]
  cases own with
  | block member first last =>
    exact (extended.payloads _ _ (mem.held j ready _ member)).2 w (by omega) (by omega)
  | bootStack _ first last => exact extended.low w (by omega)

theorem extend {h : Heap} (extended : k.heap.Extends h) : Memory { k with heap := h } buffers :=
  mem.carry extended.sound rfl (fun _ ready => ⟨ready, rfl, rfl, rfl, rfl⟩)
    (fun i ready b member => (extended.payloads _ _ (mem.held i ready b member)).1)
    fun p member => ⟨extended.allocated (mem.buffers p member).1, (mem.buffers p member).2⟩

theorem addTask {slot : Nat} {t : Task} {h : Heap} (free : k.FreeSlot slot)
    (extended : k.heap.Extends h) (blocks : t.ready = true → ∀ b ∈ t.blocks, h.Payload b.1 b.2 ∧ b.1 ∉ k.heap.allocated)
    (stack : t.ready = true → t.flags = .user ∧ (t.irqStackTop - irqStack, irqStack) ∈ t.blocks) :
    Memory { k.addTask slot t with heap := h } buffers := by
  have at_slot : (k.addTask slot t).tasks slot = t := Function.update_self _ _ _
  have at_ne : ∀ i, i ≠ slot → (k.addTask slot t).tasks i = k.tasks i := fun i other =>
    Function.update_of_ne other _ _
  have before := mem.extend extended
  have fresh : ∀ i, (k.tasks i).ready = true → t.ready = true →
    ∀ b ∈ (k.tasks i).blocks, ∀ c ∈ t.blocks,
      b.1 ≠ c.1 := fun i ready ready' b member c member' same =>
    (blocks ready' c member').2 (same ▸ (mem.held i ready b member).1)
  constructor
  · exact extended.sound
  · exact mem.bootStack
  · exact mem.aligned
  · intro i ready b member
    change ((k.addTask slot t).tasks i).ready = true at ready
    change b ∈ ((k.addTask slot t).tasks i).blocks at member
    by_cases here : i = slot
    · subst here
      rw [at_slot] at ready member
      exact (blocks ready b member).1
    · rw [at_ne i here] at ready member
      exact before.held i ready b member
  · intro i j ready ready' b member c member' same
    change ((k.addTask slot t).tasks i).ready = true at ready
    change ((k.addTask slot t).tasks j).ready = true at ready'
    change b ∈ ((k.addTask slot t).tasks i).blocks at member
    change c ∈ ((k.addTask slot t).tasks j).blocks at member'
    by_cases here : i = slot <;> by_cases there : j = slot
    · rw [here, there]
    · rw [here, at_slot] at ready member
      rw [at_ne j there] at ready' member'
      exact absurd same.symm (fresh j ready' ready c member' b member)
    · rw [at_ne i here] at ready member
      rw [there, at_slot] at ready' member'
      exact absurd same (fresh i ready ready' b member c member')
    · rw [at_ne i here] at ready member
      rw [at_ne j there] at ready' member'
      exact mem.apart i j ready ready' b member c member' same
  · intro p member
    refine ⟨(before.buffers p member).1, fun i ready b held => ?_⟩
    change ((k.addTask slot t).tasks i).ready = true at ready
    change b ∈ ((k.addTask slot t).tasks i).blocks at held
    by_cases here : i = slot
    · rw [here, at_slot] at ready held
      rintro rfl
      exact (blocks ready b held).2 (mem.buffers _ member).1
    · rw [at_ne i here] at ready held
      exact (mem.buffers p member).2 i ready b held
  · intro i ready
    change ((k.addTask slot t).tasks i).ready = true at ready
    by_cases here : i = slot
    · subst here
      rw [at_slot] at ready
      obtain ⟨user, own⟩ := stack ready
      have low : ({ k.addTask i t with heap := h } : Kernel).stackLow i =
          t.irqStackTop - irqStack := by
        simp only [Kernel.stackLow, at_slot, user]
      have high : ({ k.addTask i t with heap := h } : Kernel).stackHigh i = t.irqStackTop := by
        simp only [Kernel.stackHigh, at_slot, user]
      have size : t.irqStackTop - (t.irqStackTop - irqStack) ≤ irqStack := by
        generalize irqStack = size
        omega
      have member : (t.irqStackTop - irqStack, irqStack) ∈ ((k.addTask i t).tasks i).blocks := by
        rw [at_slot]
        exact own
      rw [low, high]
      exact .block member (Nat.le_refl _) (Nat.add_le_add_left size _)
    · rw [at_ne i here] at ready
      have same := at_ne i here
      obtain ⟨low, high⟩ : Kernel.stackLow { k.addTask slot t with heap := h } i = k.stackLow i ∧
          Kernel.stackHigh { k.addTask slot t with heap := h } i = k.stackHigh i :=
        stackLow_congr (by simp only [same, and_self]) rfl
      rw [low, high]
      exact (mem.stack i ready).congr (congrArg Task.blocks same) rfl

end Memory

end NovaKernel
