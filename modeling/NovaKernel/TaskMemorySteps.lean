import NovaKernel.TaskMemory

set_option autoImplicit false

namespace NovaKernel

open Arena RoundRobin Transition

theorem Kernel.Owns.mono {k : Kernel} {i lo n lo' n' : Nat} (own : k.Owns i lo n) (low : lo ≤ lo')
    (high : lo' + n' ≤ lo + n) : k.Owns i lo' n' := by
  cases own with
  | block member first last => exact .block member (by omega) (by omega)
  | bootStack here first last => exact .bootStack here (by omega) (by omega)

section Interrupt

variable {acc : Access} {s : System} {a : Arrival} (table : Table s.kernel) (arrives : Arrives s a)
include table arrives

theorem frame_inside : s.kernel.stackLow s.kernel.current ≤ a.r ∧
    a.r + 4 * frameWords (s.kernel.tasks s.kernel.current).flags ≤
      s.kernel.stackHigh s.kernel.current := by
  cases flags : (s.kernel.tasks s.kernel.current).flags with
  | user =>
    have process := (table.user_iff table.running).mp flags
    have room := (table.processes _ process table.running).2
    have esp0 := table.esp0 flags
    have place := (arrives.user flags).2
    simp only [Kernel.stackHigh, Kernel.stackLow, flags, frameWords]
    simp only [irqStack] at room ⊢
    omega
  | kernel =>
    obtain ⟨-, -, -, -, -, low, high⟩ := arrives.kernel flags
    exact ⟨low, high⟩

theorem entered_outside {w : Nat} (outside : w < s.kernel.stackLow s.kernel.current ∨
    s.kernel.stackHigh s.kernel.current ≤ w) :
      (s.kernel.entered a).heap.ram w = s.kernel.heap.ram w := by
  obtain ⟨low, high⟩ := frame_inside table arrives
  have words := frameWords_le (s.kernel.tasks s.kernel.current).flags
  have length : (a.regs.words.take (frameWords (s.kernel.tasks s.kernel.current).flags)).length =
      frameWords (s.kernel.tasks s.kernel.current).flags := by
    rw [List.length_take, Regs.words_length]
    omega
  have notBelow : ¬ (s.kernel.stackLow s.kernel.current ≤ w ∧ w < a.r) := by omega
  simp only [Kernel.entered, Kernel.pushFrame, notBelow, if_false]
  exact Ram.writeWords_outside _ _ (by rw [length]; omega)

omit table arrives in
theorem entered_saved {i : Nat} (inside : i < 17) :
    ((s.kernel.entered a).heap.ram.readWords a.r (frameWords (s.kernel.tasks s.kernel.current).flags)).getD i 0 =
      a.regs.words.getD i 0 := by
  have words := frameWords_le (s.kernel.tasks s.kernel.current).flags
  rw [← Kernel.entered_word (k := s.kernel) (a := a) inside, List.getD_eq_getElem?_getD,
    Ram.readWords, List.getElem?_map, List.getElem?_range (by omega)]
  rfl

omit table in
theorem arrives_ring : a.regs.cs % 4 =
    if (s.kernel.tasks s.kernel.current).flags = .user then 3 else 0 := by
  cases flags : (s.kernel.tasks s.kernel.current).flags with
  | user => exact (arrives.user flags).1
  | kernel =>
    obtain ⟨-, -, -, selector, -⟩ := arrives.kernel flags
    rw [selector]
    rfl

end Interrupt

theorem Kernel.slicedTasks_blocks (k : Kernel) (frame next i : Nat) :
    (k.slicedTasks frame next i).stackBottom = (k.tasks i).stackBottom ∧
      (k.slicedTasks frame next i).firstFrame = (k.tasks i).firstFrame := by
  unfold slicedTasks
  by_cases here : i = next <;> by_cases old : i = k.current <;> by_cases self : next = k.current <;>
    simp_all [Function.update_apply, parked]

section Steps

variable {acc : Access} {k k' : Kernel} {buffers : Finset Nat}

namespace Memory

variable (mem : Memory k buffers)
include mem

theorem setEax {r : Nat} (value : Nat) (ready : (k.tasks k.current).ready = true)
    (low : k.stackLow k.current ≤ r) (high : r + 4 * 17 ≤ k.stackHigh k.current) :
    Memory (k.setEax r value) buffers ∧
      ∀ j, j ≠ k.current → (k.tasks j).ready = true → k.SameWords (k.setEax r value) j := by
  refine mem.stores ready (mem.stack _ ready) fun w outside => ?_
  apply Ram.set_ne
  simp only [Regs.offEax]
  omega

theorem entered {s : System} {a : Arrival} (table : Table s.kernel) (arrives : Arrives s a)
    (kernel : s.kernel = k) : Memory (k.entered a) buffers ∧
      ∀ j, j ≠ k.current → (k.tasks j).ready = true → k.SameWords (k.entered a) j := by
  subst kernel
  have ready := table.running
  exact mem.stores ready (mem.stack _ ready) fun w outside =>
    entered_outside table arrives (by omega)

end Memory

theorem user_blocks {t : Task} (bottom : t.stackBottom = 0) (base : Nat)
    (top : t.irqStackTop = base + irqStack) (inside : base ≠ 0) :
    t.blocks = (base, irqStack) :: if t.firstFrame.1 = 0 then [] else [t.firstFrame] := by
  have stack : t.irqStackTop - irqStack = base := by rw [top, Nat.add_sub_cancel]
  by_cases first : t.firstFrame.1 = 0
  · simp [Task.blocks, bottom, stack, inside, first]
  · simp [Task.blocks, bottom, stack, inside, first]

section Blocks

variable (k : Kernel) {base copy area : Nat}

theorem Kernel.childTask_blocks (child : Nat) (h : Heap) (stack : base ≠ 0) (copied : copy ≠ 0) :
    (k.childTask child base copy h).blocks = [(base, irqStack), (copy, frameBytes)] := by
  rw [user_blocks rfl base rfl stack]
  exact congrArg _ (if_neg copied)

theorem Kernel.userTask_blocks (cr3 : Nat) (stack : base ≠ 0) :
    (k.userTask cr3 base).blocks = [(base, irqStack)] := by
  rw [user_blocks rfl base rfl stack]
  rfl

theorem Kernel.startedTask_blocks (cr3 : Nat) (h : Heap) (stack : base ≠ 0) (built : area ≠ 0) :
    (k.startedTask cr3 base area h).blocks = [(base, irqStack), (area, 0x1000)] := by
  rw [user_blocks rfl base rfl stack]
  exact congrArg _ (if_neg built)

end Blocks

theorem frameCopy_outside (h : Heap) (copy r : Nat) {w : Nat}
    (outside : w < copy ∨ copy + frameBytes ≤ w) :
    (Kernel.frameCopy h copy r).ram w = h.ram w := by
  apply Ram.writeWords_outside
  rw [Ram.readWords_length]
  simp only [frameBytes] at *
  omega

theorem frameCopy_word (h : Heap) (copy r : Nat) {i : Nat} (inside : i < 64) :
    (Kernel.frameCopy h copy r).ram (copy + 4 * i) = h.ram (r + 4 * i) := by
  have length : i < (h.ram.readWords r (frameBytes / 4)).length := by rwa [Ram.readWords_length]
  refine (Ram.writeWords_at _ _ _ length).trans ?_
  simp [Ram.readWords]

theorem childFrame_outside (h : Heap) (copy : Nat) {w : Nat}
    (outside : w < copy ∨ copy + frameBytes ≤ w) :
    (Kernel.childFrame h copy).ram w = h.ram w := by
  apply Ram.set_ne
  simp only [frameBytes] at outside
  omega

theorem entryFrame_outside (h : Heap) (area entry : Nat) {w : Nat}
    (outside : w < area ∨ area + 0x1000 ≤ w) :
    (Kernel.entryFrame h area entry).ram w = h.ram w := by
  have words : (Kernel.userFrame entry).length = 19 := rfl
  apply Ram.writeWords_outside
  rw [words]
  omega

namespace Kernel

structure Forked (h h' : Heap) (r copy base : Nat) : Prop where
  extended : h.Extends (childFrame h' copy)
  allocated : (childFrame h' copy).allocated = insert base (insert copy h.allocated)
  copied : (childFrame h' copy).Payload copy frameBytes
  stack : (childFrame h' copy).Payload base irqStack
  fresh : copy ∉ h.allocated ∧ base ∉ h.allocated
  distinct : base ≠ copy
  words : ∀ i < 19, (childFrame h' copy).ram (copy + 4 * i) =
    if i = 11 then 0 else h.ram (r + 4 * i)

theorem forked_heap {h h₁ h' : Heap} {r copy base : Nat} (sound : h.Sound)
    (copied : h.kmalloc frameBytes = (some copy, h₁))
    (stack : (frameCopy h₁ copy r).kmalloc irqStack = (some base, h'))
    (frame : ∀ i < 19, h₁.ram (r + 4 * i) = h.ram (r + 4 * i)) : Forked h h' r copy base := by
  obtain ⟨extended₁, fresh, allocated₁, payload₁⟩ := Heap.kmalloc_extends sound (by decide) copied
  obtain ⟨extended₂, kept₂⟩ :=
    extended₁.stores fresh payload₁ fun w outside => frameCopy_outside h₁ copy r outside
  change h.Extends (frameCopy h₁ copy r) at extended₂
  have payload₂ : (frameCopy h₁ copy r).Payload copy frameBytes := kept₂ _ _ payload₁
  obtain ⟨extended₃, fresh₃, allocated₃, payload₃⟩ :=
    Heap.kmalloc_extends extended₂.sound (by decide) stack
  obtain ⟨payload₄, words₄⟩ := extended₃.payloads _ _ payload₂
  obtain ⟨extended₅, kept₅⟩ := (extended₂.trans extended₃).stores fresh payload₄
    fun w outside => childFrame_outside h' copy outside
  change ∀ q k, h'.Payload q k → (childFrame h' copy).Payload q k at kept₅
  have distinct : base ≠ copy := by
    rintro rfl
    exact fresh₃ payload₂.1
  refine ⟨extended₅, ?_, kept₅ _ _ payload₄, kept₅ _ _ payload₃,
    ⟨fresh, fun held => fresh₃ (extended₂.allocated held)⟩,
    distinct, fun i inside => ?_⟩
  · change h'.allocated = _
    rw [allocated₃]
    change insert base h₁.allocated = _
    rw [allocated₁]
  · by_cases eax : i = 11
    · rw [if_pos eax, eax]
      exact Ram.set_self h'.ram (copy + 44) 0
    · rw [if_neg eax, ← frame i inside, ← frameCopy_word h₁ copy r (by omega)]
      refine (Ram.set_ne h'.ram 0 (by omega)).trans (words₄ _ (by omega) ?_)
      simp only [frameBytes]
      omega

end Kernel

section Exits

variable (mem : Memory k buffers)
include mem

theorem Memory.forkExit {r parent pid : Nat} (exit : k.ForkExit acc r parent pid k')
    (ready : (k.tasks k.current).ready = true) (frame : k.Owns k.current r (4 * 19))
    (ring : k.heap.ram (r + 60) % 4 = 3) :
    Memory k' buffers ∧ (∀ j, (k.tasks j).ready = true → k.SameWords k' j) ∧
      ∀ j, (k'.tasks j).ready = true → (k.tasks j).ready = true ∨ k'.Parked j := by
  have retasked : ∀ {k₁ k₂ : Kernel}, Memory k₁ buffers → k₂.heap = k₁.heap →
    k₂.bootStack = k₁.bootStack →
      k₂.tasks = k₁.tasks → Memory k₂ buffers := fun mem heap boot tasks =>
    mem.retask heap boot fun i ready => by
      rw [tasks] at ready ⊢
      exact ⟨ready, rfl, rfl, rfl, rfl⟩
  cases exit with
  | tableFull => exact ⟨mem, fun j _ _ _ _ _ _ _ => rfl, fun j ready => .inl ready⟩
  | noSpace => exact ⟨retasked mem rfl rfl rfl, fun j _ _ _ _ _ _ _ => rfl, fun j ready => .inl ready⟩
  | noCopy => exact ⟨retasked mem rfl rfl rfl, fun j _ _ _ _ _ _ _ => rfl, fun j ready => .inl ready⟩
  | @noStack slot child copy m m' h free _ copied inside full _ =>
    obtain ⟨extended₁, fresh, allocated₁, payload₁⟩ :=
      Heap.kmalloc_extends mem.sound (by decide) copied
    obtain ⟨extended₂, kept⟩ := extended₁.stores fresh payload₁ fun w outside =>
      frameCopy_outside h copy r outside
    have held : copy ∈ (Kernel.frameCopy h copy r).allocated := (kept _ _ payload₁).1
    have extended : k.heap.Extends ((Kernel.frameCopy h copy r).kfree copy) :=
      Heap.Extends.kfree extended₂ fresh held
    have added := mem.addTask (t := { k.newTask .user with ready := false }) free extended
      (fun ready => absurd ready (by simp)) (fun ready => absurd ready (by simp))
    refine ⟨retasked added rfl rfl rfl, fun j ready => mem.extended extended rfl ready,
      fun j ready => .inl ?_⟩
    by_cases here : j = slot
    · subst here
      rw [show (_ : Kernel).tasks j = _ from Function.update_self _ _ _] at ready
      exact absurd ready (by simp)
    · rwa [show (_ : Kernel).tasks j = _ from Function.update_of_ne here _ _] at ready
  | @forked slot child copy base m h h' free _ copied inside stack =>
    have same : k.SameWords { k with heap := h } k.current :=
      mem.extended (Heap.kmalloc_extends mem.sound (by decide) copied).1 rfl ready
    have words : ∀ i < 19, h.ram (r + 4 * i) = k.heap.ram (r + 4 * i) := fun i below =>
      same _ _ frame _ (by omega) (by omega)
    have heap := Kernel.forked_heap mem.sound copied stack words
    have copyNonzero := heap.copied.ne_zero heap.extended.sound
    have baseNonzero := heap.stack.ne_zero heap.extended.sound
    have blocks := k.childTask_blocks child (Kernel.childFrame h' copy) baseNonzero copyNonzero
    have added := mem.addTask (t := k.childTask child base copy (Kernel.childFrame h' copy)) free heap.extended
      (fun _ b member => by
        rw [blocks] at member
        rcases List.mem_pair.mp member with rfl | rfl
        · exact ⟨heap.stack, heap.fresh.2⟩
        · exact ⟨heap.copied, heap.fresh.1⟩)
      (fun _ => ⟨rfl, by
        rw [blocks]
        exact List.mem_pair.mpr (.inl (Prod.ext (Nat.add_sub_cancel _ _) rfl))⟩)
    refine ⟨retasked added rfl rfl rfl, fun j ready => mem.extended heap.extended rfl ready,
      fun j ready' => ?_⟩
    by_cases here : j = slot
    · right
      subst here
      have selector := heap.words 15 (by decide)
      refine .built (b := (copy, frameBytes))
        (t := k.childTask child base copy (Kernel.childFrame h' copy))
        (Function.update_self _ _ _) copyNonzero ?_ (Nat.le_refl copy) (Nat.add_le_add_left (show 4 * 19 ≤ frameBytes by decide) copy)
        rfl ?_
      · rw [blocks]
        exact List.mem_pair.mpr (.inr rfl)
      · have read : ((Kernel.childFrame h' copy).ram.readWords copy 19).getD 15 0 =
            (Kernel.childFrame h' copy).ram (copy + 4 * 15) := rfl
        change ((Kernel.childFrame h' copy).ram.readWords copy 19).getD 15 0 % 4 = 3
        rw [read, selector, if_neg (by decide)]
        exact ring
    · left
      rwa [show (_ : Kernel).tasks j = _ from Function.update_of_ne here _ _] at ready'

theorem Memory.userTask {slot base : Nat} {h : Heap} (free : k.FreeSlot slot)
    (stack : k.heap.kmalloc irqStack = (some base, h)) (cr3 : Nat) :
    Memory { k.addTask slot (k.userTask cr3 base) with heap := h } buffers := by
  obtain ⟨extended, fresh, -, payload⟩ := Heap.kmalloc_extends mem.sound (by decide) stack
  have blocks := k.userTask_blocks cr3 (payload.ne_zero extended.sound)
  refine mem.addTask (t := k.userTask cr3 base) free extended (fun _ b member => ?_)
    (fun _ => ⟨rfl, ?_⟩)
  · rw [blocks] at member
    obtain rfl := List.mem_singleton.mp member
    exact ⟨payload, fresh⟩
  · rw [blocks]
    exact List.mem_singleton.mpr (Prod.ext (Nat.add_sub_cancel _ _) rfl)

theorem Memory.createExit {entry cr3 pid : Nat} (exit : k.CreateExit entry cr3 pid k') :
    Memory k' buffers ∧ (∀ j, (k.tasks j).ready = true → k.SameWords k' j) ∧
      ∀ j, (k'.tasks j).ready = true → (k.tasks j).ready = true ∨ k'.Parked j ∨
        (k'.tasks j).esp = 0 ∧
        k.FreeSlot j ∧ ∃ base h, k.heap.kmalloc irqStack = (some base, h) ∧
          h.kmalloc 0x1000 = (none, h) := by
  cases exit with
  | tableFull => exact ⟨mem, fun j _ _ _ _ _ _ _ => rfl, fun j ready => .inl ready⟩
  | @noStack slot free full =>
    have extended := Heap.Extends.refl mem.sound
    have added := mem.addTask (t := { k.newTask .user with ready := false }) free extended
      (fun ready => absurd ready (by simp)) (fun ready => absurd ready (by simp))
    refine ⟨added, fun j ready => mem.extended extended rfl ready, fun j ready => .inl ?_⟩
    by_cases here : j = slot
    · subst here
      rw [show (_ : Kernel).tasks j = _ from Function.update_self _ _ _] at ready
      exact absurd ready (by simp)
    · rwa [show (_ : Kernel).tasks j = _ from Function.update_of_ne here _ _] at ready
  | @noArea slot base h free stack full =>
    have extended := (Heap.kmalloc_extends mem.sound (by decide) stack).1
    refine ⟨mem.userTask free stack cr3, fun j ready => mem.extended extended rfl ready,
      fun j ready => ?_⟩
    by_cases here : j = slot
    · subst here
      refine .inr (.inr ⟨?_, free, base, h, stack, full⟩)
      rw [show (_ : Kernel).tasks j = _ from Function.update_self _ _ _]
      rfl
    · left
      rwa [show (_ : Kernel).tasks j = _ from Function.update_of_ne here _ _] at ready
  | @created slot base area h h' free stack second =>
    obtain ⟨extended, fresh, allocated, payload⟩ := Heap.kmalloc_extends mem.sound (by decide) stack
    obtain ⟨extended₂, fresh₂, -, payload₂⟩ :=
      Heap.kmalloc_extends extended.sound (by decide) second
    have fresh' : area ∉ k.heap.allocated := fun held => fresh₂ (extended.allocated held)
    obtain ⟨extended₃, kept⟩ := (extended.trans extended₂).stores fresh' payload₂ fun w outside =>
      entryFrame_outside h' area entry outside
    change k.heap.Extends (Kernel.entryFrame h' area entry) at extended₃
    have stackPayload : (Kernel.entryFrame h' area entry).Payload base irqStack :=
      kept _ _ (extended₂.payloads _ _ payload).1
    have areaPayload : (Kernel.entryFrame h' area entry).Payload area 0x1000 := kept _ _ payload₂
    have blocks :=
      k.startedTask_blocks cr3 (Kernel.entryFrame h' area entry) (payload.ne_zero extended.sound)
      (payload₂.ne_zero extended₂.sound)
    have added := mem.addTask (t := k.startedTask cr3 base area (Kernel.entryFrame h' area entry)) free extended₃
      (fun _ b member => by
        rw [blocks] at member
        rcases List.mem_pair.mp member with rfl | rfl
        · exact ⟨stackPayload, fresh⟩
        · exact ⟨areaPayload, fresh'⟩)
      (fun _ => ⟨rfl, by
        rw [blocks]
        exact List.mem_pair.mpr (.inl (Prod.ext (Nat.add_sub_cancel _ _) rfl))⟩)
    refine ⟨added, fun j ready => mem.extended extended₃ rfl ready, fun j ready => ?_⟩
    by_cases here : j = slot
    · right
      left
      subst here
      have place : area ≤ area + 0x1000 - 4 * 19 ∧ area + 0x1000 - 4 * 19 ≠ 0 ∧
          area + 0x1000 - 4 * 19 + 4 * 19 ≤ area + 0x1000 := by omega
      refine .built (b := (area, 0x1000))
        (t := k.startedTask cr3 base area (Kernel.entryFrame h' area entry))
        (Function.update_self _ _ _) place.2.1 ?_ place.1 place.2.2 rfl ?_
      · rw [blocks]
        exact List.mem_pair.mpr (.inr rfl)
      · have saved : (Kernel.entryFrame h' area entry).ram.readWords (area + 0x1000 - 4 * 19) 19 =
            Kernel.userFrame entry := Ram.readWords_writeWords _ _ _
        change ((Kernel.entryFrame h' area entry).ram.readWords (area + 0x1000 - 4 * 19) 19).getD 15 0 % 4 = 3
        rw [saved]
        simp [Kernel.userFrame, gdtUcodeSel]
    · left
      rwa [show (_ : Kernel).tasks j = _ from Function.update_of_ne here _ _] at ready

theorem Memory.switched (frame next : Nat) : Memory (k.switched frame next) buffers := by
  refine mem.retask rfl rfl fun i ready => ?_
  obtain ⟨flags, ready', -, top⟩ := k.slicedTasks_same frame next i
  obtain ⟨bottom, first⟩ := k.slicedTasks_blocks frame next i
  exact ⟨ready'.symm.trans ready, flags, top, bottom, first⟩

theorem Memory.exited (next : Nat) (sys : Sys) (ready : (k.tasks next).ready = true)
    (other : next ≠ k.current) :
    Memory (k.exited next sys) buffers := by
  refine mem.retask rfl rfl fun i ready' => ?_
  by_cases here : i = next
  · subst here
    rw [show (k.exited i sys).tasks i = _ from Function.update_self _ _ _]
    exact ⟨ready, rfl, rfl, rfl, rfl⟩
  · have same : (k.exited next sys).tasks i = k.deadTasks i := Function.update_of_ne here _ _
    by_cases gone : i = k.current
    · rw [same, gone, Kernel.deadTasks, Function.update_self] at ready'
      exact absurd ready' (by simp)
    · rw [same, Kernel.deadTasks, Function.update_of_ne gone] at ready' ⊢
      exact ⟨ready', rfl, rfl, rfl, rfl⟩

end Exits

end Steps

theorem Memory.effect {s : System} {h : Heap} {buffers' : Finset Nat} {sys : Sys}
    (table : Table s.kernel) (mem : Memory s.kernel s.buffers) (effect : HeapEffect s h buffers') :
    Memory { s.kernel with sys := sys, heap := h } buffers' ∧
      ∀ j, j ≠ s.kernel.current → (s.kernel.tasks j).ready = true →
        s.kernel.SameWords { s.kernel with sys := sys, heap := h } j := by
  have resys : ∀ {heap : Heap} {buffers : Finset Nat}, Memory { s.kernel with heap := heap } buffers →
      Memory { s.kernel with sys := sys, heap := heap } buffers := fun mem =>
    mem.retask rfl rfl fun i ready => ⟨ready, rfl, rfl, rfl, rfl⟩
  cases effect with
  | same => exact ⟨resys mem, fun _ _ _ _ _ _ _ _ _ => rfl⟩
  | @threadStore addr value thread low high =>
    have ready := table.running
    obtain ⟨mem', kept⟩ :=
      mem.stores (m := s.kernel.heap.ram.set addr value) ready (mem.stack _ ready)
      fun w outside => Ram.set_ne _ _ (by omega)
    exact ⟨resys mem', kept⟩
  | @alloc size result h small returned =>
    cases result with
    | none =>
      obtain rfl := Heap.kmalloc_none returned
      exact ⟨resys mem, fun _ _ _ _ _ _ _ _ _ => rfl⟩
    | some p =>
      obtain ⟨extended, fresh, allocated, payload⟩ := Heap.kmalloc_extends mem.sound small returned
      have grown := mem.extend extended
      refine ⟨resys ⟨grown.sound, grown.bootStack, grown.aligned, grown.held, grown.apart, fun q member => ?_,
        grown.stack⟩, fun j _ ready => mem.extended extended rfl ready⟩
      rcases Finset.mem_insert.mp member with rfl | old
      · refine ⟨payload.1, fun i ready b held => ?_⟩
        rintro rfl
        exact fresh (mem.held i ready b held).1
      · exact grown.buffers q old
  | @free ptr member =>
    obtain ⟨held, apart⟩ := mem.buffers ptr member
    obtain ⟨sound, others, low⟩ := Heap.kfree_sound mem.sound held
    refine ⟨mem.carry sound rfl (fun _ ready => ⟨ready, rfl, rfl, rfl, rfl⟩)
      (fun i ready b held => (others _ _ (mem.held i ready b held) (apart i ready b held)).1)
      fun q left => ?_, fun j _ ready lo n own w first last => ?_⟩
    · obtain ⟨other, member'⟩ := Finset.mem_erase.mp left
      obtain ⟨held', apart'⟩ := mem.buffers q member'
      exact ⟨(others q 0 (Heap.payload_zero held') other).1.1, apart'⟩
    · have boot := mem.bootStack
      cases own with
      | block blocks below above =>
        exact (others _ _ (mem.held j ready _ blocks) (apart j ready _ blocks)).2 w
          (by omega) (by omega)
      | bootStack _ below above => exact low w (by omega)
  | @bufferStore ptr addr value member low high =>
    obtain ⟨mem', kept⟩ := mem.buffer_stores (m := s.kernel.heap.ram.set addr value) member
      ⟨(mem.buffers ptr member).1, Nat.le_refl _⟩ fun w outside => Ram.set_ne _ _ (by omega)
    exact ⟨resys mem', fun j _ ready => kept j ready⟩

structure Kernel.Alike (k k' : Kernel) : Prop where
  bootStack : k'.bootStack = k.bootStack
  current : k'.current = k.current
  tasks : ∀ i, (k'.tasks i).ready = (k.tasks i).ready ∧ (k'.tasks i).flags = (k.tasks i).flags ∧
    (k'.tasks i).irqStackTop = (k.tasks i).irqStackTop ∧
    (k'.tasks i).stackBottom = (k.tasks i).stackBottom ∧
      (k'.tasks i).firstFrame = (k.tasks i).firstFrame
  others : ∀ i, i ≠ k.current → k'.tasks i = k.tasks i

theorem Kernel.alike_taken (k : Kernel) (a : Arrival) : k.Alike (k.taken a) where
  bootStack := taken_bootStack
  current := taken_current
  tasks i := by
    obtain ⟨esp, saved, same⟩ := k.taken_kept a i
    rw [same]
    exact ⟨rfl, rfl, rfl, rfl, rfl⟩
  others i other := by
    rcases k.taken_task a i with same | ⟨-, -, here, -⟩
    · exact same
    · exact absurd here other

theorem Kernel.Alike.modify {k k' : Kernel} (alike : k.Alike k') {change : Task → Task}
    (kept : ∀ t, (change t).ready = t.ready ∧ (change t).flags = t.flags ∧
      (change t).irqStackTop = t.irqStackTop ∧ (change t).stackBottom = t.stackBottom ∧
      (change t).firstFrame = t.firstFrame) : k.Alike (k'.modify k.current change) where
  bootStack := alike.bootStack
  current := alike.current
  tasks i := by
    by_cases here : i = k.current
    · rw [here, modify_self]
      obtain ⟨ready, flags, top, bottom, first⟩ := kept (k'.tasks k.current)
      rw [ready, flags, top, bottom, first]
      exact alike.tasks k.current
    · rw [modify_other _ here]
      exact alike.tasks i
  others i other := (modify_other _ other).trans (alike.others i other)

section Returned

variable {acc : Access} {s : System} {a : Arrival} {k k' : Kernel} (table : Table s.kernel)
  (arrives : Arrives s a) (mem : Memory s.kernel s.buffers)
include table arrives mem

/-- What an interrupt keeps of the other tasks. -/
def Kernel.KeepsOthers (s : System) (k : Kernel) : Prop :=
  Memory k s.buffers ∧ ∀ j, j ≠ s.kernel.current → (k.tasks j).ready = true →
    ((s.kernel.tasks j).ready = true → s.kernel.Parked j) → k.Parked j

theorem keeps_alike (heap : k.heap = (s.kernel.entered a).heap) (alike : s.kernel.Alike k) :
    Kernel.KeepsOthers s k := by
  obtain ⟨entered, words⟩ := mem.entered table arrives rfl
  refine ⟨entered.retask heap alike.bootStack fun i ready => ?_, fun j other ready parked => ?_⟩
  · exact ⟨(alike.tasks i).1.symm.trans ready, (alike.tasks i).2⟩
  · have ready' : (s.kernel.tasks j).ready = true := (alike.tasks j).1.symm.trans ready
    refine (parked ready').carry (alike.others j other) alike.bootStack fun lo n own w low high => ?_
    rw [heap]
    exact words j other ready' lo n own w low high

omit mem in
theorem keeps_eax (value : Nat) (current : k.current = s.kernel.current)
    (bootStack : k.bootStack = s.kernel.bootStack)
    (task : (k.tasks s.kernel.current).ready = true ∧
      (k.tasks s.kernel.current).flags = (s.kernel.tasks s.kernel.current).flags ∧
      (k.tasks s.kernel.current).irqStackTop = (s.kernel.tasks s.kernel.current).irqStackTop ∧
      (k.tasks s.kernel.current).stackBottom = (s.kernel.tasks s.kernel.current).stackBottom)
    (keeps : Kernel.KeepsOthers s k) : Kernel.KeepsOthers s (k.setEax a.r value) := by
  obtain ⟨low, high⟩ := frame_inside table arrives
  have words := frameWords_le (s.kernel.tasks s.kernel.current).flags
  obtain ⟨sameLow, sameHigh⟩ := stackLow_congr task.2 bootStack
  rw [← sameLow, ← current] at low
  rw [← sameHigh, ← current] at high
  rw [current] at low high
  have stores :=
    keeps.1.setEax (r := a.r) value (by rw [current]; exact task.1) (by rw [current]; exact low)
    (by rw [current]; omega)
  refine ⟨stores.1, fun j other ready parked => ?_⟩
  exact (keeps.2 j other ready parked).carry rfl rfl (stores.2 j (by rwa [current]) ready)

theorem keeps_alike_eax (value : Nat) (heap : k.heap = (s.kernel.entered a).heap)
    (alike : s.kernel.Alike k) :
    Kernel.KeepsOthers s (k.setEax a.r value) := by
  obtain ⟨ready, flags, top, bottom, -⟩ := alike.tasks s.kernel.current
  exact keeps_eax table arrives value alike.current alike.bootStack
    ⟨ready.trans table.running, flags, top, bottom⟩ (keeps_alike table arrives mem heap alike)

theorem frame_owned (user : (s.kernel.tasks s.kernel.current).flags = .user) :
    (s.kernel.taken a).Owns (s.kernel.taken a).current a.r (4 * 19) := by
  have alike := s.kernel.alike_taken a
  have taken := keeps_alike table arrives mem Kernel.taken_heap alike
  obtain ⟨low, high⟩ := frame_inside table arrives
  obtain ⟨-, flags, top, bottom, -⟩ := alike.tasks s.kernel.current
  obtain ⟨sameLow, sameHigh⟩ : (s.kernel.taken a).stackLow s.kernel.current =
    s.kernel.stackLow s.kernel.current ∧
      (s.kernel.taken a).stackHigh s.kernel.current = s.kernel.stackHigh s.kernel.current :=
    stackLow_congr ⟨flags, top, bottom⟩ alike.bootStack
  rw [Kernel.taken_current]
  rw [user] at high
  simp only [frameWords] at high
  refine (taken.1.stack s.kernel.current (by simpa using table.running)).mono ?_ ?_
  · rwa [sameLow]
  · rw [sameLow, sameHigh]
    omega

theorem keeps_fork {pid : Nat} (user : (s.kernel.tasks s.kernel.current).flags = .user)
    (exit : (s.kernel.taken a).ForkExit acc a.r (s.kernel.tasks s.kernel.current).cr3 pid k) :
    Kernel.KeepsOthers s k := by
  have alike := s.kernel.alike_taken a
  have taken := keeps_alike table arrives mem Kernel.taken_heap alike
  have ready : ((s.kernel.taken a).tasks (s.kernel.taken a).current).ready = true := by
    simpa using table.running
  have ring : (s.kernel.taken a).heap.ram (a.r + 60) % 4 = 3 := by
    have word := Kernel.entered_word (k := s.kernel) (a := a) (i := 15) (by decide)
    rw [Kernel.taken_heap, show (s.kernel.entered a).heap.ram (a.r + 60) = _ from word]
    exact (arrives.user user).1
  obtain ⟨mem', words, new⟩ := taken.1.forkExit exit ready (frame_owned table arrives mem user) ring
  refine ⟨mem', fun j other live parked => ?_⟩
  rcases new j live with old | parked'
  · have old' : (s.kernel.tasks j).ready = true := (alike.tasks j).1.symm.trans old
    exact (taken.2 j other old fun _ => parked old').carry
      (exit.task_kept old) exit.bootStack (words j old)
  · exact parked'

theorem keeps_served (served : s.kernel.Served acc a k') : Kernel.KeepsOthers s k' := by
  have alike := s.kernel.alike_taken a
  cases served with
  | ignored => exact keeps_alike table arrives mem rfl ⟨rfl, rfl, fun _ => ⟨rfl, rfl, rfl, rfl, rfl⟩, fun _ _ => rfl⟩
  | kept => exact keeps_alike table arrives mem Kernel.taken_heap alike
  | charged =>
    refine keeps_alike table arrives mem Kernel.taken_heap (alike.modify ?_)
    exact fun _ => ⟨rfl, rfl, rfl, rfl, rfl⟩
  | pid => exact keeps_alike_eax table arrives mem _ Kernel.taken_heap alike
  | slept =>
    refine keeps_alike_eax table arrives mem _ Kernel.taken_heap (alike.modify ?_)
    exact fun _ => ⟨rfl, rfl, rfl, rfl, rfl⟩
  | called _ call =>
    obtain ⟨m, value, -, rfl⟩ := call
    exact keeps_alike_eax table arrives mem value Kernel.taken_heap
      ⟨alike.bootStack, alike.current, alike.tasks, alike.others⟩
  | resolved => exact keeps_alike table arrives mem rfl ⟨rfl, rfl, fun _ => ⟨rfl, rfl, rfl, rfl, rfl⟩, fun _ _ => rfl⟩
  | forked _ _ user exit =>
    have same := exit.task_kept (u := s.kernel.current) (by simpa using table.running)
    refine keeps_eax table arrives _ (exit.current.trans alike.current)
      (exit.bootStack.trans alike.bootStack) ?_
      (keeps_fork table arrives mem user exit)
    obtain ⟨ready, flags, top, bottom, -⟩ := alike.tasks s.kernel.current
    rw [same]
    exact ⟨ready.trans table.running, flags, top, bottom⟩

theorem keeps_switched (next : Nat) :
    Memory ((s.kernel.taken a).switched a.r next) s.buffers ∧ ∀ j, j ≠ next →
      (((s.kernel.taken a).switched a.r next).tasks j).ready = true →
      (j ≠ s.kernel.current → (s.kernel.tasks j).ready = true → s.kernel.Parked j) →
      ((s.kernel.taken a).switched a.r next).Parked j := by
  have alike := s.kernel.alike_taken a
  obtain ⟨taken, kept⟩ := keeps_alike table arrives mem Kernel.taken_heap alike
  refine ⟨taken.switched a.r next, fun j notNext live parked => ?_⟩
  by_cases here : j = s.kernel.current
  · subst here
    obtain ⟨low, high⟩ := frame_inside table arrives
    obtain ⟨-, flags, top, bottom, first⟩ := alike.tasks s.kernel.current
    have task : ((s.kernel.taken a).switched a.r next).tasks s.kernel.current =
        { (s.kernel.taken a).parked a.r with sliceLeft := 5 } := by
      have slot := (s.kernel.taken a).slicedTasks_parked a.r next
      rwa [Kernel.taken_current] at slot
    have esp : (((s.kernel.taken a).switched a.r next).tasks s.kernel.current).esp = a.r := by
      rw [task]; rfl
    have flags' : (((s.kernel.taken a).switched a.r next).tasks s.kernel.current).flags =
        (s.kernel.tasks s.kernel.current).flags := by
      rw [task, ← flags, ← Kernel.taken_current (k := s.kernel) (a := a)]
      rfl
    have saved : (((s.kernel.taken a).switched a.r next).tasks s.kernel.current).saved =
        (s.kernel.entered a).heap.ram.readWords a.r (frameWords (s.kernel.tasks s.kernel.current).flags) := by
      rw [task, ← flags, ← Kernel.taken_heap, ← Kernel.taken_current (k := s.kernel) (a := a)]
      rfl
    constructor
    · rw [esp]
      exact frame_ne_zero table arrives
    · rw [esp, flags']
      refine ((mem.stack s.kernel.current table.running).mono low (by omega)).congr ?_ alike.bootStack
      rw [task, Task.blocks, Task.blocks, ← top, ← bottom, ← first,
        ← Kernel.taken_current (k := s.kernel) (a := a)]
      rfl
    · rw [esp, flags', saved, ← Kernel.taken_heap (k := s.kernel) (a := a)]
      rfl
    · rw [saved, flags', entered_saved (by decide)]
      exact arrives_ring arrives
  · have same : ((s.kernel.taken a).switched a.r next).tasks j = (s.kernel.taken a).tasks j :=
      (Function.update_of_ne notNext _ _).trans (Function.update_of_ne (by simpa using here) _ _)
    rw [same] at live
    exact (kept j here live (parked here)).carry same rfl fun _ _ _ _ _ _ => rfl

omit table arrives mem in
theorem keeps_exited {next : Nat} {sys : Sys} {k : Kernel} (keeps : Kernel.KeepsOthers s k)
    (current : k.current = s.kernel.current) (departs : k.Departs acc next sys) :
    Memory (k.exited next sys) s.buffers ∧ ∀ j, j ≠ next →
      ((k.exited next sys).tasks j).ready = true →
      (j ≠ s.kernel.current → (s.kernel.tasks j).ready = true → s.kernel.Parked j) →
      (k.exited next sys).Parked j := by
  have ready : (k.tasks next).ready = true := by
    have live : (k.deadTasks next).ready = true := departs.follows.1
    rwa [Kernel.deadTasks, Function.update_of_ne departs.other] at live
  refine ⟨keeps.1.exited next sys ready departs.other, fun j notNext live parked => ?_⟩
  have same : (k.exited next sys).tasks j = k.deadTasks j := Function.update_of_ne notNext _ _
  by_cases here : j = k.current
  · rw [same, here, Kernel.deadTasks, Function.update_self] at live
    exact absurd live (by simp)
  · rw [Kernel.deadTasks, Function.update_of_ne here] at same
    rw [same] at live
    have other : j ≠ s.kernel.current := by rwa [← current]
    exact (keeps.2 j other live (parked other)).carry same rfl fun _ _ _ _ _ _ => rfl

theorem keeps_dispatches (dispatches : s.kernel.Dispatches acc a k') :
    Memory k' s.buffers ∧ ∀ j, j ≠ k'.current → (k'.tasks j).ready = true →
      (j ≠ s.kernel.current → (s.kernel.tasks j).ready = true → s.kernel.Parked j) →
        k'.Parked j := by
  have alike := s.kernel.alike_taken a
  have entered : s.kernel.Alike (s.kernel.entered a) :=
    ⟨rfl, rfl, fun _ => ⟨rfl, rfl, rfl, rfl, rfl⟩, fun _ _ => rfl⟩
  cases dispatches with
  | expired => exact keeps_switched table arrives mem _
  | exits _ _ departs =>
    exact keeps_exited (keeps_alike table arrives mem Kernel.taken_heap alike) alike.current
      departs
  | killed _ _ _ departs =>
    exact keeps_exited (keeps_alike table arrives mem rfl entered) rfl departs

end Returned

theorem memory_step {acc : Access} {s t : System} {event : KernelEvent} (table : Table s.kernel)
    (mem : Memory s.kernel s.buffers) (step : KernelStep acc s event t) :
    Memory t.kernel t.buffers := by
  cases scheduler_step table step with
  | returned arrives served => exact (keeps_served table arrives mem served).1
  | dispatched arrives dispatches => exact (keeps_dispatches table arrives mem dispatches).1
  | created _ _ exit => exact (mem.createExit exit).1
  | other same effect =>
    rw [same]
    exact (mem.effect table effect).1

theorem bootTasks_blocks (demoA demoB : Nat) : (bootTasks demoA demoB 0).blocks = [] ∧
    (bootTasks demoA demoB 1).blocks = [(0x30000C, taskStack), (0x304018, irqStack)] ∧
    (bootTasks demoA demoB 2).blocks = [(0x306024, taskStack), (0x30A030, irqStack)] := by
  simp [Task.blocks, bootTasks, Task.zero, irqStack]

theorem bootBlocks_taken : taken sizeofBlock heapStart bootBlocks =
    [(0x30000C, taskStack), (0x304018, irqStack), (0x306024, taskStack), (0x30A030, irqStack)] := by
  decide

theorem bootBlocks_owned {heap : Heap} (blocks : HeapAt heap.ram bootBlocks)
    (allocated : heap.allocated = {0x30A030, 0x306024, 0x304018, 0x30000C}) :
    Owned heap bootBlocks := by
  refine ⟨blocks, fun p => ?_⟩
  rw [allocated, bootBlocks_taken]
  simp only [Finset.mem_insert, Finset.mem_singleton, List.mem_cons, List.not_mem_nil,
    Prod.mk.injEq]
  constructor
  · rintro (rfl | rfl | rfl | rfl) <;> simp
  · rintro ⟨size, member⟩
    tauto

theorem memory_boot (image : BootImage) :
    Memory (bootSystem image).kernel (bootSystem image).buffers := by
  obtain ⟨heap, booted, blocks, allocated, -⟩ := boot_kernel image
  have owned := bootBlocks_owned blocks allocated
  have payload : ∀ b ∈ taken sizeofBlock heapStart bootBlocks, heap.Payload b.1 b.2 :=
    fun b member =>
    (Heap.payload_iff owned).mpr ⟨b.2, member, Nat.le_refl _⟩
  have inside := image.inside
  have aligned := image.aligned
  change Memory image.kernel ∅
  rw [booted]
  have slots : ∀ i, ((image.booted heap).tasks i).ready = true → i = 0 ∨ i = 1 ∨ i = 2 := by
    intro i ready
    match i with
    | 0 | 1 | 2 => simp
    | i + 3 => exact absurd (show false = true from ready) (by decide)
  obtain ⟨none, first, second⟩ : ((image.booted heap).tasks 0).blocks = [] ∧
      ((image.booted heap).tasks 1).blocks = [(0x30000C, taskStack), (0x304018, irqStack)] ∧
      ((image.booted heap).tasks 2).blocks = [(0x306024, taskStack), (0x30A030, irqStack)] :=
    bootTasks_blocks image.demoA image.demoB
  constructor
  · exact ⟨bootBlocks, owned⟩
  · change image.stack + taskStack ≤ heapStart
    simp only [heapStart]
    omega
  · change image.stack % 4 = 0
    omega
  · intro i ready b member
    rcases slots i ready with rfl | rfl | rfl
    · rw [none] at member
      exact absurd member List.not_mem_nil
    · rw [first] at member
      exact payload b (List.Sublist.subset (by decide) member)
    · rw [second] at member
      exact payload b (List.Sublist.subset (by decide) member)
  · intro i j ready ready' b member c member' same
    rcases slots i ready with rfl | rfl | rfl <;> rcases slots j ready' with rfl | rfl | rfl <;>
      simp only [none, first, second, List.mem_cons, List.not_mem_nil, or_false] at member member'
    all_goals first | rfl | (exfalso; rcases member with rfl | rfl <;>
      rcases member' with rfl | rfl <;>
      simp at same)
  · exact fun p member => absurd member (Finset.notMem_empty p)
  · intro i ready
    rcases slots i ready with rfl | rfl | rfl
    · exact .bootStack rfl (Nat.le_refl _) (by
        change image.stack + (image.stack + taskStack - image.stack) ≤ image.stack + taskStack
        omega)
    · refine .block (b := (0x30000C, taskStack)) ?_ (Nat.le_refl _) ?_
      · rw [first]
        exact List.mem_cons_self
      · exact show 0x30000C + (0x30000C + taskStack - 0x30000C) ≤ 0x30000C + taskStack by decide
    · refine .block (b := (0x306024, taskStack)) ?_ (Nat.le_refl _) ?_
      · rw [second]
        exact List.mem_cons_self
      · exact show 0x306024 + (0x306024 + taskStack - 0x306024) ≤ 0x306024 + taskStack by decide

theorem memory_run {acc : Access} {image : BootImage} {events : List KernelEvent} {t : System}
    (run : Run (KernelStep acc) (bootSystem image) events t) : Table t.kernel ∧
    Memory t.kernel t.buffers :=
  run.invariant (fun s => Table s.kernel ∧ Memory s.kernel s.buffers)
    (fun _ _ _ inv step => ⟨table_step inv.1 step, memory_step inv.1 inv.2 step⟩)
    ⟨table_boot image, memory_boot image⟩

end NovaKernel
