import NovaKernel.Stepwise
import NovaKernel.SpaceRuns

set_option autoImplicit false

namespace NovaKernel

open Arena Machine Statements

/-! An interrupt that returns to the shell does not change what its calls do. -/

def Ram.SameHeap (h h' : Ram) : Prop := ∀ w, heapStart ≤ w → h' w = h w

/-- The boot thread runs, on its stack below the heap. -/
structure Kernel.ShellRuns (k : Kernel) : Prop where
  current : k.current = 0
  thread : (k.tasks 0).flags = .kernel
  stack : (k.tasks 0).stackBottom = 0
  low : k.bootStack + taskStack ≤ heapStart
  bounded : k.taskCount ≤ maxTasks

def Kernel.Interrupted (k k' : Kernel) : Prop :=
  k.ShellRuns ∧ ∃ ram esp saved slice frame observed, k.heap.ram.SameHeap ram ∧
    k' = { k with
      heap := ⟨ram, k.heap.allocated⟩
      tasks := Function.update k.tasks 0 { k.tasks 0 with esp := esp, saved := saved, sliceLeft := slice }
      frame := frame
      schedReady := observed }

namespace Kernel

theorem ShellRuns.interrupted {k : Kernel} (runs : k.ShellRuns) : k.Interrupted k :=
  ⟨runs, k.heap.ram, (k.tasks 0).esp, (k.tasks 0).saved, (k.tasks 0).sliceLeft, k.frame, k.schedReady, fun _ _ => rfl,
    by simp⟩

theorem Interrupted.trans {k k' k'' : Kernel} (first : k.Interrupted k')
    (second : k'.Interrupted k'') :
    k.Interrupted k'' := by
  obtain ⟨runs, ram, esp, saved, slice, frame, observed, same, rfl⟩ := first
  obtain ⟨-, ram', esp', saved', slice', frame', observed', same', rfl⟩ := second
  refine ⟨runs, ram', esp', saved', slice', frame', observed',
    fun w high => (same' w high).trans (same w high), ?_⟩
  simp

theorem ShellRuns.congr {k k' : Kernel} (runs : k.ShellRuns) (current : k'.current = k.current)
    (flags : (k'.tasks 0).flags = (k.tasks 0).flags)
    (bottom : (k'.tasks 0).stackBottom = (k.tasks 0).stackBottom)
    (bootStack : k'.bootStack = k.bootStack) (count : k'.taskCount = k.taskCount) : k'.ShellRuns :=
  ⟨current.trans runs.current, flags.trans runs.thread, bottom.trans runs.stack, bootStack ▸ runs.low,
    count ▸ runs.bounded⟩

theorem Interrupted.runs {k k' : Kernel} (between : k.Interrupted k') : k'.ShellRuns := by
  obtain ⟨runs, ram, esp, saved, slice, frame, observed, same, rfl⟩ := between
  exact runs.congr rfl (by simp) (by simp) rfl rfl

end Kernel

namespace Stepwise

section Heap

variable {α : Type} {h : Ram}

theorem sameHeap_header {h' : Ram} (same : h.SameHeap h') {b : Nat} (high : heapStart ≤ b) :
    h'.blockSize b = h.blockSize b ∧ h'.blockFree b = h.blockFree b ∧
      h'.blockNext b = h.blockNext b :=
  ⟨same b high, same (b + 4) (by omega), same (b + 8) (by omega)⟩

theorem set_same {addr value : Nat} (h' : Ram) (between : h.SameHeap h') :
    (h.set addr value).SameHeap (h'.set addr value) := fun w high => by
  simp only [Ram.set, Function.update_apply, between w high]

theorem setWord_ignores (addr value : Nat) : (setWord addr fun _ => value).Ignores Ram.SameHeap h :=
  .change fun h' between => set_same h' between

theorem setWord_then {addr : Nat} {value : Ram → Nat} {rest : Unit → Code Ram α}
    (same : ∀ h', h.SameHeap h' → value h' = value h)
    (ignores : (rest ()).Ignores Ram.SameHeap (h.set addr (value h))) :
    (setWord addr value >>= rest).Ignores Ram.SameHeap h := by
  refine .changed (fun h' between => ?_) ignores
  rw [same h' between]
  exact set_same h' between

theorem findBlock_ignores (size fuel : Nat) {a : Nat} {l : List Block} (tiles : Tiles h 0 a l)
    (high : heapStart ≤ a) : (findBlock size fuel (listHead a l)).Ignores Ram.SameHeap h := by
  induction fuel generalizing a l with
  | zero => trivial
  | succ fuel ih =>
    cases l with
    | nil => trivial
    | cons b rest =>
      have start : listHead a (b :: rest) = a := by simp [listHead]
      have nonzero : a ≠ 0 := Nat.ne_of_gt (Nat.lt_of_lt_of_le (by decide) high)
      rw [findBlock, start, if_neg nonzero]
      refine .test (fun h' between => ?_) ?_
      · obtain ⟨size', free, -⟩ := sameHeap_header between high
        rw [size', free]
      · split
        next => trivial
        next =>
          refine .read (fun h' between => (sameHeap_header between high).2.2) ?_
          rw [tiles.next]
          exact ih tiles.2.2.2 (by omega)

theorem findBlock_high {size fuel a c : Nat} {l : List Block} (tiles : Tiles h 0 a l)
    (found : NovaKernel.findBlock h size fuel (listHead a l) = some c) : a ≤ c := by
  induction fuel generalizing a l with
  | zero => cases found
  | succ fuel ih =>
    cases l with
    | nil => cases found
    | cons b rest =>
      have start : listHead a (b :: rest) = a := by simp [listHead]
      rw [NovaKernel.findBlock, start] at found
      split at found
      next => cases found
      next =>
        split at found
        next => exact Nat.le_of_eq (Option.some.inj found)
        next =>
          rw [tiles.next] at found
          have later := ih tiles.2.2.2 found
          omega

theorem heapSplit_ignores {b : Nat} (need : Nat) (high : heapStart ≤ b) :
    (heapSplit b need).Ignores Ram.SameHeap h := by
  refine .read (fun h' between => (sameHeap_header between high).1) ?_
  dsimp only
  split
  next => trivial
  next =>
    refine setWord_then (fun _ _ => rfl)
      (setWord_then (fun _ _ => rfl) (setWord_then (fun h' between => ?_) ?_))
    · exact (sameHeap_header between high).2.2
    · exact setWord_then (fun _ _ => rfl) (setWord_ignores _ _)

theorem takeBlock_ignores {blocks : List Block} (heap : HeapAt h blocks) (n : Nat) :
    (takeBlock (roundSize n)).Ignores Ram.SameHeap h := by
  have start : listHead heapStart blocks = heapStart := if_neg heap.nonempty
  rw [takeBlock]
  refine .bind ?_ fun b h' found => ?_
  · rw [← start]
    exact findBlock_ignores _ _ heap.tiles (Nat.le_refl _)
  · rw [findBlock_run] at found
    obtain ⟨first, rfl⟩ := Prod.mk.inj (Option.some.inj found)
    cases b with
    | none => trivial
    | some b =>
      rw [← start] at first
      have high := findBlock_high heap.tiles first
      exact .bind (heapSplit_ignores _ high) fun _ _ _ => setWord_then (fun _ _ => rfl) trivial

theorem coalesce_ignores (fuel : Nat) {r : List Block} {h : Ram} {x size : Nat}
    (tiles : Tiles h 0 x (⟨size, true⟩ :: r)) (high : heapStart ≤ x) :
    (coalesce fuel x).Ignores Ram.SameHeap h := by
  induction fuel generalizing h r size with
  | zero => trivial
  | succ fuel ih =>
    rw [coalesce]
    have next : h.blockNext x = listHead (x + sizeofBlock + size) r := tiles.next
    have above : h.blockNext x ≠ 0 → heapStart ≤ h.blockNext x := fun nonzero => by
      rw [next, listHead] at nonzero ⊢
      split at nonzero
      next => exact absurd rfl nonzero
      next more =>
        rw [if_neg more]
        omega
    refine .test (fun h' between => ?_) ?_
    · rw [(sameHeap_header between high).2.2]
      refine and_congr_right fun nonzero => ?_
      rw [(sameHeap_header between (above nonzero)).2.1]
    · split
      next more =>
        obtain ⟨nonzero, -⟩ := of_decide_eq_true more
        cases r with
        | nil => exact absurd next nonzero
        | cons g r =>
          have next : h.blockNext x = x + sizeofBlock + size := next
          have behind : ∀ v, (h.set x v).blockNext x = x + sizeofBlock + size := fun v => by
            rw [← next]
            exact Ram.set_ne _ _ (by omega)
          have order : ∀ v, (h.set x v).blockNext (x + sizeofBlock + size) =
              h.blockNext (x + sizeofBlock + size) :=
            fun v => Ram.set_ne _ _ (by simp only [sizeofBlock]; omega)
          refine setWord_then (fun h' between => ?_) (setWord_then (fun h' between => ?_) ?_)
          · rw [(sameHeap_header between high).1, (sameHeap_header between high).2.2,
              (sameHeap_header between (above nonzero)).1]
          · rw [(sameHeap_header between high).2.2, behind]
            exact (sameHeap_header between (by omega)).2.2
          · rw [behind, order, next]
            exact ih (tiles_absorbed tiles)
      next => trivial

theorem releaseBlock_ignores {h : Heap} (sound : h.Sound) {ptr : Nat} (held : ptr ∈ h.allocated) :
    (releaseBlock ptr).Ignores Ram.SameHeap h.ram := by
  obtain ⟨blocks, owned⟩ := sound
  obtain ⟨size, member⟩ := (owned.payloads ptr).mp held
  obtain ⟨l, r, rfl, rfl⟩ := taken_split member
  obtain ⟨-, here⟩ := (tiles_append (by simp)).mp owned.heap.tiles
  have positive : heapStart + span sizeofBlock l + sizeofBlock ≠ 0 := by simp [sizeofBlock]
  rw [releaseBlock, if_neg positive]
  refine setWord_then (fun _ _ => rfl) ?_
  rw [Nat.add_sub_cancel]
  exact coalesce_ignores heapFuel (tiles_freed here) (Nat.le_add_right _ _)

end Heap

section Calls

variable {k : Kernel}

theorem on_ram {α : Type} {c : Code Ram α} (ignores : c.Ignores Ram.SameHeap k.heap.ram) :
    (c.on ram).Ignores Kernel.Interrupted k := by
  refine .on ignores ?_ ?_
  · rintro k k' ⟨-, h', esp, saved, slice, frame, observed, same, rfl⟩
    exact same
  · rintro k k' h h' ⟨runs, -, esp, saved, slice, frame, observed, -, rfl⟩ same
    exact ⟨runs.congr rfl rfl rfl rfl rfl, h', esp, saved, slice, frame, observed, same, rfl⟩

theorem on_machine {α : Type} (c : Code Machine α) :
    (c.on machine).Ignores Kernel.Interrupted k := by
  refine .on (.alone c _) ?_ ?_
  · rintro k k' ⟨-, h', esp, saved, slice, frame, observed, -, rfl⟩
    rfl
  · rintro k k' m - ⟨runs, h', esp, saved, slice, frame, observed, same, rfl⟩ rfl
    exact ⟨runs.congr rfl rfl rfl rfl rfl, h', esp, saved, slice, frame, observed, same, rfl⟩

theorem kmalloc_ignores (sound : k.heap.Sound) (size : Nat) :
    (kmalloc size).Ignores Kernel.Interrupted k := by
  obtain ⟨blocks, owned⟩ := sound
  refine .bind (on_ram (takeBlock_ignores owned.heap size)) fun ptr k' _ => .changed ?_ trivial
  rintro k'' ⟨runs, h', esp, saved, slice, frame, observed, same, rfl⟩
  exact ⟨runs.congr rfl rfl rfl rfl rfl, h', esp, saved, slice, frame, observed, same, rfl⟩

theorem kfree_ignores (sound : k.heap.Sound) {ptr : Nat} (held : ptr ∈ k.heap.allocated) :
    (kfree ptr).Ignores Kernel.Interrupted k := by
  refine .bind (on_ram (releaseBlock_ignores sound held)) fun _ k' _ => .change ?_
  rintro k'' ⟨runs, h', esp, saved, slice, frame, observed, same, rfl⟩
  exact ⟨runs.congr rfl rfl rfl rfl rfl, h', esp, saved, slice, frame, observed, same, rfl⟩

theorem createAddrSpace_ignores (acc : Access) :
    (createAddrSpace acc).Ignores Kernel.Interrupted k := by
  refine .bind (on_machine _) fun cr3 k' _ => .changed ?_ trivial
  rintro k'' ⟨runs, h', esp, saved, slice, frame, observed, same, rfl⟩
  exact ⟨runs.congr rfl rfl rfl rfl rfl, h', esp, saved, slice, frame, observed, same, rfl⟩

theorem destroyAddrSpace_ignores (acc : Access) (cr3 : Nat) :
    (destroyAddrSpace acc cr3).Ignores Kernel.Interrupted k := by
  refine .bind (on_machine _) fun _ k' _ => .change ?_
  rintro k'' ⟨runs, h', esp, saved, slice, frame, observed, same, rfl⟩
  exact ⟨runs.congr rfl rfl rfl rfl rfl, h', esp, saved, slice, frame, observed, same, rfl⟩

theorem interrupted_ready {k' : Kernel} (between : k.Interrupted k') (i : Nat) :
    (k'.tasks i).ready = (k.tasks i).ready := by
  obtain ⟨-, h', esp, saved, slice, frame, observed, -, rfl⟩ := between
  by_cases here : i = 0
  · simp [here]
  · simp [Function.update_of_ne here]

theorem freeSlotFrom_ignores (fuel i : Nat) :
    (freeSlotFrom fuel i).Ignores Kernel.Interrupted k := by
  induction fuel generalizing i with
  | zero => trivial
  | succ fuel ih =>
    rw [freeSlotFrom]
    refine .test ?_ ?_
    · rintro k' ⟨-, h', esp, saved, slice, frame, observed, -, rfl⟩
      rfl
    · split
      next => trivial
      next =>
        refine .read (fun k' between => interrupted_ready between i) ?_
        split
        next => exact ih (i + 1)
        next => trivial

theorem allocSlot_ignores : allocSlot.Ignores Kernel.Interrupted k := by
  refine .read ?_ (.bind (freeSlotFrom_ignores _ 0) fun slot k' _ => ?_)
  · rintro k' ⟨-, h', esp, saved, slice, frame, observed, -, rfl⟩
    rfl
  · cases slot with
    | some i => trivial
    | none =>
      refine .test ?_ ?_
      · rintro k'' ⟨-, h', esp, saved, slice, frame, observed, -, rfl⟩
        rfl
      · split
        next =>
          refine ⟨?_, trivial⟩
          rintro k'' ⟨runs, h', esp, saved, slice, frame, observed, same, rfl⟩
          have bounded := runs.bounded
          refine ⟨⟨⟨runs.current, runs.thread, runs.stack, runs.low, ?_⟩, h', esp, saved, slice, frame, observed, same, rfl⟩, rfl⟩
          exact of_decide_eq_true ‹_›
        next => trivial

theorem modify_runs (runs : k.ShellRuns) {slot : Nat} (other : slot ≠ 0) (values : Task → Task) :
    (k.modify slot values).ShellRuns :=
  runs.congr rfl (by rw [Kernel.modify_other _ other.symm]) (by rw [Kernel.modify_other _ other.symm]) rfl rfl

theorem interrupted_modify {k' : Kernel} (between : k.Interrupted k') {slot : Nat}
    (other : slot ≠ 0) (values : Task → Task) :
    (k.modify slot values).Interrupted (k'.modify slot values) := by
  obtain ⟨runs, h', esp, saved, slice, frame, observed, same, rfl⟩ := between
  refine ⟨modify_runs runs other values, h', esp, saved, slice, frame, observed, same, ?_⟩
  simp only [Kernel.modify, Function.update_of_ne other, Function.update_of_ne (Ne.symm other),
    Function.update_comm other]

theorem modify_then {α : Type} {slot : Nat} {values : Task → Task} {rest : Unit → Code Kernel α}
    (other : slot ≠ 0) (ignores : (rest ()).Ignores Kernel.Interrupted (k.modify slot values)) :
    (modify slot values >>= rest).Ignores Kernel.Interrupted k :=
  .changed (fun _ between => interrupted_modify between other values) ignores

theorem initUserTask_ignores {slot : Nat} (other : slot ≠ 0) :
    (initUserTask slot).Ignores Kernel.Interrupted k := by
  refine modify_then other (.changed ?_ (modify_then other (modify_then other
    (.change fun _ between => interrupted_modify between other _))))
  rintro k' ⟨runs, h', esp, saved, slice, frame, observed, same, rfl⟩
  have runs' := modify_runs runs other fun t =>
      { t with pid := (k.modify slot fun _ => Task.zero).nextPid }
  refine ⟨runs'.congr rfl rfl rfl rfl rfl, h', esp, saved, slice, frame, observed, same, ?_⟩
  simp only [Kernel.modify, Function.update_of_ne other, Function.update_of_ne (Ne.symm other),
    Function.update_comm other]

theorem allocIrqStack_ignores (sound : k.heap.Sound) {slot : Nat} (other : slot ≠ 0) :
    (allocIrqStack slot).Ignores Kernel.Interrupted k := by
  refine .test (fun k' between => ?_) ?_
  · obtain ⟨-, h', esp, saved, slice, frame, observed, -, rfl⟩ := between
    simp [Function.update_of_ne other]
  · split
    next => trivial
    next =>
      refine .bind (kmalloc_ignores sound _) fun base k' _ => ?_
      cases base with
      | none => trivial
      | some base => exact modify_then other trivial

theorem setWord_interrupted {k' : Kernel} (between : k.Interrupted k') (addr value : Nat) :
    (k.setWord addr value).Interrupted (k'.setWord addr value) := by
  obtain ⟨runs, h', esp, saved, slice, frame, observed, same, rfl⟩ := between
  exact ⟨runs.congr rfl rfl rfl rfl rfl, h'.set addr value, esp, saved, slice, frame, observed,
    set_same h' same, rfl⟩

theorem pushWords_ignores (words : List Nat) (sp : Nat) :
    (pushWords words sp).Ignores Kernel.Interrupted k := by
  induction words generalizing k with
  | nil => trivial
  | cons w ws ih =>
    exact .bind ih fun sp' k' _ =>
      .changed (fun _ between => setWord_interrupted between _ _) trivial

theorem kmalloc_high (sound : k.heap.Sound) {size area : Nat} {k' : Kernel}
    (small : size ≤ heapEnd - heapStart) (call : k.kmalloc size = (some area, k')) :
    k'.heap.Sound ∧ heapStart ≤ area := by
  rcases k.kmalloc_cases size with ⟨-, refused⟩ | ⟨base, h, taken, found⟩
  · rw [refused] at call
    cases call
  · rw [found] at call
    obtain ⟨same, rfl⟩ := Prod.mk.inj call
    obtain rfl := Option.some.inj same
    obtain ⟨extended, -, -, payload⟩ := Heap.kmalloc_extends sound small taken
    have inside := Heap.Payload.inside extended.sound payload
    exact ⟨extended.sound, by omega⟩

theorem setEsp_interrupted {k' : Kernel} (between : k.Interrupted k') {slot : Nat}
    (other : slot ≠ 0) {sp : Nat} (high : heapStart ≤ sp) :
    (k.setEsp slot sp).Interrupted (k'.setEsp slot sp) := by
  have words : ∀ n, k'.heap.ram.readWords sp n = k.heap.ram.readWords sp n := fun n => by
    obtain ⟨-, h', esp, saved, slice, frame, observed, same, rfl⟩ := between
    exact Ram.readWords_congr fun w low _ => same w (by omega)
  simp only [Kernel.setEsp, words]
  exact interrupted_modify between other _

theorem taskSetupUserStack_ignores (sound : k.heap.Sound) {slot : Nat} (other : slot ≠ 0)
    (entry : Nat) :
    (taskSetupUserStack slot entry).Ignores Kernel.Interrupted k := by
  refine .bind (kmalloc_ignores sound _) fun area k₁ called => ?_
  rw [kmalloc_run] at called
  cases area with
  | none => trivial
  | some area =>
    have call : k.kmalloc 0x1000 = (some area, k₁) := Option.some.inj called
    have high := (kmalloc_high sound (by decide) call).2
    have size : (Kernel.userFrame entry).length = 19 := rfl
    generalize Kernel.userFrame entry = words at size ⊢
    refine .bind (pushWords_ignores words (area + 0x1000)) fun sp k₂ pushed =>
      .change fun k' between => ?_
    rw [pushWords_run _ _ _ (by rw [size]; omega), size] at pushed
    obtain ⟨rfl, -⟩ := Prod.mk.inj (Option.some.inj pushed)
    exact setEsp_interrupted (interrupted_modify between other _) other (by omega)

theorem taskCreateUser_ignores (table : Table k) (sound : k.heap.Sound) (entry cr3 : Nat) :
    (taskCreateUser entry cr3).Ignores Kernel.Interrupted k := by
  refine .bind allocSlot_ignores fun slot k₁ called => ?_
  rw [allocSlot_run] at called
  have allocated := Option.some.inj called
  by_cases full : maxTasks ≤ slot
  · rw [if_pos full]
    trivial
  · have other : slot ≠ 0 := by
      rcases Kernel.allocSlot_cases table with ⟨free, fresh, call⟩ | ⟨-, call⟩
      · rw [call] at allocated
        obtain ⟨rfl, -⟩ := Prod.mk.inj allocated
        have process := fresh.process
        omega
      · rw [call] at allocated
        obtain ⟨rfl, -⟩ := Prod.mk.inj allocated
        exact absurd (Nat.le_refl _) full
    have heap : k₁.heap = k.heap := by
      rcases Kernel.allocSlot_cases table with ⟨free, fresh, call⟩ | ⟨-, call⟩
      · rw [call] at allocated
        obtain ⟨-, rfl⟩ := Prod.mk.inj allocated
        rfl
      · rw [call] at allocated
        obtain ⟨-, rfl⟩ := Prod.mk.inj allocated
        rfl
    have sound₁ : k₁.heap.Sound := heap ▸ sound
    rw [if_neg full]
    refine .bind (initUserTask_ignores other) fun _ k₂ started => ?_
    rw [initUserTask_run] at started
    obtain ⟨-, rfl⟩ := Prod.mk.inj (Option.some.inj started)
    have sound₂ : (k₁.initTask slot .user).heap.Sound := sound₁
    refine .bind (allocIrqStack_ignores sound₂ other) fun ok k₃ stack => ?_
    rw [allocIrqStack_run] at stack
    have stack' := Option.some.inj stack
    cases ok with
    | false => exact modify_then other trivial
    | true =>
      have sound₃ : k₃.heap.Sound := by
        rcases Kernel.allocIrqStack_cases (k₁.initTask_fresh slot .user) with ⟨-, call⟩ | ⟨base, h, taken, call⟩
        · rw [call] at stack'
          cases stack'
        · rw [call] at stack'
          obtain ⟨-, rfl⟩ := Prod.mk.inj stack'
          exact (Heap.kmalloc_extends sound₂ (by decide) taken).1.sound
      refine modify_then other (modify_then other ?_)
      refine .bind (taskSetupUserStack_ignores (by exact sound₃) other entry) fun _ k₄ _ => ?_
      refine ⟨fun k' between => ⟨between, ?_⟩, trivial⟩
      obtain ⟨-, h', esp, saved, slice, frame, observed, -, rfl⟩ := between
      simp [Function.update_of_ne other]

end Calls
end Stepwise

section Kept

variable {k k' : Kernel} (between : k.Interrupted k')
include between

theorem Kernel.Interrupted.current : k'.current = k.current := by
  obtain ⟨-, h', esp, saved, slice, frame, observed, -, rfl⟩ := between
  rfl

theorem Kernel.Interrupted.sys : k'.sys = k.sys := by
  obtain ⟨-, h', esp, saved, slice, frame, observed, -, rfl⟩ := between
  rfl

theorem Kernel.Interrupted.bootStack : k'.bootStack = k.bootStack := by
  obtain ⟨-, h', esp, saved, slice, frame, observed, -, rfl⟩ := between
  rfl

theorem Kernel.Interrupted.task {i : Nat} (other : i ≠ 0) : k'.tasks i = k.tasks i := by
  obtain ⟨-, h', esp, saved, slice, frame, observed, -, rfl⟩ := between
  exact Function.update_of_ne other _ _

theorem Kernel.Interrupted.same (i : Nat) : (k.tasks i).Same (k'.tasks i) := by
  by_cases here : i = 0
  · obtain ⟨-, h', esp, saved, slice, frame, observed, -, rfl⟩ := between
    subst here
    exact ⟨esp, saved, slice, by simp⟩
  · rw [between.task here]
    exact ⟨_, _, _, rfl⟩

theorem Table.interrupted (table : Table k) : Table k' := by
  have same := between.same
  obtain ⟨-, h', esp, saved, slice, frame, observed, -, rfl⟩ := between
  refine table.congr rfl rfl rfl rfl rfl fun i => ?_
  obtain ⟨_, _, _, task⟩ := same i
  rw [task]
  exact ⟨rfl, rfl, rfl⟩

theorem Memory.interrupted {buffers : Finset Nat} (mem : Memory k buffers) : Memory k' buffers ∧
    ∀ j, j ≠ 0 → (k.tasks j).ready = true → k.SameWords k' j := by
  have same := between.same
  obtain ⟨-, h', esp, saved, slice, frame, observed, above, rfl⟩ := between
  obtain ⟨sound, payloads⟩ := Heap.stores_outside mem.sound above
  constructor
  · refine mem.carry sound rfl (fun i ready => ?_) (fun i ready b member => ?_) mem.buffers
    · obtain ⟨_, _, _, task⟩ := same i
      rw [task] at ready ⊢
      exact ⟨ready, rfl, rfl, rfl, rfl⟩
    · exact payloads _ _ (mem.held i ready b member)
  · intro j other ready lo n own w low high
    cases own with
    | block member first last =>
      have inside := Heap.Payload.inside mem.sound (mem.held j ready _ member)
      exact above w (by omega)
    | bootStack first => exact absurd first other

theorem Saved.interrupted {buffers : Finset Nat} (saved : Saved k) (mem : Memory k buffers)
    (shell : k.current = 0) :
    Saved k' := by
  intro j notRunning ready present
  have other : j ≠ 0 := by rwa [between.current, shell] at notRunning
  have task := between.task other
  rw [task] at ready present
  exact (saved j (by rwa [shell]) ready present).carry task between.bootStack
    ((mem.interrupted between).2 j other ready)

theorem Present.interrupted (present : Present k) (shell : k.current = 0) : Present k' := by
  intro j notRunning ready
  have other : j ≠ 0 := by rwa [between.current, shell] at notRunning
  rw [between.task other] at ready ⊢
  exact present j (by rwa [shell]) ready

end Kept

theorem Steady.interrupted {acc : Access} {within : Nat → Prop} (reaches : Reaches acc within)
    {s : System} {k : Kernel} (steady : Steady within s) (shell : s.kernel.current = 0)
    (between : s.kernel.Interrupted k) :
    Steady within (s.setKernel k) where
  table := steady.table.interrupted between
  mem := (steady.mem.interrupted between).1
  saved := steady.saved.interrupted between steady.mem shell
  counted := by
    have counted := steady.counted
    obtain ⟨-, h', esp, saved, slice, frame, observed, -, rfl⟩ := between
    exact counted
  spaces few := by
    have few' : s.kernel.created < 2 ^ 32 := by
      obtain ⟨-, h', esp, saved, slice, frame, observed, -, rfl⟩ := between
      exact few
    exact (steady.spaces few').kept reaches between.sys between.current fun i =>
      (between.same i).spaceIn

section Returns

variable {k k' : Kernel}

theorem modify_ready (k : Kernel) (slot : Nat) {change : Task → Task}
    (kept : ∀ t, (change t).ready = t.ready)
    (i : Nat) : ((k.modify slot change).tasks i).ready = (k.tasks i).ready := by
  by_cases here : i = slot
  · rw [here, Kernel.modify_self, kept]
  · rw [Kernel.modify_other _ here]

theorem interrupted_slice (runs : k.ShellRuns) (slice : Nat → Nat) :
    k.Interrupted (k.modify k.current fun t => { t with sliceLeft := slice t.sliceLeft }) := by
  rw [runs.current]
  exact ⟨runs, k.heap.ram, (k.tasks 0).esp, (k.tasks 0).saved, _, k.frame, k.schedReady,
    fun _ _ => rfl, rfl⟩

theorem schedTick_interrupted (runs : k.ShellRuns) (ticked : k.schedTick = .returns k') :
    k.Interrupted k' := by
  have same : Outcome.returns k = .returns k' → k.Interrupted k' := fun same => by
    rw [← Outcome.returns.inj same]
    exact runs.interrupted
  unfold Kernel.schedTick at ticked
  split at ticked
  next => exact same ticked
  split at ticked
  next => exact same ticked
  split at ticked
  next => exact same ticked
  split at ticked
  next =>
    obtain rfl := Outcome.returns.inj ticked
    exact interrupted_slice runs (· - 1)
  split at ticked
  next => exact same ticked
  next next found =>
    split at ticked
    next => exact same ticked
    next =>
      -- The slot found is ready and in the table, so `switch_to` does not refuse it.
      have fits := List.find?_some found
      rw [Bool.and_eq_true, decide_eq_true_eq] at fits
      have bounded := runs.bounded
      have current := runs.current
      have ready : ((((k.setEsp k.current k.frame).modify k.current fun t => { t with sliceLeft := 5 }).modify next
          fun t => { t with sliceLeft := 5 }).tasks next).ready = true := by
        rw [modify_ready, modify_ready, Kernel.setEsp, modify_ready]
        · exact fits.2
        all_goals exact fun _ => rfl
      simp only [Kernel.switchTo] at ticked
      rw [if_neg] at ticked
      · cases ticked
      · rintro (high | high | idle)
        · omega
        · change maxTasks ≤ k.current at high
          rw [current] at high
          exact absurd high (by decide)
        · rw [ready] at idle
          cases idle

end Returns

theorem interrupt_interrupted {acc : Access} {s : System} {a : Arrival} {k : Kernel}
    (runs : s.kernel.ShellRuns) (arrives : Arrives s a)
    (returned : s.kernel.interrupt acc a = .returns k) : s.kernel.Interrupted k := by
  have thread : (s.kernel.tasks s.kernel.current).flags = .kernel := by
    rw [runs.current]
    exact runs.thread
  obtain ⟨-, first, last, -, -, low, high⟩ := arrives.kernel thread
  have top : s.kernel.stackHigh s.kernel.current = s.kernel.bootStack + taskStack := by
    simp only [runs.current, Kernel.stackHigh, Kernel.stackLow, runs.thread, runs.stack, if_true]
  have above : s.kernel.heap.ram.SameHeap (s.kernel.entered a).heap.ram := fun w inside => by
    have below := runs.low
    have length : (a.regs.words.take (frameWords (s.kernel.tasks s.kernel.current).flags)).length = 17 := by
      rw [List.length_take, Regs.words_length, thread]
      rfl
    have notBelow : ¬ (s.kernel.stackLow s.kernel.current ≤ w ∧ w < a.r) := by omega
    simp only [Kernel.entered, Kernel.pushFrame, notBelow, if_false]
    exact Ram.writeWords_outside _ _ (by rw [length]; omega)
  have entered : s.kernel.Interrupted (s.kernel.entered a) :=
    ⟨runs, _, (s.kernel.tasks 0).esp, (s.kernel.tasks 0).saved, (s.kernel.tasks 0).sliceLeft, s.kernel.frame,
      s.kernel.schedReady, above, by simp [Kernel.entered, Kernel.pushFrame]⟩
  have taken : s.kernel.Interrupted (s.kernel.taken a) := by
    refine entered.trans ?_
    have here : (s.kernel.entered a).current = 0 := runs.current
    unfold Kernel.taken Kernel.schedEnterIrq
    split
    next =>
      rw [here]
      exact ⟨entered.runs, _, _, _, ((s.kernel.entered a).tasks 0).sliceLeft, _, _, fun _ _ => rfl, rfl⟩
    next =>
      exact ⟨entered.runs, _, ((s.kernel.entered a).tasks 0).esp,
        ((s.kernel.entered a).tasks 0).saved, ((s.kernel.entered a).tasks 0).sliceLeft, a.r, true, fun _ _ => rfl, by simp⟩
  unfold Kernel.interrupt Kernel.isrCommonHandler at returned
  simp only [Kernel.entered_intNo] at returned
  rw [if_neg (by omega), if_pos last] at returned
  split at returned
  next => exact taken.trans (schedTick_interrupted taken.runs returned)
  next =>
    obtain rfl := Outcome.returns.inj returned
    exact taken

end NovaKernel
