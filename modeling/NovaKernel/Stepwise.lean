import NovaKernel.SchedSpec
import NovaKernel.Lib.Statements

set_option autoImplicit false

namespace NovaKernel

open Arena Statements Machine

namespace Stepwise

/-! The calls that the shell makes with interrupts enabled, statement by statement. -/

def machine : Part Kernel Machine where
  get k := k.sys.machine
  set k m := { k with sys := ⟨m, k.sys.live⟩ }
  get_set _ _ := rfl
  set_set _ _ _ := rfl
  set_get _ := rfl

def ram : Part Kernel Ram where
  get k := k.heap.ram
  set k m := { k with heap := ⟨m, k.heap.allocated⟩ }
  get_set _ _ := rfl
  set_set _ _ _ := rfl
  set_get _ := rfl

def setFrameUsed (i : Nat) : Code Machine Unit :=
  .change fun m => { m with mm := { m.mm with bitmap := Function.update m.mm.bitmap i true } }

def frameAllocFrom : Nat → Nat → Code Machine (Option Nat)
  | 0, _ => return none
  | n + 1, i => do
    if ← .read fun m => m.mm.bitmap i then frameAllocFrom n (i + 1)
    else
      setFrameUsed i
      return some i

def frameAlloc : Code Machine (Option Nat) := frameAllocFrom frameCount 0

def frameFree (i : Nat) : Code Machine Unit := .change fun m => m.frameFree i

def setRefs (f : Nat) (value : Nat → Nat) : Code Machine Unit :=
  .change fun m => { m with mm := { m.mm with frameRefs := Function.update m.mm.frameRefs f (value (m.mm.frameRefs f)) } }

def mmRefInc (f : Nat) : Code Machine Unit := do
  if ← .test fun m => f < frameCount ∧ m.mm.frameRefs f < 255 then
    setRefs f fun n => if n = 255 then 0 else n + 1

def mmRefDec (f : Nat) : Code Machine Unit :=
  if frameCount ≤ f then return
  else do
    if ← .test fun m => 0 < m.mm.frameRefs f then
      setRefs f fun n => if n = 0 then 255 else n - 1
    if ← .test fun m => m.mm.frameRefs f = 0 ∧ m.mm.bitmap f = true then
      frameFree f

/-! Page tables. A `memcpy` counts as one statement. -/

section Paging

variable (acc : Access)

def load (page idx : Nat) : Code Machine Word :=
  .atom fun m => (m.load acc page idx).map fun w => (w, m)

def store (page idx : Nat) (w : Word) : Code Machine Unit :=
  .atom fun m => (m.store acc page idx w).map fun m => ((), m)

def copyPage (dst src : Nat) : Code Machine Unit :=
  .atom fun m => (m.copyPage acc dst src).map fun m => ((), m)

def mapUserPage (pt idx : Nat) : Code Machine Bool := do
  if hasFlag (← load acc pt idx) pteP then return true
  match ← frameAlloc with
  | none => return false
  | some f =>
    store acc pt idx (entry f (pteP ||| pteW ||| pteU))
    mmRefInc f
    return true

def freeTable : Option Nat → Code Machine Unit
  | none => return
  | some f => frameFree f

def pagingCreateAddrSpace : Code Machine (Option Nat) := do
  let pd ← frameAlloc
  let pt ← frameAlloc
  match pd, pt with
  | some pd, some pt =>
    copyPage acc pt kernelPt
    .each (fun i => store acc pt i 0) userPages
    copyPage acc pd kernelPd
    store acc pd 0 (entry pt 7)
    return some pd
  | pd, pt =>
    freeTable pd
    freeTable pt
    return none

def releaseUserPage (pt i : Nat) : Code Machine Unit := do
  if hasFlag (← load acc pt i) pteP then
    mmRefDec (frameOf (← load acc pt i))

def releaseTable (cr3 d : Nat) : Code Machine Unit := do
  if hasFlag (← load acc cr3 d) pteP then
    let pt := frameOf (← load acc cr3 d)
    if pt = kernelPt ∨ pt = kernelPd then return
    .each (releaseUserPage acc pt) userPages
    frameFree pt

def pagingDestroyAddrSpace (cr3 : Nat) : Code Machine Unit :=
  if cr3 = kernelPd then return
  else do
    .each (releaseTable acc cr3) (List.range 1024)
    frameFree cr3

def mapUserPages (pt : Nat) : List Nat → Code Machine Bool
  | [] => return true
  | i :: rest => do
    if ← mapUserPage acc pt i then mapUserPages pt rest else return false

def pagingMapUserRegion (cr3 vaddr nbytes : Nat) : Code Machine Bool :=
  if nbytes = 0 then return true
  else do
    let pde ← load acc cr3 (vaddr / 2 ^ 22 % 1024)
    if !hasFlag pde pteP then return false
    mapUserPages acc (frameOf pde) (regionPages vaddr nbytes)

end Paging

def setWord (addr : Nat) (value : Ram → Nat) : Code Ram Unit :=
  .change fun m => m.set addr (value m)

def findBlock (size : Nat) : Nat → Nat → Code Ram (Option Nat)
  | 0, _ => return none
  | fuel + 1, b =>
    if b = 0 then return none
    else do
      if ← .test fun m => m.blockFree b ≠ 0 ∧ size ≤ m.blockSize b then return some b
      findBlock size fuel (← .read fun m => m.blockNext b)

-- The difference of two u32 values.
def minus (a b : Nat) : Nat := if b ≤ a then a - b else a + 2 ^ 32 - b

def heapSplit (b need : Nat) : Code Ram Unit := do
  let total ← .read fun m => m.blockSize b
  if minus total need ≤ sizeofBlock + 8 then return
  let rest := b + sizeofBlock + need
  setWord rest fun _ => minus total need - sizeofBlock
  setWord (rest + 4) fun _ => 1
  setWord (rest + 8) fun m => m.blockNext b
  setWord b fun _ => need
  setWord (b + 8) fun _ => rest

def takeBlock (size : Nat) : Code Ram (Option Nat) := do
  match ← findBlock size heapFuel heapStart with
  | none => return none
  | some b =>
    heapSplit b size
    setWord (b + 4) fun _ => 0
    return some (b + sizeofBlock)

def coalesce : Nat → Nat → Code Ram Unit
  | 0, _ => return
  | fuel + 1, b => do
    if ← .test fun m => m.blockNext b ≠ 0 ∧ m.blockFree (m.blockNext b) ≠ 0 then
      setWord b fun m => m.blockSize b + (sizeofBlock + m.blockSize (m.blockNext b))
      setWord (b + 8) fun m => m.blockNext (m.blockNext b)
      coalesce fuel b

def releaseBlock (ptr : Nat) : Code Ram Unit :=
  if ptr = 0 then return
  else do
    setWord (ptr - sizeofBlock + 4) fun _ => 1
    coalesce heapFuel (ptr - sizeofBlock)

/-! The kernel. Which blocks and address spaces are handed out is not in the source. -/

def kmalloc (size : Nat) : Code Kernel (Option Nat) := do
  let ptr ← (takeBlock (roundSize size)).on ram
  .change fun k => { k with heap := ⟨k.heap.ram, ptr.elim k.heap.allocated (insert · k.heap.allocated)⟩ }
  return ptr

def kfree (ptr : Nat) : Code Kernel Unit := do
  (releaseBlock ptr).on ram
  .change fun k => { k with heap := ⟨k.heap.ram, k.heap.allocated.erase ptr⟩ }

def createAddrSpace (acc : Access) : Code Kernel (Option Nat) := do
  let cr3 ← (pagingCreateAddrSpace acc).on machine
  .change fun k => { k with sys := ⟨k.sys.machine, cr3.elim k.sys.live (insert · k.sys.live)⟩ }
  return cr3

def destroyAddrSpace (acc : Access) (cr3 : Nat) : Code Kernel Unit := do
  (pagingDestroyAddrSpace acc cr3).on machine
  .change fun k => { k with sys := ⟨k.sys.machine, k.sys.live.erase cr3⟩ }

def mapUserRegion (acc : Access) (cr3 vaddr nbytes : Nat) : Code Kernel Bool :=
  (pagingMapUserRegion acc cr3 vaddr nbytes).on machine

def freeSlotFrom : Nat → Nat → Code Kernel (Option Nat)
  | 0, _ => return none
  | fuel + 1, i => do
    if ← .test fun k => k.taskCount ≤ i then return none
    if ← .read fun k => (k.tasks i).ready then freeSlotFrom fuel (i + 1) else return some i

def allocSlot : Code Kernel Nat := do
  match ← freeSlotFrom (maxTasks + (← .read fun k => k.taskCount) + 1) 0 with
  | some i => return i
  | none =>
    if ← .test fun k => k.taskCount < maxTasks then
      .atom fun k => some (k.taskCount, { k with taskCount := k.taskCount + 1 })
    else return maxTasks

def modify (slot : Nat) (values : Task → Task) : Code Kernel Unit :=
  .change fun k => k.modify slot values

def initUserTask (slot : Nat) : Code Kernel Unit := do
  modify slot fun _ => Task.zero
  .change fun k => { k.modify slot fun t => { t with pid := k.nextPid } with
    nextPid := (k.nextPid + 1) % 2 ^ 32
    created := k.created + 1 }
  modify slot fun t => { t with ready := true }
  modify slot fun t => { t with flags := .user }
  modify slot fun t => { t with stackBottom := 0 }

def allocIrqStack (slot : Nat) : Code Kernel Bool := do
  if ← .test fun k => (k.tasks slot).irqStackTop ≠ 0 then return true
  match ← kmalloc irqStack with
  | none => return false
  | some base =>
    modify slot fun t => { t with irqStackTop := base + irqStack }
    return true

def pushWords : List Nat → Nat → Code Kernel Nat
  | [], sp => return sp
  | w :: ws, sp => do
    let sp ← pushWords ws sp
    .change fun k => k.setWord (sp - 4) w
    return sp - 4

def taskSetupUserStack (slot entry : Nat) : Code Kernel Unit := do
  match ← kmalloc 0x1000 with
  | none => return
  | some area =>
    let sp ← pushWords (Kernel.userFrame entry) (area + 0x1000)
    .change fun k => (k.modify slot fun t => { t with firstFrame := (area, 0x1000) }).setEsp slot sp

def taskCreateUser (entry cr3 : Nat) : Code Kernel Nat := do
  let slot ← allocSlot
  if maxTasks ≤ slot then return 0
  initUserTask slot
  if ← allocIrqStack slot then
    modify slot fun t => { t with cr3 := cr3 }
    modify slot fun t => { t with sliceLeft := 5 }
    taskSetupUserStack slot entry
    .read fun k => (k.tasks slot).pid
  else
    modify slot fun t => { t with ready := false }
    return 0

section Frames

variable (m : Machine)

theorem frameAllocFrom_run (n i : Nat) : (frameAllocFrom n i).run m = some
    (match (List.range' i n).find? fun f => !m.mm.bitmap f with
    | none => (none, m)
    | some f => (some f, { m with mm := { m.mm with bitmap := Function.update m.mm.bitmap f true } })) := by
  induction n generalizing i with
  | zero => rfl
  | succ n ih =>
    rw [List.range'_succ, List.find?_cons]
    cases used : m.mm.bitmap i with
    | true => simp [frameAllocFrom, used, ih]
    | false => simp [frameAllocFrom, used, setFrameUsed]

theorem frameAlloc_run : frameAlloc.run m = some m.frameAlloc := by
  rw [frameAlloc, frameAllocFrom_run, Machine.frameAlloc, Mm.frameAlloc, FirstFit.firstFree,
    List.range_eq_range']
  cases (List.range' 0 frameCount).find? fun f => !m.mm.bitmap f <;> rfl

theorem mmRefInc_run (f : Nat) : (mmRefInc f).run m = some ((), m.mmRefInc f) := by
  by_cases room : f < frameCount ∧ m.mm.frameRefs f < 255
  · have small : m.mm.frameRefs f ≠ 255 := Nat.ne_of_lt room.2
    simp [mmRefInc, setRefs, Machine.mmRefInc, Mm.mmRefInc, room, small]
  · simp [mmRefInc, Machine.mmRefInc, Mm.mmRefInc, room]

theorem mmRefDec_run (f : Nat) : (mmRefDec f).run m = some ((), m.mmRefDec f) := by
  by_cases outside : frameCount ≤ f
  · simp [mmRefDec, Machine.mmRefDec, Mm.mmRefDec, outside]
  · by_cases held : 0 < m.mm.frameRefs f
    · have some' : m.mm.frameRefs f ≠ 0 := by omega
      by_cases last : m.mm.frameRefs f - 1 = 0 ∧ m.mm.bitmap f = true
      · simp [mmRefDec, setRefs, frameFree, Machine.mmRefDec, Mm.mmRefDec, Machine.frameFree,
          outside, held, some', last]
      · simp [mmRefDec, setRefs, Machine.mmRefDec, Mm.mmRefDec, outside, held, some', last]
    · by_cases last : m.mm.frameRefs f = 0 ∧ m.mm.bitmap f = true
      · simp [mmRefDec, frameFree, Machine.mmRefDec, Mm.mmRefDec, Machine.frameFree, outside, last]
      · simp [mmRefDec, Machine.mmRefDec, Mm.mmRefDec, outside, held, last]

end Frames

section Paging

variable (acc : Access) (m : Machine)

@[simp] theorem load_run (page idx : Nat) :
    (load acc page idx).run m = (m.load acc page idx).map fun w => (w, m) := Code.run_atom ..

@[simp] theorem store_run (page idx : Nat) (w : Word) :
    (store acc page idx w).run m = (m.store acc page idx w).map fun m => ((), m) := Code.run_atom ..

@[simp] theorem copyPage_run (dst src : Nat) :
    (copyPage acc dst src).run m = (m.copyPage acc dst src).map fun m => ((), m) := Code.run_atom ..

theorem mapUserPage_run (pt idx : Nat) :
    (mapUserPage acc pt idx).run m = NovaKernel.mapUserPage acc m pt idx := by
  unfold mapUserPage NovaKernel.mapUserPage
  rw [Code.run_bind, load_run]
  cases m.load acc pt idx with
  | none => rfl
  | some w =>
    simp only [Option.map_some, Option.bind_some, Option.bind_eq_bind]
    split
    next => rfl
    next =>
      rw [Code.run_bind, frameAlloc_run, Option.bind_some]
      rcases m.frameAlloc with ⟨_ | f, m'⟩
      · rfl
      · simp only [Code.run_bind, store_run]
        cases m'.store acc pt idx (entry f (pteP ||| pteW ||| pteU)) with
        | none => rfl
        | some m'' => simp [mmRefInc_run]

theorem freeTable_run (f : Option Nat) : (freeTable f).run m = some ((), f.elim m m.frameFree) := by
  cases f <;> rfl

theorem clear_run (pt : Nat) :
    (Code.each (fun i => store acc pt i 0) userPages).run m = (clearUserWindow acc m pt).map fun m => ((), m) :=
  Code.run_each m (fun i m => store_run acc m pt i 0) userPages

theorem pagingCreateAddrSpace_run :
    (pagingCreateAddrSpace acc).run m = NovaKernel.pagingCreateAddrSpace acc m := by
  unfold pagingCreateAddrSpace NovaKernel.pagingCreateAddrSpace allocTables
  rw [Code.run_bind, frameAlloc_run, Option.bind_some, Code.run_bind, frameAlloc_run,
    Option.bind_some]
  rcases m.frameAlloc with ⟨pd, m₁⟩
  dsimp only
  rcases m₁.frameAlloc with ⟨pt, m₂⟩
  dsimp only
  cases pd <;> cases pt
  case some.some pd pt =>
    simp only [Code.run_bind, copyPage_run, Option.bind_eq_bind]
    cases m₂.copyPage acc pt kernelPt with
    | none => rfl
    | some m₃ =>
      simp only [Option.map_some, Option.bind_some, clear_run]
      cases clearUserWindow acc m₃ pt with
      | none => rfl
      | some m₄ =>
        simp only [Option.map_some, Option.bind_some]
        cases m₄.copyPage acc pd kernelPd with
        | none => rfl
        | some m₅ =>
          simp only [Option.map_some, Option.bind_some, store_run]
          cases m₅.store acc pd 0 (entry pt 7) <;> rfl
  all_goals simp [freeTable_run]

theorem releaseUserPage_run (pt i : Nat) :
    (releaseUserPage acc pt i).run m =
      (NovaKernel.releaseUserPage acc pt m i).map fun m => ((), m) := by
  unfold releaseUserPage NovaKernel.releaseUserPage
  rw [Code.run_bind, load_run]
  cases found : m.load acc pt i with
  | none => rfl
  | some w =>
    by_cases present : hasFlag w pteP = true
    · simp [found, present, mmRefDec_run]
    · simp [present]

theorem releaseTable_run (cr3 d : Nat) :
    (releaseTable acc cr3 d).run m =
      (NovaKernel.releaseTable acc cr3 m d).map fun m => ((), m) := by
  unfold releaseTable NovaKernel.releaseTable
  rw [Code.run_bind, load_run]
  cases found : m.load acc cr3 d with
  | none => rfl
  | some w =>
    by_cases present : hasFlag w pteP = true
    · by_cases kernel : frameOf w = kernelPt ∨ frameOf w = kernelPd
      · simp [found, present, kernel]
      · have pages := Code.run_each m (fun i m => releaseUserPage_run acc m (frameOf w) i) userPages
        simp only [Option.map_some, Option.bind_some, Option.bind_eq_bind, present, if_true,
          Bool.not_true, Bool.false_eq_true, if_false, Code.run_bind, load_run, found, kernel,
          pages]
        cases userPages.foldlM (NovaKernel.releaseUserPage acc (frameOf w)) m <;> rfl
    · simp [present]

theorem pagingDestroyAddrSpace_run (cr3 : Nat) :
    (pagingDestroyAddrSpace acc cr3).run m =
      (NovaKernel.pagingDestroyAddrSpace acc m cr3).map fun m => ((), m) := by
  unfold pagingDestroyAddrSpace NovaKernel.pagingDestroyAddrSpace
  by_cases kernel : cr3 = kernelPd
  · rw [if_pos kernel, if_pos kernel]
    rfl
  · rw [if_neg kernel, if_neg kernel, Code.run_bind,
      Code.run_each m fun d m => releaseTable_run acc m cr3 d, Option.bind_eq_bind]
    cases (List.range 1024).foldlM (NovaKernel.releaseTable acc cr3) m <;> rfl

theorem mapUserPages_run (pt : Nat) (pages : List Nat) :
    (mapUserPages acc pt pages).run m = NovaKernel.mapUserPages acc pt pages m := by
  induction pages generalizing m with
  | nil => rfl
  | cons i rest ih =>
    rw [mapUserPages, NovaKernel.mapUserPages, Code.run_bind, mapUserPage_run, Option.bind_eq_bind]
    rcases NovaKernel.mapUserPage acc m pt i with _ | ⟨_ | _, m'⟩
    · rfl
    · rfl
    · exact ih m'

theorem pagingMapUserRegion_run (cr3 vaddr nbytes : Nat) :
    (pagingMapUserRegion acc cr3 vaddr nbytes).run m =
    NovaKernel.pagingMapUserRegion acc m cr3 vaddr nbytes := by
  unfold pagingMapUserRegion NovaKernel.pagingMapUserRegion
  by_cases zero : nbytes = 0
  · rw [if_pos zero, if_pos zero]
    rfl
  · rw [if_neg zero, if_neg zero, Code.run_bind, load_run, Option.bind_eq_bind]
    cases m.load acc cr3 (vaddr / 2 ^ 22 % 1024) with
    | none => rfl
    | some pde =>
      by_cases present : hasFlag pde pteP = true
      · simp [present, mapUserPages_run]
      · simp [present]

end Paging

section Heap

variable (h : Ram)

theorem findBlock_run (size fuel b : Nat) :
    (findBlock size fuel b).run h = some (NovaKernel.findBlock h size fuel b, h) := by
  induction fuel generalizing b with
  | zero => rfl
  | succ fuel ih =>
    rw [findBlock, NovaKernel.findBlock]
    by_cases last : b = 0
    · simp [last]
    · by_cases fit : h.blockFree b ≠ 0 ∧ size ≤ h.blockSize b
      · simp [last, fit]
      · simp [last, fit, ih]

theorem findBlock_fits {size fuel b c : Nat} (found : NovaKernel.findBlock h size fuel b = some c) :
    size ≤ h.blockSize c := by
  induction fuel generalizing b with
  | zero => cases found
  | succ fuel ih =>
    rw [NovaKernel.findBlock] at found
    split at found
    next => cases found
    next =>
      split at found
      next fit =>
        rw [← Option.some.inj found]
        exact fit.2
      next => exact ih found

theorem heapSplit_run {b need : Nat} (fit : need ≤ h.blockSize b) :
    (heapSplit b need).run h = some ((), NovaKernel.heapSplit h b need) := by
  have exact' : minus (h.blockSize b) need = h.blockSize b - need := if_pos fit
  unfold heapSplit NovaKernel.heapSplit
  by_cases small : h.blockSize b - need ≤ sizeofBlock + 8
  · simp [exact', small]
  · have far : b + 8 ≠ b + sizeofBlock + need + 4 ∧ b + 8 ≠ b + sizeofBlock + need := by
      simp only [sizeofBlock]
      omega
    simp [exact', small, setWord, Ram.blockNext, Ram.set_ne _ _ far.1, Ram.set_ne _ _ far.2]

theorem takeBlock_run (n : Nat) :
    (takeBlock (roundSize n)).run h = some (NovaKernel.kmalloc h n) := by
  rw [takeBlock, NovaKernel.kmalloc, Code.run_bind, findBlock_run, Option.bind_some]
  cases found : NovaKernel.findBlock h (roundSize n) heapFuel heapStart with
  | none => rfl
  | some b => simp [heapSplit_run h (findBlock_fits h found), setWord]

theorem coalesce_run (fuel : Nat) {r : List Block} {h : Ram} {x size : Nat}
    (tiles : Tiles h 0 x (⟨size, true⟩ :: r)) :
    (coalesce fuel x).run h = some ((), NovaKernel.coalesce fuel h x) := by
  induction fuel generalizing h r size with
  | zero => rfl
  | succ fuel ih =>
    rw [coalesce, NovaKernel.coalesce, Code.run_bind, Code.run_test, Option.bind_some]
    cases r with
    | nil =>
      have last : h.blockNext x = 0 := tiles.next
      simp [last]
    | cons g r =>
      have next : h.blockNext x = x + sizeofBlock + size := tiles.next
      have positive : x + sizeofBlock + size ≠ 0 := by simp [sizeofBlock]
      have later := tiles.2.2.2
      by_cases gap : g.free = true
      · have free := later.head_free.mpr gap
        have behind : ∀ v, (h.set x v).blockNext x = x + sizeofBlock + size := fun v => by
          rw [← next]
          exact Ram.set_ne _ _ (by omega)
        have order : ∀ v, (h.set x v).blockNext (x + sizeofBlock + size) =
            h.blockNext (x + sizeofBlock + size) :=
          fun v => Ram.set_ne _ _ (by simp only [sizeofBlock]; omega)
        have more : h.blockNext x ≠ 0 ∧ h.blockFree (h.blockNext x) ≠ 0 := by
          rw [next]
          exact ⟨positive, free⟩
        rw [if_pos more, decide_eq_true more, if_pos rfl, Code.run_bind, setWord, Code.run_change,
          Option.bind_some, Code.run_bind, setWord, Code.run_change, Option.bind_some, next, behind,
          order]
        exact ih (tiles_absorbed tiles)
      · have held : ¬ h.blockFree (x + sizeofBlock + size) ≠ 0 :=
          fun free => gap (later.head_free.mp free)
        simp [next, held]

theorem releaseBlock_run {h : Heap} (sound : h.Sound) {ptr : Nat} (held : ptr ∈ h.allocated) :
    (releaseBlock ptr).run h.ram = some ((), NovaKernel.kfree h.ram ptr) := by
  obtain ⟨blocks, owned⟩ := sound
  obtain ⟨size, member⟩ := (owned.payloads ptr).mp held
  obtain ⟨l, r, rfl, rfl⟩ := taken_split member
  obtain ⟨-, here⟩ := (tiles_append (by simp)).mp owned.heap.tiles
  have positive : heapStart + span sizeofBlock l + sizeofBlock ≠ 0 := by simp [sizeofBlock]
  rw [releaseBlock, NovaKernel.kfree, if_neg positive, if_neg positive, Code.run_bind,
    Nat.add_sub_cancel]
  exact coalesce_run heapFuel (tiles_freed here)

end Heap

section Calls

variable (acc : Access) (k : Kernel)

theorem kmalloc_run (size : Nat) : (kmalloc size).run k = some (k.kmalloc size) := by
  rw [kmalloc, Code.run_bind, Code.run_on, ram, takeBlock_run]
  rfl

theorem kfree_run (sound : k.heap.Sound) {ptr : Nat} (held : ptr ∈ k.heap.allocated) :
    (kfree ptr).run k = some ((), k.kfree ptr) := by
  rw [kfree, Code.run_bind, Code.run_on, ram, releaseBlock_run sound held]
  rfl

theorem createAddrSpace_run : (createAddrSpace acc).run k = k.createAddrSpace acc := by
  rw [createAddrSpace, Kernel.createAddrSpace, Code.run_bind, Code.run_on, machine,
    pagingCreateAddrSpace_run]
  cases NovaKernel.pagingCreateAddrSpace acc k.sys.machine <;> rfl

theorem destroyAddrSpace_run (cr3 : Nat) :
    (destroyAddrSpace acc cr3).run k = (k.destroyAddrSpace acc cr3).map fun k => ((), k) := by
  rw [destroyAddrSpace, Kernel.destroyAddrSpace, Code.run_bind, Code.run_on, machine,
    pagingDestroyAddrSpace_run]
  cases NovaKernel.pagingDestroyAddrSpace acc k.sys.machine cr3 <;> rfl

theorem mapUserRegion_run (cr3 vaddr nbytes : Nat) :
    (mapUserRegion acc cr3 vaddr nbytes).run k = k.mapUserRegion acc cr3 vaddr nbytes := by
  rw [mapUserRegion, Kernel.mapUserRegion, Code.run_on, machine, pagingMapUserRegion_run]
  cases NovaKernel.pagingMapUserRegion acc k.sys.machine cr3 vaddr nbytes <;> rfl

theorem freeSlotFrom_run (fuel i : Nat) (enough : k.taskCount ≤ fuel + i) :
    (freeSlotFrom (fuel + 1) i).run k =
    some ((List.range' i (k.taskCount - i)).find? fun j => !(k.tasks j).ready, k) := by
  induction fuel generalizing i with
  | zero =>
    have last : k.taskCount ≤ i := by omega
    simp [freeSlotFrom, last]
  | succ fuel ih =>
    rw [freeSlotFrom, Code.run_bind, Code.run_test, Option.bind_some]
    by_cases last : k.taskCount ≤ i
    · simp [last]
    · obtain ⟨n, count⟩ : ∃ n, k.taskCount - i = n + 1 := ⟨k.taskCount - i - 1, by omega⟩
      rw [count, List.range'_succ, List.find?_cons]
      cases ready : (k.tasks i).ready with
      | true =>
        have rest := ih (i + 1) (by omega)
        rw [show k.taskCount - (i + 1) = n by omega] at rest
        simp [last, ready, rest]
      | false => simp [last, ready]

theorem allocSlot_run : allocSlot.run k = some k.allocSlot := by
  rw [allocSlot, Code.run_bind, Code.run_read, Option.bind_some, Code.run_bind,
    freeSlotFrom_run k _ 0 (by omega), Option.bind_some, Kernel.allocSlot, FirstFit.firstFree,
    List.range_eq_range', Nat.sub_zero]
  cases (List.range' 0 k.taskCount).find? fun j => !(k.tasks j).ready with
  | some i => rfl
  | none =>
    by_cases room : k.taskCount < maxTasks
    · simp [room]
    · simp [room]

theorem modify_run (slot : Nat) (values : Task → Task) :
    (modify slot values).run k = some ((), k.modify slot values) :=
  rfl

theorem initUserTask_run (slot : Nat) :
    (initUserTask slot).run k = some ((), k.initTask slot .user) := by
  simp [initUserTask, modify, Kernel.initTask, Kernel.modify, Task.zero]

theorem allocIrqStack_run (slot : Nat) :
    (allocIrqStack slot).run k = some (k.allocIrqStack slot) := by
  rw [allocIrqStack, Kernel.allocIrqStack, Code.run_bind, Code.run_test, Option.bind_some]
  by_cases held : (k.tasks slot).irqStackTop ≠ 0
  · simp [held]
  · rw [if_neg held, decide_eq_false held, if_neg (by simp), Code.run_bind, kmalloc_run,
      Option.bind_some]
    rcases k.kmalloc irqStack with ⟨_ | base, k'⟩ <;> rfl

theorem pushWords_run (words : List Nat) (sp : Nat) (room : 4 * words.length ≤ sp) :
    (pushWords words sp).run k =
    some (sp - 4 * words.length, k.writeWords (sp - 4 * words.length) words) := by
  induction words generalizing k with
  | nil => rfl
  | cons w ws ih =>
    rw [List.length_cons] at room ⊢
    have place : sp - 4 * ws.length - 4 = sp - 4 * (ws.length + 1) := by omega
    have above : sp - 4 * (ws.length + 1) + 4 = sp - 4 * ws.length := by omega
    simp only [pushWords, Code.run_bind, ih k (by omega), Option.bind_some, Code.run_change,
      Code.run_pure, place, Kernel.writeWords, Kernel.setWord, Ram.writeWords, above]
    rw [Ram.writeWords_set _ _ (by omega)]

theorem taskSetupUserStack_run (slot entry : Nat) :
    (taskSetupUserStack slot entry).run k = some ((), k.taskSetupUserStack slot entry) := by
  rw [taskSetupUserStack, Kernel.taskSetupUserStack, Code.run_bind, kmalloc_run, Option.bind_some]
  rcases k.kmalloc 0x1000 with ⟨_ | area, k'⟩
  · rfl
  · have size : (Kernel.userFrame entry).length = 19 := rfl
    have pushed := pushWords_run k' (Kernel.userFrame entry) (area + 0x1000) (by rw [size]; omega)
    rw [size] at pushed
    simp only [Code.run_bind, pushed, Option.bind_some, Code.run_change]
    rfl

theorem allocIrqStack_pid (slot : Nat) :
    ((k.allocIrqStack slot).2.tasks slot).pid = (k.tasks slot).pid := by
  rw [Kernel.allocIrqStack]
  split
  next => rfl
  next =>
    rcases k.kmalloc_cases irqStack with ⟨-, call⟩ | ⟨base, h, -, call⟩
    · rw [call]
    · rw [call]
      dsimp only
      rw [Kernel.modify_self]

theorem taskSetupUserStack_pid (slot entry : Nat) :
    ((k.taskSetupUserStack slot entry).tasks slot).pid = (k.tasks slot).pid := by
  rw [Kernel.taskSetupUserStack]
  rcases k.kmalloc_cases 0x1000 with ⟨-, call⟩ | ⟨area, h, -, call⟩
  · rw [call]
  · rw [call]
    simp [Kernel.setEsp, Kernel.modify, Kernel.writeWords]

theorem taskCreateUser_run (entry cr3 : Nat) :
    (taskCreateUser entry cr3).run k = some (k.taskCreateUser entry cr3) := by
  rw [taskCreateUser, Kernel.taskCreateUser, Code.run_bind, allocSlot_run, Option.bind_some]
  rcases k.allocSlot with ⟨slot, k₁⟩
  by_cases full : maxTasks ≤ slot
  · simp [full]
  · simp only [full, if_false, Code.run_bind, initUserTask_run, Option.bind_some, allocIrqStack_run]
    have numbered := allocIrqStack_pid (k₁.initTask slot .user) slot
    rcases call : (k₁.initTask slot .user).allocIrqStack slot with ⟨_ | _, k₂⟩
    · rfl
    · have pid := taskSetupUserStack_pid
          (k₂.modify slot fun t => { t with cr3 := cr3, sliceLeft := 5 }) slot entry
      have one : (k₂.modify slot fun t => { t with cr3 := cr3 }).modify slot
          (fun t => { t with sliceLeft := 5 }) =
          k₂.modify slot fun t => { t with cr3 := cr3, sliceLeft := 5 } := by
        simp [Kernel.modify]
      rw [Kernel.modify_self] at pid
      simp only [if_true, Code.run_bind, modify_run, Option.bind_some, taskSetupUserStack_run,
        Code.run_read, one, pid]
      rw [call] at numbered
      have first : (k₂.tasks slot).pid = k₁.nextPid := by
        rw [numbered]
        simp [Kernel.initTask]
      rw [first]

end Calls
end Stepwise

end NovaKernel
