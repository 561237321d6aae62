import NovaKernel.Mmu

set_option autoImplicit false

namespace NovaKernel

open Machine

def kernelPd : Nat := 0x9
def kernelPt : Nat := 0xA

def userPages : List Nat := List.range' userPgStart (userPgEnd - userPgStart)

-- The map the stage-2 loader leaves behind: PDE 0 and an identity table, the rest zero.
def loaderTables (mem : Nat → Nat → Word) : Nat → Nat → Word :=
  Function.update
    (Function.update mem kernelPd fun d => if d = 0 then entry kernelPt 3 else 0)
    kernelPt fun i => entry i 3

namespace Machine

def pagingSwitch (s : Machine) (cr3 : Nat) : Machine :=
  { s with cr3 := cr3, tlb := [] }

def invlpg (s : Machine) (v : Nat) : Machine :=
  { s with tlb := s.tlb.filter fun cached => cached.1 != v }

def identityTable (s : Machine) : Machine :=
  (List.range 1024).foldl (fun s i =>
    s.setWord kernelPt i (if InUserWindow i then 0 else entry i 3)) s

-- The tables are rewritten in place, under the identity map of the loader.
def pagingInit (s : Machine) : Machine :=
  (s.identityTable.setWord kernelPd 0 (entry kernelPt 7)).pagingSwitch kernelPd

/-- The machine after `mm_init` and `paging_init`, for any earlier memory contents. -/
def boot (mem : Nat → Nat → Word) : Machine :=
  pagingInit { mm := Mm.mmInit, mem := loaderTables mem, cr3 := kernelPd, tlb := [] }

def frameAlloc (s : Machine) : Option Nat × Machine :=
  let (frame, mm) := s.mm.frameAlloc
  (frame, { s with mm := mm })

def frameFree (s : Machine) (frame : Nat) : Machine :=
  { s with mm := s.mm.frameFree frame }

def mmRefInc (s : Machine) (frame : Nat) : Machine :=
  { s with mm := s.mm.mmRefInc frame }

def mmRefDec (s : Machine) (frame : Nat) : Machine :=
  { s with mm := s.mm.mmRefDec frame }

end Machine

-- The functions below return `none` when a pointer faults in ring 0.

def mapUserPage (acc : Access) (s : Machine) (pt idx : Nat) : Option (Bool × Machine) := do
  let pte ← s.load acc pt idx
  if hasFlag pte pteP then
    return (true, s)
  match s.frameAlloc with
  | (none, s) => return (false, s)
  | (some f, s) =>
    let s ← s.store acc pt idx (entry f (pteP ||| pteW ||| pteU))
    return (true, s.mmRefInc f)

-- Both table frames are requested before either result is tested.
def allocTables (s : Machine) : Option (Nat × Nat) × Machine :=
  let (pd, s) := s.frameAlloc
  let (pt, s) := s.frameAlloc
  match pd, pt with
  | some pd, some pt => (some (pd, pt), s)
  | pd, pt =>
    let s := pd.elim s s.frameFree
    (none, pt.elim s s.frameFree)

def clearUserWindow (acc : Access) (s : Machine) (pt : Nat) : Option Machine :=
  userPages.foldlM (fun s i => s.store acc pt i 0) s

def pagingCreateAddrSpace (acc : Access) (s : Machine) : Option (Option Nat × Machine) :=
  match allocTables s with
  | (none, s) => some (none, s)
  | (some (pd, pt), s) => do
    let s ← s.copyPage acc pt kernelPt
    let s ← clearUserWindow acc s pt
    let s ← s.copyPage acc pd kernelPd
    let s ← s.store acc pd 0 (entry pt 7)
    return (some pd, s)

def shareUserPage (acc : Access) (ppt pt : Nat) (s : Machine) (i : Nat) : Option Machine := do
  let pp ← s.load acc ppt i
  if hasFlag pp pteP then
    let s ← s.store acc pt i (pp &&& ~~~pteW)
    let pp ← s.load acc ppt i
    let s ← s.store acc ppt i (pp &&& ~~~pteW)
    let pp ← s.load acc ppt i
    return s.mmRefInc (frameOf pp)
  else
    return s

def pagingForkAddrSpace (acc : Access) (s : Machine) (parent : Nat) :
    Option (Option Nat × Machine) := do
  let ppde ← s.load acc parent 0
  if !hasFlag ppde pteP then
    return (none, s)
  let ppt := frameOf ppde
  match allocTables s with
  | (none, s) => return (none, s)
  | (some (pd, pt), s) =>
    let s ← s.copyPage acc pd parent
    let s ← s.copyPage acc pt ppt
    let s ← userPages.foldlM (shareUserPage acc ppt pt) s
    let s ← s.store acc pd 0 (entry pt 7)
    -- The parent was downgraded: drop its stale writable translations.
    return (some pd, if parent = s.cr3 then s.pagingSwitch s.cr3 else s)

def releaseUserPage (acc : Access) (pt : Nat) (s : Machine) (i : Nat) : Option Machine := do
  let pte ← s.load acc pt i
  return if hasFlag pte pteP then s.mmRefDec (frameOf pte) else s

def releaseTable (acc : Access) (cr3 : Nat) (s : Machine) (d : Nat) : Option Machine := do
  let pde ← s.load acc cr3 d
  if !hasFlag pde pteP then
    return s
  let pt := frameOf pde
  if pt = kernelPt ∨ pt = kernelPd then
    return s
  let s ← userPages.foldlM (releaseUserPage acc pt) s
  return s.frameFree pt

def pagingDestroyAddrSpace (acc : Access) (s : Machine) (cr3 : Nat) : Option Machine :=
  if cr3 = kernelPd then some s
  else do
    let s ← (List.range 1024).foldlM (releaseTable acc cr3) s
    return s.frameFree cr3

def mapUserPages (acc : Access) (pt : Nat) : List Nat → Machine → Option (Bool × Machine)
  | [], s => some (true, s)
  | i :: rest, s => do
    let (mapped, s) ← mapUserPage acc s pt i
    if mapped then mapUserPages acc pt rest s else return (false, s)

-- `vaddr` and `nbytes` are u32 values; their sum wraps.
def regionPages (vaddr nbytes : Nat) : List Nat :=
  let first := vaddr / 0x1000 % 1024
  let last := (vaddr + nbytes + (2 ^ 32 - 1)) % 2 ^ 32 / 0x1000 % 1024
  List.range' first (last + 1 - first)

def pagingMapUserRegion (acc : Access) (s : Machine) (cr3 vaddr nbytes : Nat) :
    Option (Bool × Machine) :=
  if nbytes = 0 then some (true, s)
  else do
    let pde ← s.load acc cr3 (vaddr / 2 ^ 22 % 1024)
    if !hasFlag pde pteP then
      return (false, s)
    mapUserPages acc (frameOf pde) (regionPages vaddr nbytes) s

def pagingCowFault (acc : Access) (s : Machine) (cr2 : Nat) (err : Word) :
    Option (Bool × Machine) :=
  if !hasFlag err pteU then some (false, s)
  else if !hasFlag err pteW then some (false, s)
  else do
    let pde ← s.load acc s.cr3 (cr2 / 2 ^ 22 % 1024)
    if !hasFlag pde pteP then
      return (false, s)
    let pt := frameOf pde
    let idx := cr2 / 2 ^ 12 % 1024
    let pte ← s.load acc pt idx
    if !hasFlag pte pteP then
      return (false, s)
    if hasFlag pte pteW then
      return (false, s)
    let old := frameOf pte
    match s.frameAlloc with
    | (none, s) => return (false, s)
    | (some nf, s) =>
      let s ← s.copyPage acc nf old
      let s ← s.store acc pt idx (entry nf (pteP ||| pteW ||| pteU))
      return (true, ((s.mmRefDec old).mmRefInc nf).invlpg (cr2 / 2 ^ 12))

end NovaKernel
