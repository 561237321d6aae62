import NovaKernel.Lib.Loops
import NovaKernel.Paging

set_option autoImplicit false

namespace NovaKernel

open Machine Loops

def LowIdentity (s : Machine) : Prop :=
  ∀ v < userPgStart, s.walk v = some { frame := v, writable := true, user := false }

/-- The frames an access reaches at their own address while low memory is identity mapped. -/
def Reaches (acc : Access) (within : Nat → Prop) : Prop :=
  ∀ s, LowIdentity s → ∀ v, within v → ∀ store, acc s v store = some v

theorem physical_reaches : Reaches physical fun _ => True :=
  fun _ _ _ _ _ => rfl

theorem Faithful.reaches {acc : Access} (faithful : Faithful acc) :
    Reaches acc (· < userPgStart) := by
  intro s low v below store
  apply faithful s v store below
  simp [translated, low v below]

def tableOf (s : Machine) (pd : Nat) : Nat :=
  frameOf (s.mem pd 0)

theorem tableOf_congr {s s' : Machine} {pd : Nat} (dir : s'.mem pd = s.mem pd) :
    tableOf s' pd = tableOf s pd := by
  rw [tableOf, tableOf, dir]

theorem lowIdentity_congr {s s' : Machine} (low : LowIdentity s) (cr3 : s'.cr3 = s.cr3)
    (pde : s'.mem s.cr3 0 = s.mem s.cr3 0)
    (ptes : ∀ v < userPgStart, s'.mem (tableOf s s.cr3) v = s.mem (tableOf s s.cr3) v) :
    LowIdentity s' := by
  intro v below
  have first : v / 1024 = 0 := by simp only [userPgStart] at below; omega
  have index : v % 1024 = v := by simp only [userPgStart] at below; omega
  rw [← low v below]
  apply walk_congr cr3
  · rw [first, pde]
  · rw [first, index]
    exact ptes v below

theorem lowIdentity_setFrame {s : Machine} (low : LowIdentity s) {frame : Nat}
    (contents : Nat → Word) (notDir : frame ≠ s.cr3) (notTable : frame ≠ tableOf s s.cr3) :
    LowIdentity (s.setFrame frame contents) := by
  refine lowIdentity_congr low (show (s.setFrame frame contents).cr3 = s.cr3 from rfl) ?_ ?_
  · rw [setFrame_mem, if_neg (Ne.symm notDir)]
  · intro v _
    rw [setFrame_mem, if_neg (Ne.symm notTable)]

theorem lowIdentity_setWord {s : Machine} (low : LowIdentity s) {frame idx : Nat} (w : Word)
    (notDir : frame ≠ s.cr3) (inWindow : frame = tableOf s s.cr3 → userPgStart ≤ idx) :
    LowIdentity (s.setWord frame idx w) := by
  refine lowIdentity_congr low (show (s.setWord frame idx w).cr3 = s.cr3 from rfl) ?_ ?_
  · rw [setWord_mem_ne _ _ _ (Ne.symm notDir)]
  · intro v below
    rw [setWord_mem, if_neg]
    rintro ⟨same, rfl⟩
    exact Nat.not_le.mpr below (inWindow same.symm)

theorem mem_userPages {i : Nat} : i ∈ userPages ↔ InUserWindow i := by
  simp only [userPages, List.mem_range'_1, InUserWindow, userPgStart, userPgEnd]

theorem userPages_nodup : userPages.Nodup := List.nodup_range'

section Accesses

variable {acc : Access} {within : Nat → Prop} (reaches : Reaches acc within)
  {s : Machine} (low : LowIdentity s)
include reaches low

theorem load_eq {page : Nat} (inside : within page) (idx : Nat) :
    s.load acc page idx = some (s.mem page idx) := by
  simp [load, reaches s low page inside]

theorem store_eq {page : Nat} (inside : within page) (idx : Nat) (w : Word) :
    s.store acc page idx w = some (s.setWord page idx w) := by
  simp [store, reaches s low page inside]

theorem copyPage_eq {dst src : Nat} (dstInside : within dst) (srcInside : within src) :
    s.copyPage acc dst src = some (s.setFrame dst (s.mem src)) := by
  simp [copyPage, reaches s low dst dstInside, reaches s low src srcInside]

end Accesses

def takeFrame (s : Machine) (f : Nat) : Machine :=
  { s with mm := { s.mm with bitmap := Function.update s.mm.bitmap f true } }

theorem machine_frameAlloc_none {s s' : Machine} (failed : s.frameAlloc = (none, s')) :
    s' = s ∧ ∀ f < frameCount, s.mm.bitmap f = true := by
  rcases alloc : s.mm.frameAlloc with ⟨frame, mm⟩
  obtain ⟨rfl, rfl⟩ : frame = none ∧ { s with mm := mm } = s' := by
    simpa [Machine.frameAlloc, alloc] using failed
  obtain ⟨rfl, full⟩ := Mm.frameAlloc_none alloc
  exact ⟨rfl, full⟩

theorem machine_frameAlloc_some {s s' : Machine} {f : Nat}
    (allocated : s.frameAlloc = (some f, s')) :
    s' = takeFrame s f ∧ f < frameCount ∧ s.mm.bitmap f = false ∧
      ∀ g < f, s.mm.bitmap g = true := by
  rcases alloc : s.mm.frameAlloc with ⟨frame, mm⟩
  obtain ⟨rfl, rfl⟩ : frame = some f ∧ { s with mm := mm } = s' := by
    simpa [Machine.frameAlloc, alloc] using allocated
  obtain ⟨rfl, rest⟩ := Mm.frameAlloc_some alloc
  exact ⟨rfl, rest⟩

theorem machine_frameAlloc_of_first {s : Machine} {f : Nat} (bounded : f < frameCount)
    (free : s.mm.bitmap f = false) (before : ∀ g < f, s.mm.bitmap g = true) :
    s.frameAlloc = (some f, takeFrame s f) := by
  simp only [Machine.frameAlloc, Mm.frameAlloc_of_first bounded free before, takeFrame]

theorem takeFrame_frameFree {s : Machine} {f : Nat} (bounded : f < frameCount)
    (free : s.mm.bitmap f = false) : (takeFrame s f).frameFree f = s := by
  simp only [Machine.frameFree, takeFrame, Mm.frameFree_frameAlloc bounded free]

theorem allocTables_none {s s' : Machine} (failed : allocTables s = (none, s')) : s' = s := by
  unfold allocTables at failed
  rcases first : s.frameAlloc with ⟨_ | pd, s₁⟩
  · obtain ⟨rfl, full⟩ := machine_frameAlloc_none first
    rcases second : s₁.frameAlloc with ⟨_ | pt, s₂⟩
    · simp only [first, Option.elim] at failed
      exact (Prod.mk.inj failed).2.symm
    · exact absurd (second.symm.trans first) (by simp)
  · rcases second : s₁.frameAlloc with ⟨_ | pt, s₂⟩
    · obtain ⟨rfl, bounded, free, _⟩ := machine_frameAlloc_some first
      obtain ⟨rfl, _⟩ := machine_frameAlloc_none second
      simp only [first, second, Option.elim] at failed
      rw [← (Prod.mk.inj failed).2]
      exact takeFrame_frameFree bounded free
    · simp [first, second] at failed

theorem allocTables_some {s s' : Machine} {pd pt : Nat}
    (allocated : allocTables s = (some (pd, pt), s')) :
    s' = takeFrame (takeFrame s pd) pt ∧ pd < frameCount ∧ pt < frameCount ∧ pd ≠ pt ∧
      s.mm.bitmap pd = false ∧ s.mm.bitmap pt = false := by
  unfold allocTables at allocated
  rcases first : s.frameAlloc with ⟨_ | d, s₁⟩
  · simp [first] at allocated
  · rcases second : s₁.frameAlloc with ⟨_ | t, s₂⟩
    · simp [first, second] at allocated
    · obtain ⟨⟨rfl, rfl⟩, rfl⟩ : (d = pd ∧ t = pt) ∧ s₂ = s' := by
        simpa [first, second] using allocated
      obtain ⟨rfl, dBounded, dFree, _⟩ := machine_frameAlloc_some first
      obtain ⟨rfl, tBounded, tFree, _⟩ := machine_frameAlloc_some second
      have other : t ≠ d := by
        rintro rfl
        simp [takeFrame] at tFree
      refine ⟨rfl, dBounded, tBounded, Ne.symm other, dFree, ?_⟩
      simpa [takeFrame, other] using tFree

end NovaKernel
