import NovaKernel.PagingPages
import Mathlib.Algebra.BigOperators.Group.Finset.Basic
import Mathlib.Algebra.Order.BigOperators.Group.Finset
import Mathlib.Order.Interval.Finset.Nat

set_option autoImplicit false

namespace NovaKernel

open Machine Mm

def WindowEntry (w : Word) : Prop :=
  w = 0 ∨ ∃ f, Allocatable f ∧ (w = entry f 7 ∨ w = entry f 5)

def IsTable (s : Machine) (live : Finset Nat) (f : Nat) : Prop :=
  ∃ pd ∈ live, f = pd ∨ f = tableOf s pd

structure AddrSpaces (s : Machine) (live : Finset Nat) : Prop where
  kernelDir : ∀ d < 1024, s.mem kernelPd d = if d = 0 then entry kernelPt 7 else 0
  kernelTable : ∀ i < 1024, s.mem kernelPt i = if InUserWindow i then 0 else entry i 3
  tables : ∀ pd ∈ live, Allocatable pd ∧ Allocatable (tableOf s pd)
  dir : ∀ pd ∈ live, ∀ d < 1024, s.mem pd d = if d = 0 then entry (tableOf s pd) 7 else 0
  outside : ∀ pd ∈ live, ∀ i < 1024, ¬ InUserWindow i → s.mem (tableOf s pd) i = entry i 3
  window : ∀ pd ∈ live, ∀ i, InUserWindow i → WindowEntry (s.mem (tableOf s pd) i)
  distinct : ∀ a ∈ live, ∀ b ∈ live, a ≠ tableOf s b ∧ (tableOf s a = tableOf s b → a = b)
  unshared : ∀ pd ∈ live, s.mm.frameRefs pd = 0 ∧ s.mm.frameRefs (tableOf s pd) = 0
  once : ∀ pd ∈ live, ∀ f, mapCount (s.mem (tableOf s pd)) f ≤ 1
  counted : ∀ f, s.mm.frameRefs f = ∑ pd ∈ live, mapCount (s.mem (tableOf s pd)) f
  owned : ∀ pd ∈ live, ∀ i, InUserWindow i → hasFlag (s.mem (tableOf s pd) i) pteW = true →
    s.mm.frameRefs (frameOf (s.mem (tableOf s pd) i)) = 1
  used : ∀ f < frameCount,
    s.mm.bitmap f = true ↔ Reserved f ∨ IsTable s live f ∨ 0 < s.mm.frameRefs f

theorem allocatable_lt {f : Nat} (handed : Allocatable f) : f < frameCount := by
  simp only [Allocatable, frameCount, frameSize] at *
  omega

theorem allocatable_not_reserved {f : Nat} (handed : Allocatable f) : ¬ Reserved f := by
  simp only [Allocatable, Reserved] at *
  omega

theorem allocatable_of_not_reserved {f : Nat} (bounded : f < frameCount) (handed : ¬ Reserved f) :
    Allocatable f := by
  simp only [Allocatable, Reserved] at *
  omega

theorem allocatable_ne_kernel {f : Nat} (handed : Allocatable f) : f ≠ kernelPd ∧ f ≠ kernelPt := by
  simp only [Allocatable, kernelPd, kernelPt] at *
  omega

theorem windowEntry_frame {w : Word} (shape : WindowEntry w) (present : hasFlag w pteP = true) :
    Allocatable (frameOf w) ∧
      (w = entry (frameOf w) 7 ∧ hasFlag w pteW = true ∨
        w = entry (frameOf w) 5 ∧ hasFlag w pteW = false) := by
  rcases shape with rfl | ⟨f, handed, rfl | rfl⟩
  · simp at present
  · have frame : frameOf (entry f 7) = f := frameOf_entry (allocatable_lt handed) (by decide)
    exact ⟨by rwa [frame], .inl ⟨by rw [frame], by rw [writable_entry]; decide⟩⟩
  · have frame : frameOf (entry f 5) = f := frameOf_entry (allocatable_lt handed) (by decide)
    exact ⟨by rwa [frame], .inr ⟨by rw [frame], by rw [writable_entry]; decide⟩⟩

theorem windowEntry_writable {w : Word} (shape : WindowEntry w) (writable : hasFlag w pteW = true) :
    hasFlag w pteP = true := by
  rcases shape with rfl | ⟨f, _, rfl | rfl⟩
  · simp at writable
  · rw [present_entry]; decide
  · rw [present_entry]; decide

theorem mapCount_pos {t : Nat → Word} {f i : Nat} (inWindow : InUserWindow i)
    (present : hasFlag (t i) pteP = true) (frame : frameOf (t i) = f) : 0 < mapCount t f := by
  apply List.countP_pos_iff.mpr
  exact ⟨i, mem_userPages.mpr inWindow, by simp [maps, present, frame]⟩

theorem exists_of_mapCount_pos {t : Nat → Word} {f : Nat} (mapped : 0 < mapCount t f) :
    ∃ i, InUserWindow i ∧ hasFlag (t i) pteP = true ∧ frameOf (t i) = f := by
  obtain ⟨i, member, maps'⟩ := List.countP_pos_iff.mp mapped
  simp only [maps, Bool.and_eq_true, beq_iff_eq] at maps'
  exact ⟨i, mem_userPages.mp member, maps'⟩

theorem mapCount_congr {t t' : Nat → Word} (f : Nat)
    (agree : ∀ i, InUserWindow i → maps t f i = maps t' f i) : mapCount t f = mapCount t' f :=
  List.countP_congr fun i member => by rw [agree i (mem_userPages.mp member)]

namespace AddrSpaces

variable {s : Machine} {live : Finset Nat} (inv : AddrSpaces s live)
include inv

theorem mapCount_le_refs {pd : Nat} (member : pd ∈ live) (f : Nat) :
    mapCount (s.mem (tableOf s pd)) f ≤ s.mm.frameRefs f := by
  rw [inv.counted f]
  exact Finset.single_le_sum (f := fun pd => mapCount (s.mem (tableOf s pd)) f)
    (fun _ _ => Nat.zero_le _) member

theorem refs_le_card (f : Nat) : s.mm.frameRefs f ≤ live.card := by
  rw [inv.counted f]
  simpa using Finset.sum_le_card_nsmul live _ 1 fun pd member => inv.once pd member f

theorem card_le : live.card ≤ 232 := by
  have inside : live ∪ live.image (tableOf s) ⊆ Finset.Ico 0x130 0x300 := by
    intro f member
    rw [Finset.mem_Ico]
    rcases Finset.mem_union.mp member with dir | table
    · exact (inv.tables f dir).1
    · obtain ⟨pd, live', rfl⟩ := Finset.mem_image.mp table
      exact (inv.tables pd live').2
  have disjoint : Disjoint live (live.image (tableOf s)) := by
    rw [Finset.disjoint_left]
    intro f dir table
    obtain ⟨pd, live', same⟩ := Finset.mem_image.mp table
    exact (inv.distinct f dir pd live').1 same.symm
  have images : (live.image (tableOf s)).card = live.card :=
    Finset.card_image_of_injOn fun a ha b hb same => (inv.distinct a ha b hb).2 same
  have total := Finset.card_le_card inside
  rw [Finset.card_union_of_disjoint disjoint, images, Nat.card_Ico] at total
  omega

theorem refs_lt (f : Nat) : s.mm.frameRefs f < 255 := by
  have := inv.refs_le_card f
  have := inv.card_le
  omega

theorem mapped_frame {pd i : Nat} (member : pd ∈ live) (inWindow : InUserWindow i)
    (present : hasFlag (s.mem (tableOf s pd) i) pteP = true) :
    Allocatable (frameOf (s.mem (tableOf s pd) i)) ∧
      0 < s.mm.frameRefs (frameOf (s.mem (tableOf s pd) i)) ∧
      s.mm.bitmap (frameOf (s.mem (tableOf s pd) i)) = true := by
  have handed := (windowEntry_frame (inv.window pd member i inWindow) present).1
  have held : 0 < s.mm.frameRefs (frameOf (s.mem (tableOf s pd) i)) :=
    lt_of_lt_of_le (mapCount_pos inWindow present rfl) (inv.mapCount_le_refs member _)
  exact ⟨handed, held, (inv.used _ (allocatable_lt handed)).mpr (.inr (.inr held))⟩

theorem unmapped_of_refs {f pd : Nat} (none : s.mm.frameRefs f = 0) (member : pd ∈ live) :
    mapCount (s.mem (tableOf s pd)) f = 0 := by
  have := inv.mapCount_le_refs member f
  omega

theorem mapped_ne_table {a b i : Nat} (ha : a ∈ live) (hb : b ∈ live) (inWindow : InUserWindow i)
    (present : hasFlag (s.mem (tableOf s a) i) pteP = true) :
    frameOf (s.mem (tableOf s a) i) ≠ b ∧ frameOf (s.mem (tableOf s a) i) ≠ tableOf s b := by
  have held := (inv.mapped_frame ha inWindow present).2.1
  constructor
  · intro same
    rw [same, (inv.unshared b hb).1] at held
    omega
  · intro same
    rw [same, (inv.unshared b hb).2] at held
    omega

theorem sole {a b i j : Nat} (ha : a ∈ live) (hb : b ∈ live) (hi : InUserWindow i)
    (hj : InUserWindow j) (writable : hasFlag (s.mem (tableOf s a) i) pteW = true)
    (present : hasFlag (s.mem (tableOf s b) j) pteP = true)
    (same : frameOf (s.mem (tableOf s b) j) = frameOf (s.mem (tableOf s a) i)) :
    b = a ∧ j = i := by
  have present' := windowEntry_writable (inv.window a ha i hi) writable
  have one := inv.owned a ha i hi writable
  rw [inv.counted] at one
  have mine := mapCount_pos hi present' rfl
  have theirs := mapCount_pos hj present same
  have spaces : b = a := by
    by_contra other
    have pair := Finset.add_le_sum
      (f := fun pd => mapCount (s.mem (tableOf s pd)) (frameOf (s.mem (tableOf s a) i)))
      (fun _ _ => Nat.zero_le _) ha hb (Ne.symm other)
    omega
  subst spaces
  refine ⟨rfl, ?_⟩
  by_contra other
  have twice : 2 ≤ mapCount (s.mem (tableOf s b)) (frameOf (s.mem (tableOf s b) i)) := by
    have pair : [i, j].Subperm userPages := by
      apply List.subperm_of_subset (by simp [Ne.symm other])
      intro k member
      rcases List.mem_cons.mp member with rfl | rest
      · exact mem_userPages.mpr hi
      · rw [List.mem_singleton.mp rest]
        exact mem_userPages.mpr hj
    have counts := pair.countP_le (maps (s.mem (tableOf s b)) (frameOf (s.mem (tableOf s b) i)))
    rw [mapCount]
    simpa [maps, present, present', same] using counts
  have := inv.once b hb (frameOf (s.mem (tableOf s b) i))
  omega

theorem fresh {f : Nat} (bounded : f < frameCount) (free : s.mm.bitmap f = false) :
    Allocatable f ∧ s.mm.frameRefs f = 0 ∧ (∀ pd ∈ live, f ≠ pd ∧ f ≠ tableOf s pd) := by
  have clear : ¬ (Reserved f ∨ IsTable s live f ∨ 0 < s.mm.frameRefs f) := by
    rw [← inv.used f bounded, free]
    simp
  simp only [not_or, Nat.not_lt, Nat.le_zero] at clear
  refine ⟨allocatable_of_not_reserved bounded clear.1, clear.2.2, fun pd member => ?_⟩
  exact ⟨fun same => clear.2.1 ⟨pd, member, .inl same⟩,
    fun same => clear.2.1 ⟨pd, member, .inr same⟩⟩

theorem frame_congr {s' : Machine} (mm : s'.mm = s.mm)
    (kernel : s'.mem kernelPd = s.mem kernelPd ∧ s'.mem kernelPt = s.mem kernelPt)
    (tables : ∀ pd ∈ live, s'.mem pd = s.mem pd ∧ s'.mem (tableOf s pd) = s.mem (tableOf s pd)) :
    AddrSpaces s' live := by
  have table : ∀ pd ∈ live, tableOf s' pd = tableOf s pd := fun pd member => by
    rw [tableOf, tableOf, (tables pd member).1]
  have entries : ∀ pd ∈ live, s'.mem (tableOf s' pd) = s.mem (tableOf s pd) := fun pd member => by
    rw [table pd member, (tables pd member).2]
  constructor
  · rw [kernel.1]; exact inv.kernelDir
  · rw [kernel.2]; exact inv.kernelTable
  · intro pd member
    rw [table pd member]
    exact inv.tables pd member
  · intro pd member
    rw [table pd member, (tables pd member).1]
    exact inv.dir pd member
  · intro pd member
    rw [entries pd member]
    exact inv.outside pd member
  · intro pd member
    rw [entries pd member]
    exact inv.window pd member
  · intro a ha b hb
    rw [table a ha, table b hb]
    exact inv.distinct a ha b hb
  · intro pd member
    rw [table pd member, mm]
    exact inv.unshared pd member
  · intro pd member
    rw [entries pd member]
    exact inv.once pd member
  · intro f
    rw [mm, inv.counted f]
    exact Finset.sum_congr rfl fun pd member => by rw [entries pd member]
  · intro pd member
    rw [entries pd member, mm]
    exact inv.owned pd member
  · intro f bounded
    rw [mm, inv.used f bounded]
    have same : IsTable s' live f ↔ IsTable s live f :=
      exists_congr fun pd => and_congr_right fun member => by rw [table pd member]
    rw [same]

theorem tableOf_kernelPd : tableOf s kernelPd = kernelPt := by
  rw [tableOf, inv.kernelDir 0 (by decide), if_pos rfl]
  exact frameOf_entry (by decide) (by decide)

theorem tableOf_dir {pd : Nat} (member : pd ∈ live) : s.mem pd 0 = entry (tableOf s pd) 7 := by
  simpa using inv.dir pd member 0 (by decide)

end AddrSpaces

def translationOf (w : Word) : Option Translation :=
  if hasFlag w pteP then
    some { frame := frameOf w, writable := hasFlag w pteW, user := hasFlag w pteU }
  else none

theorem walk_eq {s : Machine} {t v : Nat} (pde : s.mem s.cr3 0 = entry t 7)
    (bounded : t < frameCount) (first : v < 1024) : s.walk v = translationOf (s.mem t v) := by
  have dirIndex : v / 1024 = 0 := by omega
  have tableIndex : v % 1024 = v := by omega
  have present : hasFlag (entry t 7) pteP = true := by rw [present_entry]; decide
  have writable : hasFlag (entry t 7) pteW = true := by rw [writable_entry]; decide
  have user : hasFlag (entry t 7) pteU = true := by rw [user_entry]; decide
  have table : frameOf (entry t 7) = t := frameOf_entry bounded (by decide)
  simp only [walk, translationOf, dirIndex, tableIndex, pde, present, writable, user, table,
    if_true, Bool.true_and]

theorem translationOf_identity {v : Nat} (bounded : v < frameCount) :
    translationOf (entry v 3) = some { frame := v, writable := true, user := false } := by
  have present : hasFlag (entry v 3) pteP = true := by rw [present_entry]; decide
  have writable : hasFlag (entry v 3) pteW = true := by rw [writable_entry]; decide
  have user : hasFlag (entry v 3) pteU = false := by rw [user_entry]; decide
  have frame : frameOf (entry v 3) = v := frameOf_entry bounded (by decide)
  simp only [translationOf, present, writable, user, frame, if_true]

def Loaded (s : Machine) (live : Finset Nat) : Prop :=
  s.cr3 ∈ live ∨ s.cr3 = kernelPd

namespace AddrSpaces

variable {s : Machine} {live : Finset Nat} (inv : AddrSpaces s live)
include inv

theorem loadedTable (loaded : Loaded s live) :
    s.mem s.cr3 0 = entry (tableOf s s.cr3) 7 ∧ tableOf s s.cr3 < frameCount := by
  rcases loaded with member | kernel
  · exact ⟨inv.tableOf_dir member, allocatable_lt (inv.tables _ member).2⟩
  · have first : s.mem kernelPd 0 = entry kernelPt 7 := by simpa using inv.kernelDir 0 (by decide)
    rw [kernel, inv.tableOf_kernelPd]
    exact ⟨first, by decide⟩

theorem outside_identity (loaded : Loaded s live) {v : Nat} (first : v < 1024)
    (below : ¬ InUserWindow v) : s.mem (tableOf s s.cr3) v = entry v 3 := by
  rcases loaded with member | kernel
  · exact inv.outside _ member v first below
  · rw [kernel, inv.tableOf_kernelPd, inv.kernelTable v first, if_neg below]

theorem lowIdentity (loaded : Loaded s live) : LowIdentity s := by
  intro v below
  have first : v < 1024 := Nat.lt_trans below (by decide)
  have notWindow : ¬ InUserWindow v := fun inside => Nat.not_le.mpr below inside.1
  obtain ⟨pde, bounded⟩ := inv.loadedTable loaded
  rw [walk_eq pde bounded first, inv.outside_identity loaded first notWindow]
  exact translationOf_identity first

theorem walk_beyond (loaded : Loaded s live) {v : Nat} (beyond : 1024 ≤ v) (bounded : v < 2 ^ 20) :
    s.walk v = none := by
  have zero : s.mem s.cr3 (v / 1024) = 0#32 := by
    have positive : v / 1024 ≠ 0 := by omega
    have within : v / 1024 < 1024 := by omega
    rcases loaded with member | kernel
    · rw [inv.dir _ member _ within, if_neg positive]
      rfl
    · rw [kernel, inv.kernelDir _ within, if_neg positive]
      rfl
  simp [walk, zero]

end AddrSpaces

end NovaKernel
