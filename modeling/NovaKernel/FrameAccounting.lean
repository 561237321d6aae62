import NovaKernel.LowFrames
import Mathlib.Data.Finset.Prod
import Mathlib.Algebra.BigOperators.Ring.Finset

set_option autoImplicit false

namespace NovaKernel

open Machine Mm Loops Transition

/-! With physical accesses nothing but the copy-on-write handler looks at CR3. -/

namespace Machine

def offline (s : Machine) : Machine :=
  { s with cr3 := kernelPd, tlb := [] }

theorem offline_mem (s : Machine) : s.offline.mem = s.mem := rfl

theorem load_physical (s : Machine) (page idx : Nat) :
    s.load physical page idx = some (s.mem page idx) := rfl

theorem store_physical (s : Machine) (page idx : Nat) (w : Word) :
    s.store physical page idx w = some (s.setWord page idx w) := rfl

theorem copyPage_physical (s : Machine) (dst src : Nat) :
    s.copyPage physical dst src = some (s.setFrame dst (s.mem src)) := rfl

theorem setFrame_offline (s : Machine) (frame : Nat) (contents : Nat → Word) :
    s.offline.setFrame frame contents = (s.setFrame frame contents).offline := rfl

theorem frameAlloc_offline (s : Machine) :
    s.offline.frameAlloc = (s.frameAlloc.1, s.frameAlloc.2.offline) := rfl

theorem allocTables_offline (s : Machine) :
    allocTables s.offline = ((allocTables s).1, (allocTables s).2.offline) := by
  simp only [allocTables, frameAlloc_offline]
  rcases s.frameAlloc with ⟨_ | pd, s₁⟩ <;> rcases s₁.frameAlloc with ⟨_ | pt, s₂⟩ <;> rfl

theorem clearUserWindow_offline (s : Machine) (pt : Nat) :
    clearUserWindow physical s.offline pt = (clearUserWindow physical s pt).map offline :=
  foldlM_map offline _ (fun _ _ => rfl) userPages s

theorem create_offline (s : Machine) :
    pagingCreateAddrSpace physical s.offline =
      (pagingCreateAddrSpace physical s).map (Prod.map id offline) := by
  simp only [pagingCreateAddrSpace, allocTables_offline]
  rcases allocTables s with ⟨_ | ⟨pd, pt⟩, s₁⟩
  · rfl
  · simp only [copyPage_physical, store_physical, setFrame_offline, offline_mem,
      clearUserWindow_offline, Option.bind_eq_bind, Option.bind_some]
    cases clearUserWindow physical (s₁.setFrame pt (s₁.mem kernelPt)) pt <;> rfl

theorem shareUserPage_offline (ppt pt : Nat) (s : Machine) (i : Nat) :
    shareUserPage physical ppt pt s.offline i =
      (shareUserPage physical ppt pt s i).map offline := by
  change (if hasFlag (s.mem ppt i) pteP then some _ else some _) =
    (if hasFlag (s.mem ppt i) pteP then some _ else some _ : Option Machine).map offline
  split <;> rfl

theorem fork_offline (s : Machine) (parent : Nat) :
    pagingForkAddrSpace physical s.offline parent =
      (pagingForkAddrSpace physical s parent).map (Prod.map id offline) := by
  have flush : ∀ u : Machine, (if parent = u.offline.cr3 then u.offline.pagingSwitch u.offline.cr3
      else u.offline) = (if parent = u.cr3 then u.pagingSwitch u.cr3 else u).offline := by
    intro u
    split <;> split <;> rfl
  have loop := fun pt => foldlM_map offline _
    (shareUserPage_offline (frameOf (s.mem parent 0)) pt) userPages
  simp only [pagingForkAddrSpace, load_physical, offline_mem, allocTables_offline,
    Option.bind_eq_bind, Option.bind_some]
  split
  · rfl
  · rcases allocTables s with ⟨_ | ⟨pd, pt⟩, s₁⟩
    · rfl
    · simp only [copyPage_physical, store_physical, setFrame_offline, offline_mem, Option.bind_some,
        loop]
      cases userPages.foldlM (shareUserPage physical (frameOf (s.mem parent 0)) pt)
        ((s₁.setFrame pd (s₁.mem parent)).setFrame pt
          ((s₁.setFrame pd (s₁.mem parent)).mem (frameOf (s.mem parent 0)))) with
      | none => rfl
      | some u => exact congrArg (fun m => some (some pd, m)) (flush (u.setWord pd 0 (entry pt 7)))

theorem releaseTable_offline (cr3 : Nat) (s : Machine) (d : Nat) :
    releaseTable physical cr3 s.offline d = (releaseTable physical cr3 s d).map offline := by
  have page : ∀ pt (u : Machine) i, releaseUserPage physical pt u.offline i =
      (releaseUserPage physical pt u i).map offline := by
    intro pt u i
    change some (if hasFlag (u.mem pt i) pteP then _ else _) =
      (some (if hasFlag (u.mem pt i) pteP then _ else _) : Option Machine).map offline
    split <;> rfl
  have loop := foldlM_map offline _ (page (frameOf (s.mem cr3 d))) userPages s
  simp only [releaseTable, load_physical, offline_mem, Option.bind_eq_bind, Option.bind_some]
  split
  · rfl
  · split
    · rfl
    · rw [loop]
      cases userPages.foldlM (releaseUserPage physical (frameOf (s.mem cr3 d))) s <;> rfl

theorem destroy_offline (s : Machine) (cr3 : Nat) :
    pagingDestroyAddrSpace physical s.offline cr3 =
      (pagingDestroyAddrSpace physical s cr3).map offline := by
  rw [pagingDestroyAddrSpace, pagingDestroyAddrSpace]
  split
  · rfl
  · simp only [Option.bind_eq_bind]
    rw [foldlM_map offline _ (releaseTable_offline cr3)]
    cases (List.range 1024).foldlM (releaseTable physical cr3) s <;> rfl

theorem mapUserPage_offline (s : Machine) (pt idx : Nat) :
    mapUserPage physical s.offline pt idx =
      (mapUserPage physical s pt idx).map (Prod.map id offline) := by
  change (if hasFlag (s.mem pt idx) pteP then _ else _) =
    (if hasFlag (s.mem pt idx) pteP then _ else _ : Option (Bool × Machine)).map _
  split
  · rfl
  · rw [frameAlloc_offline]
    rcases s.frameAlloc with ⟨_ | f, s₁⟩ <;> rfl

theorem mapUserPages_offline (pt : Nat) (pages : List Nat) (s : Machine) :
    mapUserPages physical pt pages s.offline =
      (mapUserPages physical pt pages s).map (Prod.map id offline) := by
  induction pages generalizing s with
  | nil => rfl
  | cons i rest ih =>
    rw [mapUserPages, mapUserPages, mapUserPage_offline]
    rcases mapUserPage physical s pt i with _ | ⟨_ | _, s₁⟩
    · rfl
    · rfl
    · exact ih s₁

theorem mapRegion_offline (s : Machine) (cr3 vaddr nbytes : Nat) :
    pagingMapUserRegion physical s.offline cr3 vaddr nbytes =
      (pagingMapUserRegion physical s cr3 vaddr nbytes).map (Prod.map id offline) := by
  rw [pagingMapUserRegion, pagingMapUserRegion]
  split
  · rfl
  · change (if (!hasFlag (s.mem cr3 (vaddr / 2 ^ 22 % 1024)) pteP) = true then _ else _) =
      (if (!hasFlag (s.mem cr3 (vaddr / 2 ^ 22 % 1024)) pteP) = true then _ else _ :
        Option (Bool × Machine)).map _
    split
    · rfl
    · exact mapUserPages_offline _ _ s

end Machine

/-- The calls of the kernel itself, as opposed to accesses from ring 3. -/
def KernelCall (_ : Sys) : Event → Prop
  | .cacheFill _ => False
  | .read _ _ _ => False
  | .write _ _ _ => False
  | _ => True

theorem addrSpaces_offline {s : Machine} {live : Finset Nat} :
    AddrSpaces s.offline live ↔ AddrSpaces s live :=
  ⟨fun inv => inv.frame_congr rfl ⟨rfl, rfl⟩ fun _ _ => ⟨rfl, rfl⟩,
    fun inv => inv.frame_congr rfl ⟨rfl, rfl⟩ fun _ _ => ⟨rfl, rfl⟩⟩

theorem ready_offline {s : Machine} {live : Finset Nat} (inv : AddrSpaces s live) :
    Ready (fun _ => True) s.offline live where
  spaces := addrSpaces_offline.mpr inv
  loaded := .inr rfl
  kernel := ⟨trivial, trivial⟩
  tables _ _ := ⟨trivial, trivial⟩

theorem addrSpaces_step {s u : Sys} {event : Event} (inv : AddrSpaces s.machine s.live)
    (call : KernelCall s event) (taken : Step physical s event u) :
    AddrSpaces u.machine u.live := by
  have ready := ready_offline inv
  cases taken with
  | create returned =>
    have offline := create_offline s.machine
    rw [returned] at offline
    rcases allocated : allocTables s.machine.offline with ⟨_ | ⟨pd, pt⟩, m⟩
    · rw [create_full allocated] at offline
      obtain ⟨rfl, same⟩ := Prod.mk.inj (Option.some.inj offline)
      exact addrSpaces_offline.mp (same ▸ ready.spaces)
    · rw [create_ok physical_reaches ready allocated ⟨trivial, trivial⟩] at offline
      obtain ⟨rfl, same⟩ := Prod.mk.inj (Option.some.inj offline)
      exact addrSpaces_offline.mp (same ▸ (ready.spaces.created allocated).1)
  | mapRegion live start stop returned =>
    rename_i pd vaddr nbytes ok m
    have offline := mapRegion_offline s.machine pd vaddr nbytes
    rw [returned] at offline
    have online : Step physical ⟨s.machine.offline, s.live⟩ (.mapRegion pd vaddr nbytes ok)
        ⟨m.offline, s.live⟩ := .mapRegion live start stop offline
    have good : Good (fun _ => True) ⟨s.machine.offline, s.live⟩ :=
      ⟨ready, fun _ _ hit => absurd hit List.not_mem_nil⟩
    exact addrSpaces_offline.mp (mapRegion_refines physical_reaches good online).1.ready.spaces
  | fork live returned =>
    rename_i parent _ _
    have offline := fork_offline s.machine parent
    rw [returned] at offline
    rcases allocated : allocTables s.machine.offline with ⟨_ | ⟨pd, pt⟩, m⟩
    · rw [fork_full physical_reaches ready live allocated] at offline
      obtain ⟨rfl, same⟩ := Prod.mk.inj (Option.some.inj offline)
      exact addrSpaces_offline.mp (same ▸ ready.spaces)
    · rw [fork_ok physical_reaches ready live allocated ⟨trivial, trivial⟩] at offline
      obtain ⟨rfl, same⟩ := Prod.mk.inj (Option.some.inj offline)
      exact addrSpaces_offline.mp (same ▸ (ready.spaces.forked allocated live).1)
  | switch => exact inv.frame_congr rfl ⟨rfl, rfl⟩ fun _ _ => ⟨rfl, rfl⟩
  | destroy live returned =>
    rename_i pd _
    have offline := destroy_offline s.machine pd
    rw [returned, destroy_ok physical_reaches ready live] at offline
    have same := Option.some.inj offline
    exact addrSpaces_offline.mp (same ▸ ready.spaces.destroyed live)
  | cowFault loaded bounded returned =>
    have ready' : Ready (fun _ => True) s.machine s.live :=
      ⟨inv, loaded, ⟨trivial, trivial⟩, fun _ _ => ⟨trivial, trivial⟩⟩
    rcases cowFault_cases ready' _ bounded
      (fun _ _ _ => ⟨trivial, fun _ _ _ => trivial⟩) with same | ⟨page, nf, m, allocated, copied⟩
    · rw [same physical physical_reaches] at returned
      obtain ⟨rfl, rfl⟩ := Prod.mk.inj (Option.some.inj returned)
      exact inv
    · rw [copied physical physical_reaches] at returned
      obtain ⟨rfl, rfl⟩ := Prod.mk.inj (Option.some.inj returned)
      exact (inv.copied page.1 page.2.1 page.2.2.1 page.2.2.2 allocated).1
  | cacheFill => exact call.elim
  | read => exact call.elim
  | write => exact call.elim

def mappings (s : Sys) (f : Nat) : Finset (Nat × Nat) :=
  (s.live ×ˢ Finset.Ico userPgStart userPgEnd).filter fun pair =>
    hasFlag (s.machine.mem (tableOf s.machine pair.1) pair.2) pteP = true ∧
      frameOf (s.machine.mem (tableOf s.machine pair.1) pair.2) = f

theorem mapCount_eq_card (t : Nat → Word) (f : Nat) :
    mapCount t f = ((Finset.Ico userPgStart userPgEnd).filter fun i =>
      hasFlag (t i) pteP = true ∧ frameOf (t i) = f).card := by
  have pages : Finset.Ico userPgStart userPgEnd = userPages.toFinset := by
    ext i
    rw [Finset.mem_Ico, List.mem_toFinset, mem_userPages]
    rfl
  have mapped : ∀ i, (hasFlag (t i) pteP = true ∧ frameOf (t i) = f) ↔ maps t f i = true := by
    intro i
    simp [maps]
  simp only [pages, mapped]
  rw [← List.toFinset_filter, List.toFinset_card_of_nodup (userPages_nodup.filter _), mapCount,
    List.countP_eq_length_filter]

theorem card_mappings (s : Sys) (f : Nat) :
    (mappings s f).card = ∑ pd ∈ s.live, mapCount (s.machine.mem (tableOf s.machine pd)) f := by
  simp only [mappings, Finset.card_filter, Finset.sum_product, mapCount_eq_card]

def TableFrame (s : Machine) (pd f : Nat) : Prop :=
  f = pd ∨ f = tableOf s pd

/-- Every frame is accounted for exactly. -/
structure Accounted (s : Sys) : Prop where
  refs : ∀ f, s.machine.mm.frameRefs f = (mappings s f).card
  unsaturated : ∀ f, s.machine.mm.frameRefs f < 255
  used : ∀ f < frameCount, s.machine.mm.bitmap f = true ↔
    Reserved f ∨ (∃! pd, pd ∈ s.live ∧ TableFrame s.machine pd f) ∨ 0 < s.machine.mm.frameRefs f
  reservedApart : ∀ f, Reserved f →
    (∀ pd ∈ s.live, ¬ TableFrame s.machine pd f) ∧ s.machine.mm.frameRefs f = 0
  tablesApart : ∀ f, ∀ pd ∈ s.live, TableFrame s.machine pd f → s.machine.mm.frameRefs f = 0
  kernelDir : ∀ d < 1024, s.machine.mem kernelPd d = if d = 0 then entry kernelPt 7 else 0
  kernelTable : ∀ i < 1024, ¬ InUserWindow i → s.machine.mem kernelPt i = entry i (pteP ||| pteW)
  dirs : ∀ pd ∈ s.live, ∀ d < 1024,
    s.machine.mem pd d = if d = 0 then entry (tableOf s.machine pd) 7 else 0
  outside : ∀ pd ∈ s.live, ∀ i < 1024, ¬ InUserWindow i →
    s.machine.mem (tableOf s.machine pd) i = entry i (pteP ||| pteW)

theorem AddrSpaces.tableFrame_unique {s : Machine} {live : Finset Nat} (inv : AddrSpaces s live)
    {a b f : Nat} (ha : a ∈ live) (hb : b ∈ live) (hfa : TableFrame s a f)
    (hfb : TableFrame s b f) :
    a = b := by
  rcases hfa with rfl | rfl <;> rcases hfb with same | same
  · exact same
  · exact absurd same (inv.distinct _ ha b hb).1
  · exact absurd same.symm (inv.distinct b hb a ha).1
  · exact (inv.distinct a ha b hb).2 same

theorem AddrSpaces.accounted {s : Sys} (inv : AddrSpaces s.machine s.live) : Accounted s where
  refs f := by rw [inv.counted f, card_mappings]
  unsaturated := inv.refs_lt
  used f bounded := by
    have unique : IsTable s.machine s.live f ↔ ∃! pd, pd ∈ s.live ∧ TableFrame s.machine pd f :=
      ⟨fun ⟨pd, member, holds⟩ => ⟨pd, ⟨member, holds⟩, fun a ⟨ha, held⟩ =>
          inv.tableFrame_unique ha member held holds⟩,
        fun ⟨pd, holds, _⟩ => ⟨pd, holds.1, holds.2⟩⟩
    rw [inv.used f bounded, unique]
  reservedApart f reserved := by
    refine ⟨fun pd member holds => ?_, ?_⟩
    · rcases holds with rfl | rfl
      · exact allocatable_not_reserved (inv.tables _ member).1 reserved
      · exact allocatable_not_reserved (inv.tables _ member).2 reserved
    · rw [inv.counted f, Finset.sum_eq_zero_iff]
      intro pd member
      by_contra mapped
      obtain ⟨i, hi, present, rfl⟩ := exists_of_mapCount_pos (Nat.pos_of_ne_zero mapped)
      exact allocatable_not_reserved (inv.mapped_frame member hi present).1 reserved
  tablesApart f pd member holds := by
    rcases holds with rfl | rfl
    · exact (inv.unshared _ member).1
    · exact (inv.unshared _ member).2
  kernelDir := inv.kernelDir
  kernelTable i bounded below := by
    rw [inv.kernelTable i bounded, if_neg below]
    rfl
  dirs := inv.dir
  outside := inv.outside

/-- Exact frame accounting in every state the kernel calls reach. -/
theorem kernelCalls_accounted {mem : Nat → Nat → Word} {events : List Event} {t : Sys}
    (run : Run (Guarded KernelCall (Step physical)) (bootSys mem) events t) : Accounted t := by
  have spaces : AddrSpaces t.machine t.live :=
    run.invariant (fun s => AddrSpaces s.machine s.live)
      (fun _ _ _ inv taken => addrSpaces_step inv taken.1 taken.2) (addrSpaces_boot mem)
  exact spaces.accounted

-- A page is mapped and shared with a child that outlives its parent.
theorem kernelCalls_accounted_fork :
    ∃ t, Run (Guarded KernelCall (Step physical)) (bootSys fun _ _ => 0)
        [.create (some 0x130), .mapRegion 0x130 0x200000 0x1000 true, .fork 0x130 (some 0x133), .destroy 0x130] t ∧
      Accounted t := by
  have ready : Ready (fun _ => True) (boot fun _ _ => 0) ∅ := ready_boot ⟨trivial, trivial⟩ _
  have filled := filled_boot fun _ _ => 0
  obtain ⟨created, ready₁⟩ :=
    create_next physical_reaches ready filled (by decide) ⟨trivial, trivial⟩
  have member : 0x130 ∈ insert 0x130 (∅ : Finset Nat) := Finset.mem_insert_self _ _
  have table : tableOf (createdSpace (boot fun _ _ => 0) 0x130 (0x130 + 1)) 0x130 = 0x130 + 1 :=
    (ready.spaces.created (filled_allocTables filled (by decide))).2.1
  obtain ⟨mapped, ready₂⟩ :=
    mapRegion_next physical_reaches ready₁ (n := 0x132) (i := 0x200) (k := 1)
    (filled_created filled) (by decide) member (by decide) (by decide) (by decide) (by
      intro j low high
      have window : InUserWindow j := ⟨low, by simp only [userPgEnd]; omega⟩
      have empty : (createdSpace (boot fun _ _ => 0) 0x130 (0x130 + 1)).mem (0x130 + 1) j = 0#32 :=
        (congrFun (createdSpace_table _ (by decide)) j).trans (if_pos window)
      rw [table, empty]
      exact hasFlag_zero pteP)
  have filled₂ :=
    filled_mapFrom (tableOf (createdSpace (boot fun _ _ => 0) 0x130 (0x130 + 1)) 0x130) 1 0x200
    (filled_created filled)
  obtain ⟨forked, ready₃⟩ :=
    fork_next physical_reaches ready₂ filled₂ (by decide) ⟨trivial, trivial⟩ member
  have parent : 0x130 ∈ insert (0x130 + 2 + 1) (insert 0x130 (∅ : Finset Nat)) :=
    Finset.mem_insert_of_mem member
  have destroyed := Step.destroy (s := ⟨_, _⟩) parent (destroy_ok physical_reaches ready₃ parent)
  have run : Run (Guarded KernelCall (Step physical)) (bootSys fun _ _ => 0) _ _ :=
    (Run.single ⟨by exact trivial, destroyed⟩)
    |>.cons ⟨by exact trivial, forked⟩ |>.cons ⟨by exact trivial, mapped⟩ |>.cons ⟨by exact trivial, created⟩
  exact ⟨_, run, kernelCalls_accounted run⟩

end NovaKernel
