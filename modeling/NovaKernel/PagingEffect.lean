import NovaKernel.PagingSpec

set_option autoImplicit false

namespace NovaKernel

open Machine Loops

def maps (t : Nat → Word) (f i : Nat) : Bool :=
  hasFlag (t i) pteP && frameOf (t i) == f

def mapCount (t : Nat → Word) (f : Nat) : Nat :=
  userPages.countP (maps t f)

theorem foldl_setWord (pt : Nat) (value : Nat → Word) (is : List Nat) (s : Machine) :
    is.foldl (fun s i => s.setWord pt i (value i)) s =
      s.setFrame pt fun i => if i ∈ is then value i else s.mem pt i := by
  induction is generalizing s with
  | nil => simp
  | cons i rest ih =>
    rw [List.foldl_cons, ih, setWord_eq_setFrame, setFrame_idem]
    congr 1
    funext j
    rw [setFrame_mem_self]
    by_cases later : j ∈ rest
    · simp [later]
    · by_cases same : j = i <;> simp [later, same]

def emptyTable (s : Machine) : Nat → Word :=
  fun i => if InUserWindow i then 0 else s.mem kernelPt i

def createdSpace (s : Machine) (pd pt : Nat) : Machine :=
  ((takeFrame (takeFrame s pd) pt).setFrame pt (emptyTable s)).setFrame pd
    (Function.update (s.mem kernelPd) 0 (entry pt 7))

section Effects

variable {acc : Access} {within : Nat → Prop} (reaches : Reaches acc within)
  {s : Machine} (low : LowIdentity s)
include reaches low

theorem clearUserWindow_eq {pt : Nat} (inside : within pt) (notDir : pt ≠ s.cr3)
    (notTable : pt ≠ tableOf s s.cr3) :
    clearUserWindow acc s pt =
      some (s.setFrame pt fun i => if InUserWindow i then 0 else s.mem pt i) := by
  -- The loop only writes `pt`, so the loaded tables stay as they were.
  let inv : Machine → Prop := fun u =>
    LowIdentity u ∧ u.cr3 = s.cr3 ∧ u.mem s.cr3 0 = s.mem s.cr3 0
  have run := foldlM_eq_some inv (fun u i => u.store acc pt i 0) (fun u i => u.setWord pt i 0)
    userPages s ⟨low, rfl, rfl⟩ (by
      rintro u ⟨lowU, cr3, pde⟩ i _
      have table : tableOf u u.cr3 = tableOf s s.cr3 := by rw [tableOf, tableOf, cr3, pde]
      refine ⟨store_eq reaches lowU inside i 0, ?_, cr3, ?_⟩
      · apply lowIdentity_setWord lowU
        · rwa [cr3]
        · intro same
          exact absurd (same.trans table) notTable
      · rw [setWord_mem_ne _ _ _ (Ne.symm notDir), pde])
  rw [clearUserWindow, run.1, foldl_setWord pt (fun _ => 0) userPages s]
  simp only [mem_userPages]

theorem create_eq {pd pt : Nat} {s₁ : Machine} (allocated : allocTables s = (some (pd, pt), s₁))
    (pdInside : within pd) (ptInside : within pt)
    (kernelInside : within kernelPd ∧ within kernelPt)
    (pdFresh : pd ≠ s.cr3 ∧ pd ≠ tableOf s s.cr3) (ptFresh : pt ≠ s.cr3 ∧ pt ≠ tableOf s s.cr3)
    (ptKernel : pt ≠ kernelPd) :
    pagingCreateAddrSpace acc s = some (some pd, createdSpace s pd pt) := by
  obtain ⟨rfl, -, -, other, -, -⟩ := allocTables_some allocated
  have memTaken : (takeFrame (takeFrame s pd) pt).mem = s.mem := rfl
  have cr3Taken : (takeFrame (takeFrame s pd) pt).cr3 = s.cr3 := rfl
  have lowTaken : LowIdentity (takeFrame (takeFrame s pd) pt) := low
  rw [pagingCreateAddrSpace, allocated, createdSpace]
  unfold emptyTable
  generalize takeFrame (takeFrame s pd) pt = t at memTaken cr3Taken lowTaken
  rw [← cr3Taken] at pdFresh ptFresh
  simp only [tableOf, ← memTaken] at pdFresh ptFresh ⊢
  have copied := copyPage_eq reaches lowTaken ptInside kernelInside.2
  have lowCopied := lowIdentity_setFrame lowTaken (t.mem kernelPt) ptFresh.1 ptFresh.2
  have cleared := clearUserWindow_eq reaches lowCopied ptInside ptFresh.1 (by
    rw [tableOf, setFrame_cr3, setFrame_mem_ne _ _ (Ne.symm ptFresh.1)]
    exact ptFresh.2)
  rw [setFrame_idem, setFrame_mem_self] at cleared
  have lowCleared := lowIdentity_setFrame lowTaken
    (fun i => if InUserWindow i then 0 else t.mem kernelPt i) ptFresh.1 ptFresh.2
  have directory := copyPage_eq reaches lowCleared pdInside kernelInside.1
  rw [setFrame_mem_ne _ _ (Ne.symm ptKernel)] at directory
  have lowDirectory := lowIdentity_setFrame lowCleared (t.mem kernelPd) pdFresh.1 (by
    rw [tableOf, setFrame_cr3, setFrame_mem_ne _ _ (Ne.symm ptFresh.1)]
    exact pdFresh.2)
  have linked := store_eq reaches lowDirectory pdInside 0 (entry pt 7)
  rw [setWord_eq_setFrame, setFrame_mem_self, setFrame_idem] at linked
  simp only [copied, cleared, directory, linked, Option.bind_eq_bind, Option.bind_some,
    Option.pure_def]

end Effects

def sharedTable (t : Nat → Word) : Nat → Word :=
  fun i => if InUserWindow i ∧ hasFlag (t i) pteP = true then t i &&& ~~~pteW else t i

def addRefs (m : Mm) (count : Nat → Nat) : Mm :=
  { m with frameRefs := fun f => m.frameRefs f + count f }

def sharePage (ppt pt : Nat) (s : Machine) (i : Nat) : Machine :=
  let shared := s.mem ppt i &&& ~~~pteW
  if hasFlag (s.mem ppt i) pteP then
    ((s.setWord pt i shared).setWord ppt i shared).mmRefInc (frameOf shared)
  else s

theorem mmRefInc_addRefs (s : Machine) {f : Nat} (bounded : f < frameCount)
    (room : s.mm.frameRefs f < 255) :
    s.mmRefInc f = { s with mm := addRefs s.mm fun g => if g = f then 1 else 0 } := by
  rw [Machine.mmRefInc, Mm.mmRefInc_eq bounded room, addRefs]
  congr 2
  funext g
  by_cases same : g = f <;> simp [same]

def shareAll (ppt pt : Nat) (is : List Nat) (s : Machine) : Machine :=
  { s with
    mm := addRefs s.mm fun f => is.countP (maps (s.mem ppt) f)
    mem := fun g j =>
      if (g = pt ∨ g = ppt) ∧ j ∈ is ∧ hasFlag (s.mem ppt j) pteP = true then
        s.mem ppt j &&& ~~~pteW
      else s.mem g j }

theorem sharePage_shareAll {ppt pt i : Nat} {is : List Nat} {s : Machine} (fresh : i ∉ is)
    (bounded : hasFlag (s.mem ppt i) pteP = true → frameOf (s.mem ppt i) < frameCount)
    (room : ∀ f, s.mm.frameRefs f + (is ++ [i]).countP (maps (s.mem ppt) f) ≤ 255) :
    sharePage ppt pt (shareAll ppt pt is s) i = shareAll ppt pt (is ++ [i]) s := by
  have unread : (shareAll ppt pt is s).mem ppt i = s.mem ppt i := by simp [shareAll, fresh]
  by_cases mapped : hasFlag (s.mem ppt i) pteP = true
  · have below : (shareAll ppt pt is s).mm.frameRefs (frameOf (s.mem ppt i)) < 255 := by
      have total := room (frameOf (s.mem ppt i))
      simp only [List.countP_append, List.countP_singleton, maps, mapped, beq_self_eq_true,
        Bool.and_self, if_true] at total
      simp only [shareAll, addRefs]
      omega
    simp only [sharePage, unread, mapped, if_true, frameOf_downgrade]
    rw [mmRefInc_addRefs _ (bounded mapped) (by exact below)]
    ext1
    · ext1
      · rfl
      · funext f
        by_cases hit : f = frameOf (s.mem ppt i)
        · simp [shareAll, addRefs, maps, mapped, hit, Nat.add_assoc]
        · simp [shareAll, addRefs, maps, mapped, hit, Ne.symm hit]
    · funext g j
      simp only [setWord_mem, shareAll, List.mem_append, List.mem_singleton]
      by_cases table : g = pt ∨ g = ppt <;> by_cases same : j = i
      · subst same
        rcases table with rfl | rfl <;> simp [mapped]
      · simp [same]
      · simp only [not_or] at table
        simp [table.1, table.2]
      · simp only [not_or] at table
        simp [table.1, table.2]
    · rfl
    · rfl
  · have skipped : sharePage ppt pt (shareAll ppt pt is s) i = shareAll ppt pt is s := by
      simp [sharePage, unread, mapped]
    rw [skipped]
    ext1
    · ext1
      · rfl
      · funext f
        simp [shareAll, addRefs, maps, mapped]
    · funext g j
      simp only [shareAll, List.mem_append, List.mem_singleton]
      by_cases same : j = i
      · simp [same, mapped]
      · simp [same]
    · rfl
    · rfl

theorem foldl_sharePage (pt : Nat) {ppt : Nat} {s : Machine} (is : List Nat) (nodup : is.Nodup)
    (bounded : ∀ i ∈ is, hasFlag (s.mem ppt i) pteP = true → frameOf (s.mem ppt i) < frameCount)
    (room : ∀ f, s.mm.frameRefs f + is.countP (maps (s.mem ppt) f) ≤ 255) :
    is.foldl (sharePage ppt pt) s = shareAll ppt pt is s := by
  induction is using List.reverseRecOn with
  | nil => simp [shareAll, addRefs]
  | append_singleton is i ih =>
    have split := List.nodup_append.mp nodup
    have fresh : i ∉ is := fun member => split.2.2 i member i (by simp) rfl
    have before := ih split.1 (fun j hj => bounded j (by simp [hj])) (fun f => by
      have := room f
      rw [List.countP_append] at this
      omega)
    rw [List.foldl_append, before, List.foldl_cons, List.foldl_nil]
    exact sharePage_shareAll fresh (bounded i (by simp)) room

def forkedSpace (s : Machine) (parent pd pt : Nat) : Machine :=
  let ppt := tableOf s parent
  let shared := sharedTable (s.mem ppt)
  let taken := takeFrame (takeFrame s pd) pt
  { ((taken.setFrame pt shared).setFrame ppt shared).setFrame pd
      (Function.update (s.mem parent) 0 (entry pt 7)) with
    mm := addRefs taken.mm (mapCount (s.mem ppt))
    tlb := if parent = s.cr3 then [] else s.tlb }

theorem sharedMemory (parent : Nat) {ppt pd pt : Nat} (t : Machine) (w : Word) (other : pd ≠ pt)
    (pdParent : pd ≠ ppt) (ptParent : pt ≠ ppt) :
    ((shareAll ppt pt userPages
      ((t.setFrame pd (t.mem parent)).setFrame pt (t.mem ppt))).setWord pd 0 w).mem =
      (((t.setFrame pt (sharedTable (t.mem ppt))).setFrame ppt (sharedTable (t.mem ppt))).setFrame pd
        (Function.update (t.mem parent) 0 w)).mem := by
  have parentMem : ((t.setFrame pd (t.mem parent)).setFrame pt (t.mem ppt)).mem ppt =
      t.mem ppt := by
    rw [setFrame_mem_ne _ _ (Ne.symm ptParent), setFrame_mem_ne _ _ (Ne.symm pdParent)]
  funext g j
  rw [setWord_mem, setFrame_mem]
  by_cases dir : g = pd
  · subst dir
    by_cases first : j = 0
    · simp [first]
    · simp [first, shareAll, other, pdParent, setFrame_mem]
  · have visited : (shareAll ppt pt userPages
        ((t.setFrame pd (t.mem parent)).setFrame pt (t.mem ppt))).mem g j =
          if g = pt ∨ g = ppt then sharedTable (t.mem ppt) j else t.mem g j := by
      simp only [shareAll, parentMem, mem_userPages, sharedTable]
      by_cases child : g = pt
      · simp [child]
      · by_cases table : g = ppt
        · subst table
          simp [parentMem]
        · simp [child, table, setFrame_mem, dir]
    rw [visited, if_neg (fun h => dir h.1), if_neg dir, setFrame_mem, setFrame_mem]
    by_cases table : g = ppt
    · simp [table]
    · by_cases child : g = pt <;> simp [table, child]

section Effects

variable {acc : Access} {within : Nat → Prop} (reaches : Reaches acc within)
  {s : Machine} (low : LowIdentity s)
include reaches low

theorem shareUserPage_eq {ppt pt i : Nat} (other : pt ≠ ppt) (inWindow : InUserWindow i)
    (pptInside : within ppt) (ptInside : within pt) (pptNotDir : ppt ≠ s.cr3)
    (ptFresh : pt ≠ s.cr3 ∧ pt ≠ tableOf s s.cr3) :
    shareUserPage acc ppt pt s i = some (sharePage ppt pt s i) ∧
      LowIdentity (sharePage ppt pt s i) := by
  have first := load_eq reaches low pptInside i
  by_cases mapped : hasFlag (s.mem ppt i) pteP = true
  · have child := store_eq reaches low ptInside i (s.mem ppt i &&& ~~~pteW)
    have lowChild : LowIdentity (s.setWord pt i (s.mem ppt i &&& ~~~pteW)) :=
      lowIdentity_setWord low _ ptFresh.1 fun same => absurd same ptFresh.2
    have second := load_eq reaches lowChild pptInside i
    rw [setWord_mem_ne _ _ _ (Ne.symm other)] at second
    have parent := store_eq reaches lowChild pptInside i (s.mem ppt i &&& ~~~pteW)
    have lowParent : LowIdentity ((s.setWord pt i (s.mem ppt i &&& ~~~pteW)).setWord ppt i
        (s.mem ppt i &&& ~~~pteW)) :=
      lowIdentity_setWord lowChild _ pptNotDir fun _ => inWindow.1
    have third := load_eq reaches lowParent pptInside i
    rw [setWord_mem, if_pos ⟨rfl, rfl⟩] at third
    refine ⟨?_, ?_⟩
    · simp only [shareUserPage, sharePage, first, child, second, parent, third, mapped,
        Option.bind_eq_bind, Option.bind_some, if_true, Option.pure_def]
    · rw [sharePage, if_pos mapped]
      exact lowParent
  · exact ⟨by simp [shareUserPage, sharePage, first, mapped],
      by simpa [sharePage, mapped] using low⟩

omit reaches low in
theorem sharePage_keeps (i : Nat) {ppt pt : Nat} (pptNotDir : ppt ≠ s.cr3) (ptNotDir : pt ≠ s.cr3) :
    (sharePage ppt pt s i).cr3 = s.cr3 ∧ (sharePage ppt pt s i).mem s.cr3 = s.mem s.cr3 := by
  unfold sharePage
  split
  · refine ⟨rfl, ?_⟩
    change ((s.setWord pt i _).setWord ppt i _).mem s.cr3 = s.mem s.cr3
    rw [setWord_mem_ne _ _ _ (Ne.symm pptNotDir), setWord_mem_ne _ _ _ (Ne.symm ptNotDir)]
  · exact ⟨rfl, rfl⟩

theorem sharingLoop_eq (ppt pt : Nat) (other : pt ≠ ppt) (pptInside : within ppt)
    (ptInside : within pt) (pptNotDir : ppt ≠ s.cr3) (ptFresh : pt ≠ s.cr3 ∧ pt ≠ tableOf s s.cr3)
    (bounded : ∀ i, InUserWindow i → hasFlag (s.mem ppt i) pteP = true →
      frameOf (s.mem ppt i) < frameCount)
    (room : ∀ f, s.mm.frameRefs f + mapCount (s.mem ppt) f ≤ 255) :
    userPages.foldlM (shareUserPage acc ppt pt) s = some (shareAll ppt pt userPages s) ∧
      LowIdentity (shareAll ppt pt userPages s) := by
  let inv : Machine → Prop := fun u =>
    LowIdentity u ∧ u.cr3 = s.cr3 ∧ u.mem s.cr3 = s.mem s.cr3
  have run := foldlM_eq_some inv (shareUserPage acc ppt pt) (sharePage ppt pt) userPages s
    ⟨low, rfl, rfl⟩ (by
      rintro u ⟨lowU, cr3, dir⟩ i member
      have table : tableOf u u.cr3 = tableOf s s.cr3 := by rw [tableOf, tableOf, cr3, dir]
      obtain ⟨taken, lowNext⟩ := shareUserPage_eq reaches lowU other (mem_userPages.mp member)
        pptInside ptInside (by rwa [cr3]) (by rw [table, cr3]; exact ptFresh)
      obtain ⟨cr3', dir'⟩ := sharePage_keeps (s := u) i (show ppt ≠ u.cr3 by rwa [cr3])
        (show pt ≠ u.cr3 by rw [cr3]; exact ptFresh.1)
      rw [cr3] at dir'
      exact ⟨taken, lowNext, cr3'.trans cr3, dir'.trans dir⟩)
  have closed := foldl_sharePage pt userPages userPages_nodup
    (fun i member => bounded i (mem_userPages.mp member)) room
  rw [closed] at run
  exact ⟨run.1, run.2.1⟩

theorem fork_none {parent : Nat} {s₁ : Machine} (allocated : allocTables s = (none, s₁))
    (parentInside : within parent) :
    pagingForkAddrSpace acc s parent = some (none, s) := by
  obtain rfl := allocTables_none allocated
  have ppde := load_eq reaches low parentInside 0
  by_cases present : hasFlag (s₁.mem parent 0) pteP = true
  · simp [pagingForkAddrSpace, ppde, allocated]
  · simp [pagingForkAddrSpace, ppde, present]

theorem fork_eq {parent pd pt : Nat} {s₁ : Machine}
    (allocated : allocTables s = (some (pd, pt), s₁))
    (present : hasFlag (s.mem parent 0) pteP = true)
    (parentInside : within parent ∧ within (tableOf s parent))
    (pdInside : within pd) (ptInside : within pt)
    (parentTable : tableOf s parent ≠ s.cr3 ∧ tableOf s parent ≠ parent)
    (pdFresh : pd ≠ s.cr3 ∧ pd ≠ tableOf s s.cr3 ∧ pd ≠ parent ∧ pd ≠ tableOf s parent)
    (ptFresh : pt ≠ s.cr3 ∧ pt ≠ tableOf s s.cr3 ∧ pt ≠ parent ∧ pt ≠ tableOf s parent)
    (bounded : ∀ i, InUserWindow i → hasFlag (s.mem (tableOf s parent) i) pteP = true →
      frameOf (s.mem (tableOf s parent) i) < frameCount)
    (room : ∀ f, s.mm.frameRefs f + mapCount (s.mem (tableOf s parent)) f ≤ 255) :
    pagingForkAddrSpace acc s parent = some (some pd, forkedSpace s parent pd pt) := by
  obtain ⟨rfl, -, -, other, -, -⟩ := allocTables_some allocated
  have ppde := load_eq reaches low parentInside.1 0
  have memTaken : (takeFrame (takeFrame s pd) pt).mem = s.mem := rfl
  have cr3Taken : (takeFrame (takeFrame s pd) pt).cr3 = s.cr3 := rfl
  have refsTaken : (takeFrame (takeFrame s pd) pt).mm.frameRefs = s.mm.frameRefs := rfl
  have tlbTaken : (takeFrame (takeFrame s pd) pt).tlb = s.tlb := rfl
  have lowTaken : LowIdentity (takeFrame (takeFrame s pd) pt) := low
  simp only [pagingForkAddrSpace, ppde, present, allocated, forkedSpace, Option.bind_eq_bind,
    Option.bind_some, Bool.not_true, Bool.false_eq_true, if_false, Option.pure_def]
  generalize takeFrame (takeFrame s pd) pt = t at memTaken cr3Taken refsTaken tlbTaken lowTaken
  have tableTaken : ∀ d, tableOf s d = tableOf t d := fun d => by rw [tableOf, tableOf, memTaken]
  change (t.copyPage acc pd parent).bind _ = _
  simp only [← cr3Taken, ← memTaken, ← refsTaken, ← tlbTaken, tableTaken] at *
  clear memTaken cr3Taken refsTaken tlbTaken tableTaken allocated ppde low
  change (t.copyPage acc pd parent).bind (fun u => (u.copyPage acc pt (tableOf t parent)).bind _) = _
  have copied := copyPage_eq reaches lowTaken pdInside parentInside.1
  have lowCopied := lowIdentity_setFrame lowTaken (t.mem parent) pdFresh.1 pdFresh.2.1
  have copied' := copyPage_eq reaches lowCopied ptInside parentInside.2
  rw [setFrame_mem_ne _ _ (Ne.symm pdFresh.2.2.2)] at copied'
  have lowCopied' := lowIdentity_setFrame lowCopied (t.mem (tableOf t parent)) ptFresh.1 (by
    rw [tableOf, setFrame_cr3, setFrame_mem_ne _ _ (Ne.symm pdFresh.1)]
    exact ptFresh.2.1)
  have parentMem : ((t.setFrame pd (t.mem parent)).setFrame pt (t.mem (tableOf t parent))).mem
      (tableOf t parent) = t.mem (tableOf t parent) := by
    rw [setFrame_mem_ne _ _ (Ne.symm ptFresh.2.2.2), setFrame_mem_ne _ _ (Ne.symm pdFresh.2.2.2)]
  have loop := sharingLoop_eq reaches lowCopied' (tableOf t parent) pt
    ptFresh.2.2.2 parentInside.2 ptInside parentTable.1 ⟨ptFresh.1, by
      rw [tableOf, setFrame_cr3, setFrame_cr3, setFrame_mem_ne _ _ (Ne.symm ptFresh.1),
        setFrame_mem_ne _ _ (Ne.symm pdFresh.1)]
      exact ptFresh.2.1⟩ (by rwa [parentMem]) (by rwa [parentMem])
  have linked := store_eq reaches loop.2 pdInside 0 (entry pt 7)
  have table : frameOf (t.mem parent 0) = tableOf t parent := rfl
  simp only [table, copied, copied', loop.1, linked, Option.bind_some]
  refine congrArg some (Prod.ext rfl ?_)
  have memory := sharedMemory parent t (entry pt 7) other pdFresh.2.2.2 ptFresh.2.2.2
  have counted : (shareAll (tableOf t parent) pt userPages
      ((t.setFrame pd (t.mem parent)).setFrame pt (t.mem (tableOf t parent)))).mm =
        addRefs t.mm (mapCount (t.mem (tableOf t parent))) := by
    simp only [shareAll, parentMem, setFrame_mm]
    rfl
  by_cases loaded : parent = t.cr3
  · rw [if_pos (by exact loaded), if_pos loaded]
    exact Machine.ext counted memory rfl rfl
  · rw [if_neg (by exact loaded), if_neg loaded]
    exact Machine.ext counted memory rfl rfl

end Effects

end NovaKernel
