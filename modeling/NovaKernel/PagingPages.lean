import NovaKernel.PagingEffect

set_option autoImplicit false

namespace NovaKernel

open Machine Loops

def dropRefs (m : Mm) (count : Nat → Nat) : Mm where
  bitmap f := if 0 < count f ∧ m.frameRefs f = count f then false else m.bitmap f
  frameRefs f := m.frameRefs f - count f

def releaseAll (pt : Nat) (is : List Nat) (s : Machine) : Machine :=
  { s with mm := dropRefs s.mm fun f => is.countP (maps (s.mem pt) f) }

def releasePage (pt : Nat) (s : Machine) (i : Nat) : Machine :=
  if hasFlag (s.mem pt i) pteP then s.mmRefDec (frameOf (s.mem pt i)) else s

theorem mmRefDec_dropRefs {m : Mm} (count : Nat → Nat) {f : Nat} (bounded : f < frameCount)
    (held : count f < m.frameRefs f) (used : m.bitmap f = true) :
    (dropRefs m count).mmRefDec f = dropRefs m fun g => count g + if g = f then 1 else 0 := by
  have still : 0 < (dropRefs m count).frameRefs f := by
    simp only [dropRefs]
    omega
  have kept : (dropRefs m count).bitmap f = true := by
    have : m.frameRefs f ≠ count f := by omega
    simp [dropRefs, this, used]
  rw [Mm.mmRefDec_eq bounded still kept]
  ext1
  · funext g
    by_cases same : g = f
    · subst same
      have last : (m.frameRefs g - count g = 1) ↔ m.frameRefs g = count g + 1 := by omega
      by_cases one : m.frameRefs g = count g + 1 <;> simp [dropRefs, last, one, used]
      omega
    · by_cases last : m.frameRefs f - count f = 1 <;> simp [dropRefs, last, same]
  · funext g
    by_cases same : g = f
    · subst same
      simp only [dropRefs, Function.update_self, if_true]
      omega
    · simp [dropRefs, same]

theorem foldl_releasePage {pt : Nat} {s : Machine} (is : List Nat)
    (bounded : ∀ i ∈ is, hasFlag (s.mem pt i) pteP = true → frameOf (s.mem pt i) < frameCount)
    (used : ∀ i ∈ is, hasFlag (s.mem pt i) pteP = true → s.mm.bitmap (frameOf (s.mem pt i)) = true)
    (held : ∀ f, is.countP (maps (s.mem pt) f) ≤ s.mm.frameRefs f) :
    is.foldl (releasePage pt) s = releaseAll pt is s := by
  induction is using List.reverseRecOn with
  | nil => simp [releaseAll, dropRefs]
  | append_singleton is i ih =>
    have before := ih (fun j hj => bounded j (by simp [hj])) (fun j hj => used j (by simp [hj]))
      (fun f => by
        have := held f
        rw [List.countP_append] at this
        omega)
    rw [List.foldl_append, before, List.foldl_cons, List.foldl_nil]
    by_cases mapped : hasFlag (s.mem pt i) pteP = true
    · have below : is.countP (maps (s.mem pt) (frameOf (s.mem pt i))) <
          s.mm.frameRefs (frameOf (s.mem pt i)) := by
        have total := held (frameOf (s.mem pt i))
        simp only [List.countP_append, List.countP_singleton, maps, mapped, beq_self_eq_true,
          Bool.and_self, if_true] at total
        exact total
      have dropped := mmRefDec_dropRefs (m := s.mm) (fun f => is.countP (maps (s.mem pt) f))
        (bounded i (by simp) mapped) below (used i (by simp) mapped)
      simp only [releasePage, releaseAll, mapped, if_true, Machine.mmRefDec, dropped]
      congr 2
      funext f
      by_cases hit : f = frameOf (s.mem pt i)
      · simp [maps, mapped, hit]
      · simp [maps, mapped, hit, Ne.symm hit]
    · simp [releasePage, releaseAll, mapped, maps]

def destroyedSpace (s : Machine) (pd : Nat) : Machine :=
  { s with
    mm := ((dropRefs s.mm (mapCount (s.mem (tableOf s pd)))).frameFree (tableOf s pd)).frameFree pd }

section Effects

variable {acc : Access} {within : Nat → Prop} (reaches : Reaches acc within)
  {s : Machine} (low : LowIdentity s)
include reaches low

theorem releaseTable_absent {pd d : Nat} (inside : within pd)
    (absent : hasFlag (s.mem pd d) pteP = false) : releaseTable acc pd s d = some s := by
  simp [releaseTable, load_eq reaches low inside, absent]

theorem releaseLoop_eq {pt : Nat} (inside : within pt)
    (bounded : ∀ i, InUserWindow i → hasFlag (s.mem pt i) pteP = true →
      frameOf (s.mem pt i) < frameCount ∧ s.mm.bitmap (frameOf (s.mem pt i)) = true)
    (held : ∀ f, mapCount (s.mem pt) f ≤ s.mm.frameRefs f) :
    userPages.foldlM (releaseUserPage acc pt) s = some (releaseAll pt userPages s) := by
  let inv : Machine → Prop := fun u => u.mem = s.mem ∧ u.cr3 = s.cr3
  have run := foldlM_eq_some inv (releaseUserPage acc pt) (releasePage pt) userPages s
    ⟨rfl, rfl⟩ (by
    rintro u ⟨mem, cr3⟩ i _
    have lowU : LowIdentity u := lowIdentity_congr low cr3 (by rw [mem]) fun v _ => by rw [mem]
    refine ⟨?_, ?_⟩
    · simp [releaseUserPage, releasePage, load_eq reaches lowU inside]
    · unfold releasePage
      split <;> exact ⟨mem, cr3⟩)
  rw [run.1, foldl_releasePage userPages
    (fun i member mapped => (bounded i (mem_userPages.mp member) mapped).1)
    (fun i member mapped => (bounded i (mem_userPages.mp member) mapped).2) held]

theorem destroy_eq {pd : Nat} (inside : within pd) (tableInside : within (tableOf s pd))
    (notKernel : pd ≠ kernelPd) (tableOwn : tableOf s pd ≠ kernelPt ∧ tableOf s pd ≠ kernelPd)
    (present : hasFlag (s.mem pd 0) pteP = true)
    (others : ∀ d, 0 < d → d < 1024 → s.mem pd d = 0)
    (bounded : ∀ i, InUserWindow i → hasFlag (s.mem (tableOf s pd) i) pteP = true →
      frameOf (s.mem (tableOf s pd) i) < frameCount ∧
        s.mm.bitmap (frameOf (s.mem (tableOf s pd) i)) = true)
    (held : ∀ f, mapCount (s.mem (tableOf s pd)) f ≤ s.mm.frameRefs f) :
    pagingDestroyAddrSpace acc s pd = some (destroyedSpace s pd) := by
  have first : releaseTable acc pd s 0 =
      some ((releaseAll (tableOf s pd) userPages s).frameFree (tableOf s pd)) := by
    have loop := releaseLoop_eq reaches low tableInside bounded held
    simp only [tableOf] at loop tableOwn ⊢
    simp [releaseTable, load_eq reaches low inside, present, tableOwn, loop]
  have rest : ∀ ds : List Nat, (∀ d ∈ ds, 0 < d ∧ d < 1024) → ∀ u : Machine, u.mem = s.mem →
      u.cr3 = s.cr3 → ds.foldlM (releaseTable acc pd) u = some u := by
    intro ds range u mem cr3
    have lowU : LowIdentity u := lowIdentity_congr low cr3 (by rw [mem]) fun v _ => by rw [mem]
    induction ds with
    | nil => rfl
    | cons d ds ih =>
      have zero : u.mem pd d = 0#32 := by
        rw [mem]; exact others d (range d (by simp)).1 (range d (by simp)).2
      rw [List.foldlM_cons, releaseTable_absent reaches lowU inside (by rw [zero]; simp)]
      exact ih fun e he => range e (by simp [he])
  have split : List.range 1024 = 0 :: List.range' 1 1023 := by
    rw [List.range_eq_range', List.range'_succ]
  have skipped := rest (List.range' 1 1023) (by simp only [List.mem_range'_1]; omega)
    ((releaseAll (tableOf s pd) userPages s).frameFree (tableOf s pd)) rfl rfl
  rw [pagingDestroyAddrSpace, if_neg notKernel, split, List.foldlM_cons, first]
  simp only [Option.bind_eq_bind, Option.bind_some, skipped, Option.pure_def]
  rfl

theorem mapUserPage_present {pt idx : Nat} (inside : within pt)
    (mapped : hasFlag (s.mem pt idx) pteP = true) : mapUserPage acc s pt idx = some (true, s) := by
  simp [mapUserPage, load_eq reaches low inside, mapped]

theorem mapUserPage_full {pt idx : Nat} {s₁ : Machine} (inside : within pt)
    (unmapped : hasFlag (s.mem pt idx) pteP = false) (full : s.frameAlloc = (none, s₁)) :
    mapUserPage acc s pt idx = some (false, s) := by
  obtain ⟨rfl, _⟩ := machine_frameAlloc_none full
  simp [mapUserPage, load_eq reaches low inside, unmapped, full]

def mappedPage (s : Machine) (pt idx f : Nat) : Machine :=
  { (takeFrame s f).setWord pt idx (entry f 7) with
    mm := addRefs (takeFrame s f).mm fun g => if g = f then 1 else 0 }

theorem mapUserPage_fresh {pt idx f : Nat} {s₁ : Machine} (inside : within pt)
    (unmapped : hasFlag (s.mem pt idx) pteP = false) (allocated : s.frameAlloc = (some f, s₁))
    (unshared : s.mm.frameRefs f = 0) :
    mapUserPage acc s pt idx = some (true, mappedPage s pt idx f) := by
  obtain ⟨rfl, bounded, _⟩ := machine_frameAlloc_some allocated
  have lowTaken : LowIdentity (takeFrame s f) := low
  have stored := store_eq reaches lowTaken inside idx (entry f 7)
  have counted := mmRefInc_addRefs ((takeFrame s f).setWord pt idx (entry f 7)) bounded
    (by change s.mm.frameRefs f < 255; omega)
  have flags : pteP ||| pteW ||| pteU = 7 := by decide
  simp only [mapUserPage, load_eq reaches low inside, unmapped, allocated, stored, counted, flags,
    Option.bind_eq_bind, Option.bind_some, Bool.false_eq_true, if_false, Option.pure_def]
  rfl

def copiedPage (s : Machine) (pt idx old nf v : Nat) : Machine :=
  let taken := takeFrame s nf
  (({ (taken.setFrame nf (s.mem old)).setWord pt idx (entry nf 7) with
      mm := (taken.mm.mmRefDec old).mmRefInc nf } : Machine)).invlpg v

theorem cowFault_copy (cr2 : Nat) {nf : Nat} {err : Word} {s₁ : Machine}
    (fromUser : hasFlag err pteU = true) (onWrite : hasFlag err pteW = true)
    (dirInside : within s.cr3)
    (pde : hasFlag (s.mem s.cr3 (cr2 / 2 ^ 22 % 1024)) pteP = true)
    (tableInside : within (frameOf (s.mem s.cr3 (cr2 / 2 ^ 22 % 1024))))
    (present : hasFlag (s.mem (frameOf (s.mem s.cr3 (cr2 / 2 ^ 22 % 1024)))
      (cr2 / 2 ^ 12 % 1024)) pteP = true)
    (readOnly : hasFlag (s.mem (frameOf (s.mem s.cr3 (cr2 / 2 ^ 22 % 1024)))
      (cr2 / 2 ^ 12 % 1024)) pteW = false)
    (oldInside : within (frameOf (s.mem (frameOf (s.mem s.cr3 (cr2 / 2 ^ 22 % 1024)))
      (cr2 / 2 ^ 12 % 1024))))
    (allocated : s.frameAlloc = (some nf, s₁)) (nfInside : within nf)
    (nfFresh : nf ≠ s.cr3 ∧ nf ≠ tableOf s s.cr3) :
    pagingCowFault acc s cr2 err =
      some (true, copiedPage s (frameOf (s.mem s.cr3 (cr2 / 2 ^ 22 % 1024))) (cr2 / 2 ^ 12 % 1024)
        (frameOf (s.mem (frameOf (s.mem s.cr3 (cr2 / 2 ^ 22 % 1024))) (cr2 / 2 ^ 12 % 1024)))
        nf (cr2 / 2 ^ 12)) := by
  obtain ⟨rfl, _⟩ := machine_frameAlloc_some allocated
  have dirRead := load_eq reaches low dirInside (cr2 / 2 ^ 22 % 1024)
  have tableRead := load_eq reaches low tableInside (cr2 / 2 ^ 12 % 1024)
  have lowTaken : LowIdentity (takeFrame s nf) := low
  have copied := copyPage_eq reaches lowTaken nfInside oldInside
  have lowCopied := lowIdentity_setFrame lowTaken
    ((takeFrame s nf).mem (frameOf (s.mem (frameOf (s.mem s.cr3 (cr2 / 2 ^ 22 % 1024)))
      (cr2 / 2 ^ 12 % 1024)))) nfFresh.1 nfFresh.2
  have stored := store_eq reaches lowCopied tableInside (cr2 / 2 ^ 12 % 1024) (entry nf 7)
  have flags : pteP ||| pteW ||| pteU = 7 := by decide
  simp only [pagingCowFault, fromUser, onWrite, dirRead, pde, tableRead, present, readOnly,
    allocated, copied, stored, flags, Option.bind_eq_bind, Option.bind_some, Bool.not_true,
    Bool.false_eq_true, if_false, Option.pure_def]
  rfl

end Effects

end NovaKernel
