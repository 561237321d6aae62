import NovaKernel.Observations

set_option autoImplicit false

namespace NovaKernel

open Machine Mm Transition

structure Good (within : Nat → Prop) (s : Sys) : Prop where
  ready : Ready within s.machine s.live
  cached : Cached s.machine

def CowInside (within : Nat → Prop) (s : Machine) (v : Nat) : Prop :=
  ∀ t, s.walk v = some t → t.writable = false →
    within t.frame ∧ ∀ f s₁, s.frameAlloc = (some f, s₁) → within f

/-- The frames that become tables or take part in a copy are reachable. -/
def Inside (within : Nat → Prop) (s : Sys) : Event → Prop
  | .create _ => ∀ pd pt m, allocTables s.machine = (some (pd, pt), m) → within pd ∧ within pt
  | .fork _ _ => ∀ pd pt m, allocTables s.machine = (some (pd, pt), m) → within pd ∧ within pt
  | .cowFault cr2 _ _ => CowInside within s.machine (cr2 / 2 ^ 12)
  | .write v _ _ => CowInside within s.machine v
  | _ => True

theorem inside_everywhere (s : Sys) (event : Event) : Inside (fun _ => True) s event := by
  cases event with
  | create => exact fun _ _ _ _ => ⟨trivial, trivial⟩
  | fork => exact fun _ _ _ _ => ⟨trivial, trivial⟩
  | cowFault => exact fun _ _ _ => ⟨trivial, fun _ _ _ => trivial⟩
  | write => exact fun _ _ _ => ⟨trivial, fun _ _ _ => trivial⟩
  | mapRegion => trivial
  | switch => trivial
  | destroy => trivial
  | cacheFill => trivial
  | read => trivial

def Unloaded (s : Sys) : Event → Prop
  | .destroy cr3 => cr3 ≠ s.machine.cr3
  | _ => True

theorem page_of_address {v off : Nat} (inPage : off < 0x1000) :
    (v * 0x1000 + off) / 2 ^ 12 = v := by
  omega

theorem address_bounded {v off : Nat} (bounded : v < 2 ^ 20) (inPage : off < 0x1000) :
    v * 0x1000 + off < 2 ^ 32 := by
  omega

section Refinement

variable {acc : Access} {within : Nat → Prop} (reaches : Reaches acc within) {s u : Sys}
  (good : Good within s)
include reaches good

theorem create_refines {result : Option Nat} (inside : Inside within s (.create result))
    (taken : Step acc s (.create result) u) :
    Good within u ∧ RefStep (observe s) (.create result) (observe u) := by
  cases taken with
  | create returned =>
    rcases allocated : allocTables s.machine with ⟨_ | ⟨pd, pt⟩, m₁⟩
    · rw [create_full allocated] at returned
      obtain ⟨rfl, rfl⟩ := Prod.mk.inj (Option.some.inj returned)
      exact ⟨good, .notCreated⟩
    · have within' := inside pd pt m₁ allocated
      rw [create_ok reaches good.ready allocated within'] at returned
      obtain ⟨rfl, rfl⟩ := Prod.mk.inj (Option.some.inj returned)
      obtain ⟨empty, kept⟩ := contents_created good.ready allocated
      have dead := (good.ready.spaces.created allocated).2.2.1
      refine ⟨⟨ready_created good.ready allocated within',
        cached_created good.ready allocated within' good.cached⟩, ?_⟩
      have seen : observe ⟨createdSpace s.machine pd pt, insert pd s.live⟩ =
          (observe s).set pd (some fun _ => none) :=
        observe_set rfl (by rw [if_pos (by simp), empty]) (fun a new => by simp [new])
          fun a member _ => kept a member
      exact seen ▸ .created (observe_not_mem dead)

theorem fork_refines {parent : Nat} {result : Option Nat}
    (inside : Inside within s (.fork parent result)) (taken : Step acc s (.fork parent result) u) :
    Good within u ∧ RefStep (observe s) (.fork parent result) (observe u) := by
  cases taken with
  | fork live returned =>
    rcases allocated : allocTables s.machine with ⟨_ | ⟨pd, pt⟩, m₁⟩
    · rw [fork_full reaches good.ready live allocated] at returned
      obtain ⟨rfl, rfl⟩ := Prod.mk.inj (Option.some.inj returned)
      exact ⟨good, .notForked⟩
    · have within' := inside pd pt m₁ allocated
      rw [fork_ok reaches good.ready live allocated within'] at returned
      obtain ⟨rfl, rfl⟩ := Prod.mk.inj (Option.some.inj returned)
      obtain ⟨copied, kept⟩ := contents_forked good.ready live allocated
      have dead := (good.ready.spaces.forked allocated live).2.2.1
      refine ⟨⟨ready_forked good.ready live allocated within',
        cached_forked good.ready live allocated within' good.cached⟩, ?_⟩
      have seen : observe ⟨forkedSpace s.machine parent pd pt, insert pd s.live⟩ =
          (observe s).set pd (some (contents s.machine parent)) :=
        observe_set rfl (by rw [if_pos (by simp), copied]) (fun a new => by simp [new])
          fun a member _ => kept a member
      exact seen ▸ .forked (observe_mem live) (observe_not_mem dead)

theorem destroy_refines {pd : Nat} (unloaded : Unloaded s (.destroy pd))
    (taken : Step acc s (.destroy pd) u) :
    Good within u ∧ RefStep (observe s) (.destroy pd) (observe u) := by
  cases taken with
  | destroy live returned =>
    rw [destroy_ok reaches good.ready live] at returned
    obtain rfl := Option.some.inj returned
    refine ⟨⟨ready_destroyed good.ready live unloaded, good.cached⟩, ?_⟩
    have seen : observe ⟨destroyedSpace s.machine pd, s.live.erase pd⟩ = (observe s).set pd none :=
      observe_set rfl (if_neg (by simp)) (fun a old => by simp [old]) fun _ _ _ => rfl
    exact seen ▸ .destroyed (observe_mem live)

theorem mapRegion_refines {pd vaddr nbytes : Nat} {ok : Bool}
    (taken : Step acc s (.mapRegion pd vaddr nbytes ok) u) :
    Good within u ∧ RefStep (observe s) (.mapRegion pd vaddr nbytes ok) (observe u) := by
  cases taken with
  | mapRegion live start stop returned =>
    by_cases empty : nbytes = 0
    · rw [pagingMapUserRegion, if_pos empty] at returned
      obtain ⟨rfl, rfl⟩ := Prod.mk.inj (Option.some.inj returned)
      refine ⟨good, ?_⟩
      have same : observe s = (observe s).set pd (some (contents s.machine pd)) :=
        observe_set rfl (if_pos live) (fun _ _ => Iff.rfl) fun _ _ _ => rfl
      have step : RefStep (observe s) (.mapRegion pd vaddr nbytes true)
          ((observe s).set pd (some (contents s.machine pd))) :=
        .mapped (observe_mem live) (fun _ => .inl rfl) (fun _ page region => by
          obtain ⟨addr, low, high, -⟩ := region
          omega)
      rwa [← same] at step
    · obtain ⟨ok', m', run, ready', more⟩ := mapUserPages_spec live (regionPages vaddr nbytes)
        (regionPages_window start stop empty) s.machine good.ready
      rw [mapRegion_pages reaches good.ready live start stop empty, run acc reaches] at returned
      obtain ⟨rfl, rfl⟩ := Prod.mk.inj (Option.some.inj returned)
      refine ⟨⟨ready', more.cached good.cached⟩, ?_⟩
      have seen : observe ⟨m', s.live⟩ = (observe s).set pd (some (contents m' pd)) :=
        observe_set more.cr3 (if_pos live) (fun _ _ => Iff.rfl) more.others
      rw [seen]
      refine .mapped (observe_mem live) (fun page => ?_) fun succeeded page region => ?_
      · exact (more.grown page).imp_right fun h =>
          ⟨h.1, (inRegion_iff start stop empty page).mp h.2⟩
      · exact more.filled succeeded page ((inRegion_iff start stop empty page).mpr region)

omit reaches in
theorem switch_refines {cr3 : Nat} (taken : Step acc s (.switch cr3) u) :
    Good within u ∧ RefStep (observe s) (.switch cr3) (observe u) := by
  cases taken with
  | switch loaded =>
    exact ⟨⟨ready_switched good.ready _ loaded, fun _ _ hit => absurd hit List.not_mem_nil⟩,
      .switched⟩

theorem cowFault_refines {cr2 : Nat} {err : Word} {resolved : Bool}
    (inside : Inside within s (.cowFault cr2 err resolved))
    (taken : Step acc s (.cowFault cr2 err resolved) u) :
    Good within u ∧ RefStep (observe s) (.cowFault cr2 err resolved) (observe u) := by
  cases taken with
  | cowFault loaded bounded returned =>
    rcases cowFault_cases good.ready err bounded inside with
      same | ⟨page, nf, s₁, allocated, copied⟩
    · rw [same acc reaches] at returned
      obtain ⟨rfl, rfl⟩ := Prod.mk.inj (Option.some.inj returned)
      exact ⟨good, .cowFault⟩
    · rw [copied acc reaches] at returned
      obtain ⟨rfl, rfl⟩ := Prod.mk.inj (Option.some.inj returned)
      refine ⟨⟨ready_copied good.ready page.1 page.2.1 page.2.2.1 page.2.2.2 allocated,
        cached_copied good.ready page allocated good.cached⟩, ?_⟩
      have seen := observe_congr (s := s) (copiedPage_cr3 _ _ _ _ _ _)
        (contents_copied (v := cr2 / 2 ^ 12) good.ready page.1 page.2.1 page.2.2.1 page.2.2.2 allocated)
      exact seen ▸ .cowFault

omit reaches in
theorem cacheFill_refines {v : Nat} (taken : Step acc s (.cacheFill v) u) :
    Good within u ∧ RefStep (observe s) (.cacheFill v) (observe u) := by
  cases taken with
  | cacheFill bounded found =>
    refine ⟨⟨⟨good.ready.spaces.frame_congr rfl ⟨rfl, rfl⟩ fun _ _ => ⟨rfl, rfl⟩, good.ready.loaded,
      good.ready.kernel, good.ready.tables⟩, ?_⟩, .cacheFill⟩
    intro w t hit
    rcases List.mem_cons.mp hit with same | old
    · obtain ⟨rfl, rfl⟩ := Prod.mk.inj same
      exact ⟨bounded, found⟩
    · exact good.cached w t old

omit reaches in
theorem read_refines {v off : Nat} {value : Byte} (taken : Step acc s (.read v off value) u) :
    Good within u ∧ RefStep (observe s) (.read v off value) (observe u) := by
  cases taken with
  | read live bounded _ inUse user =>
    refine ⟨good, ?_⟩
    obtain ⟨inside, present, frame, -⟩ :=
      user_page good.ready.spaces live bounded (inUse_walk good.cached inUse) user
    rw [frame]
    exact .read (observe_mem live) (if_pos ⟨inside, present⟩)

omit reaches good in
theorem ready_putByte {m : Machine} {live : Finset Nat} (ready : Ready within m live) {v : Nat}
    (member : m.cr3 ∈ live) (inside : InUserWindow v)
    (present : hasFlag (m.mem (tableOf m m.cr3) v) pteP = true) (off : Nat) (value : Byte) :
    Ready within (m.putByte (frameOf (m.mem (tableOf m m.cr3) v)) off value) live := by
  have inv := ready.spaces
  have handed := allocatable_ne_kernel (inv.mapped_frame member inside present).1
  have tables := fun a (ha : a ∈ live) => inv.mapped_ne_table member ha inside present
  have same : ∀ a ∈ live,
      tableOf (m.putByte (frameOf (m.mem (tableOf m m.cr3) v)) off value) a = tableOf m a :=
    fun a ha => tableOf_congr (setWord_mem_ne _ _ _ (Ne.symm (tables a ha).1))
  refine ⟨?_, ready.loaded, ready.kernel, fun a ha => ?_⟩
  · refine inv.frame_congr rfl ⟨?_, ?_⟩ fun a ha => ⟨?_, ?_⟩
    · exact setWord_mem_ne _ _ _ (Ne.symm handed.1)
    · exact setWord_mem_ne _ _ _ (Ne.symm handed.2)
    · exact setWord_mem_ne _ _ _ (Ne.symm (tables a ha).1)
    · exact setWord_mem_ne _ _ _ (Ne.symm (tables a ha).2)
  · rw [same a ha]
    exact ready.tables a ha

omit reaches good in
theorem contents_putByte {m : Machine} {live : Finset Nat} (inv : AddrSpaces m live) {v : Nat}
    (member : m.cr3 ∈ live) (inside : InUserWindow v)
    (present : hasFlag (m.mem (tableOf m m.cr3) v) pteP = true)
    (writable : hasFlag (m.mem (tableOf m m.cr3) v) pteW = true) (off : Nat) (value : Byte)
    (a : Nat) (ha : a ∈ live) (w : Nat) :
    contents (m.putByte (frameOf (m.mem (tableOf m m.cr3) v)) off value) a w =
      if a = m.cr3 ∧ w = v then
        some (Function.update (m.getByte (frameOf (m.mem (tableOf m m.cr3) v))) off value)
      else contents m a w := by
  have tables := inv.mapped_ne_table member ha inside present
  have table : tableOf (m.putByte (frameOf (m.mem (tableOf m m.cr3) v)) off value) a =
      tableOf m a :=
    tableOf_congr (setWord_mem_ne _ _ _ (Ne.symm tables.1))
  have entries : (m.putByte (frameOf (m.mem (tableOf m m.cr3) v)) off value).mem
      (tableOf (m.putByte (frameOf (m.mem (tableOf m m.cr3) v)) off value) a) =
        m.mem (tableOf m a) := by
    rw [table, putByte, setWord_mem_ne _ _ _ (Ne.symm tables.2)]
  by_cases hit : a = m.cr3 ∧ w = v
  · obtain ⟨rfl, rfl⟩ := hit
    rw [if_pos ⟨rfl, rfl⟩, contents, entries, if_pos ⟨inside, present⟩]
    congr 1
    funext o
    rw [getByte_putByte]
    by_cases same : o = off <;> simp [same]
  · rw [if_neg hit]
    apply contents_congr
    · intro _
      rw [entries]
    · intro hw mapped
      -- The written page is the only mapping of its frame.
      rw [entries, putByte, setWord_mem_ne]
      intro same
      exact hit (inv.sole member ha inside hw writable mapped same)

omit reaches good in
theorem cowInside_copied {m : Machine} {live : Finset Nat} (ready : Ready within m live)
    {v nf : Nat} {m₁ : Machine} (bounded : v < 2 ^ 20) (cow : CowPage m live v)
    (allocated : m.frameAlloc = (some nf, m₁)) :
    CowInside within
      (copiedPage m (tableOf m m.cr3) v (frameOf (m.mem (tableOf m m.cr3) v)) nf v) v := by
  intro t found readOnly
  have inv := ready.spaces
  have ready' := ready_copied (v := v) ready cow.1 cow.2.1 cow.2.2.1 cow.2.2.2 allocated
  have table := (inv.copied (v := v) cow.1 cow.2.1 cow.2.2.1 cow.2.2.2 allocated).2 _ cow.1
  have repointed := (walk_window ready'.spaces ready'.loaded bounded found).2
  have present : hasFlag (entry nf 7) pteP = true := by
    rw [present_entry]
    decide
  rw [copiedPage_cr3, table, copiedPage_mem, setWord_mem, if_pos ⟨rfl, rfl⟩, translationOf,
    if_pos present] at repointed
  rw [← Option.some.inj repointed] at readOnly
  have writable : hasFlag (entry nf 7) pteW = true := by
    rw [writable_entry]
    decide
  exact absurd (writable.symm.trans readOnly) (by simp)

omit good in
theorem userWrite_refines {v off : Nat} {value : Byte} {m m' : Machine} {live : Finset Nat}
    (bounded : v < 2 ^ 20) (inPage : off < 0x1000) (written : UserWrite acc v off value m m')
    (ready : Ready within m live) (cached : Cached m) (member : m.cr3 ∈ live)
    (inside : CowInside within m v) :
    Ready within m' live ∧ Cached m' ∧ m'.cr3 = m.cr3 ∧ ∃ old, contents m m.cr3 v = some old ∧
      ∀ a ∈ live, ∀ w, contents m' a w =
        if a = m.cr3 ∧ w = v then some (Function.update old off value) else contents m a w := by
  induction written with
  | direct inUse user writable =>
    rename_i m t
    have inv := ready.spaces
    obtain ⟨window, present, frame, rights⟩ :=
      user_page inv member bounded (inUse_walk cached inUse) user
    rw [rights] at writable
    rw [frame]
    have ready' := ready_putByte ready member window present off value
    refine ⟨ready', ?_, rfl, _, if_pos ⟨window, present⟩,
      contents_putByte inv member window present writable off value⟩
    apply cached_kept inv ready'.spaces ready.loaded ready'.loaded cached fun _ _ hit => hit
    intro w t' _ _
    have tables := inv.mapped_ne_table member member window present
    have dir : (m.putByte (frameOf (m.mem (tableOf m m.cr3) v)) off value).mem m.cr3 =
        m.mem m.cr3 :=
      setWord_mem_ne _ _ _ (Ne.symm tables.1)
    change (m.putByte _ off value).mem (tableOf (m.putByte _ off value) m.cr3) w = _
    rw [tableOf_congr dir]
    exact congrFun (setWord_mem_ne _ _ _ (Ne.symm tables.2)) w
  | retried inUse user readOnly resolved later ih =>
    have page := page_of_address (v := v) inPage
    rcases cowFault_cases ready 7 (address_bounded bounded inPage) (by rwa [page]) with
      same | ⟨cow, nf, s₁, allocated, copied⟩
    · rw [same acc reaches] at resolved
      exact absurd (Prod.mk.inj (Option.some.inj resolved)).1 (by simp)
    · rw [copied acc reaches] at resolved
      obtain ⟨-, rfl⟩ := Prod.mk.inj (Option.some.inj resolved)
      simp only [page] at cow ih ⊢
      have inv := ready.spaces
      have ready' := ready_copied (v := v) ready cow.1 cow.2.1 cow.2.2.1 cow.2.2.2 allocated
      have same := contents_copied (v := v) ready cow.1 cow.2.1 cow.2.2.1 cow.2.2.2 allocated
      obtain ⟨ready'', cached'', cr3, old, before, after⟩ := ih ready'
        (cached_copied ready cow allocated cached) cow.1
        (cowInside_copied ready bounded cow allocated)
      refine ⟨ready'', cached'', cr3, old, ?_, fun a ha w => ?_⟩
      · exact (congrFun (same _ cow.1) v).symm.trans before
      · rw [after a ha w, same a ha]
        rfl

theorem write_refines {v off : Nat} {value : Byte} (inside : Inside within s (.write v off value))
    (taken : Step acc s (.write v off value) u) :
    Good within u ∧ RefStep (observe s) (.write v off value) (observe u) := by
  cases taken with
  | write live bounded inPage written =>
    obtain ⟨ready, cached, cr3, old, before, after⟩ :=
      userWrite_refines reaches bounded inPage written good.ready good.cached live inside
    refine ⟨⟨ready, cached⟩, ?_⟩
    rename_i m
    have seen : observe ⟨m, s.live⟩ = (observe s).set s.machine.cr3
        (some (Function.update (contents s.machine s.machine.cr3) v
          (some (Function.update old off value)))) := by
      apply observe_set cr3 _ (fun _ _ => Iff.rfl)
      · intro a member other
        funext w
        rw [after a member w, if_neg fun h => other h.1]
      · rw [if_pos live]
        congr 1
        funext w
        rw [after _ live w]
        by_cases page : w = v <;> simp [page]
    rw [seen]
    exact .written (observe_mem live) before

theorem step_refines {event : Event} (unloaded : Unloaded s event) (inside : Inside within s event)
    (taken : Step acc s event u) : Good within u ∧ RefStep (observe s) event (observe u) := by
  cases event with
  | create result => exact create_refines reaches good inside taken
  | mapRegion cr3 vaddr nbytes ok => exact mapRegion_refines reaches good taken
  | fork parent result => exact fork_refines reaches good inside taken
  | switch cr3 => exact switch_refines good taken
  | destroy cr3 => exact destroy_refines reaches good unloaded taken
  | cowFault cr2 err resolved => exact cowFault_refines reaches good inside taken
  | cacheFill v => exact cacheFill_refines good taken
  | read v off value => exact read_refines good taken
  | write v off value => exact write_refines reaches good inside taken

end Refinement

def bootSys (mem : Nat → Nat → Word) : Sys := ⟨boot mem, ∅⟩

theorem good_boot {within : Nat → Prop} (kernel : within kernelPd ∧ within kernelPt)
    (mem : Nat → Nat → Word) : Good within (bootSys mem) where
  ready := ready_boot kernel mem
  cached v t hit := by
    rw [bootSys, (boot_mm mem).2.2] at hit
    exact absurd hit List.not_mem_nil

theorem run_refines {acc : Access} {within : Nat → Prop} (reaches : Reaches acc within)
    (kernel : within kernelPd ∧ within kernelPt) {mem : Nat → Nat → Word} {events : List Event}
    {t : Sys}
    (run : Run (Guarded (fun s e => Unloaded s e ∧ Inside within s e) (Step acc)) (bootSys mem) events t) :
    Good within t ∧ Run RefStep (observe (bootSys mem)) events (observe t) := by
  obtain ⟨r, refRun, good, rfl⟩ := run.simulates (fun s r => Good within s ∧ r = observe s)
    (by
      rintro s event u r ⟨good, rfl⟩ ⟨⟨unloaded, inside⟩, taken⟩
      obtain ⟨good', refStep⟩ := step_refines reaches good unloaded inside taken
      exact ⟨_, refStep, good', rfl⟩)
    ⟨good_boot kernel mem, rfl⟩
  exact ⟨good, refRun⟩

end NovaKernel
