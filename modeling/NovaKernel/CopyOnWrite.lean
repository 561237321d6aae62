import NovaKernel.LowFrames

set_option autoImplicit false

namespace NovaKernel

open Machine Mm Transition

def Holds (r : RefState) (v off : Nat) (value : Byte) : Prop :=
  ∃ memory contents, r.spaces r.current = some memory ∧ memory v = some contents ∧
    contents off = value

theorem holds_written {r r' : RefState} {v off : Nat} {value : Byte}
    (step : RefStep r (.write v off value) r') : Holds r' v off value := by
  cases step with
  | written found page =>
    refine ⟨_, _, by simp [RefState.set]; rfl, Function.update_self v _ _, ?_⟩
    simp

theorem holds_elsewhere {r r' : RefState} {v w off o : Nat} {value byte : Byte}
    (step : RefStep r (.write v off value) r') (other : w ≠ v) (holds : Holds r w o byte) :
    Holds r' w o byte := by
  obtain ⟨memory', contents', found', page', byte'⟩ := holds
  cases step with
  | written found page =>
    obtain rfl := Option.some.inj (found'.symm.trans found)
    refine ⟨_, contents', by simp [RefState.set]; rfl, ?_, byte'⟩
    rw [Function.update_of_ne other, page']

theorem holds_read {r r' : RefState} {v off : Nat} {value byte : Byte}
    (step : RefStep r (.read v off value) r') (holds : Holds r v off byte) : value = byte := by
  obtain ⟨memory', contents', found', page', rfl⟩ := holds
  cases step with
  | read found page =>
    obtain rfl := Option.some.inj (found'.symm.trans found)
    obtain rfl := Option.some.inj (page'.symm.trans page)
    rfl

def misdirectedPage (s : Machine) (pt idx old nf d v : Nat) : Machine :=
  let taken := takeFrame s nf
  (({ (taken.setFrame d (s.mem old)).setWord pt idx (entry nf 7) with
      mm := (taken.mm.mmRefDec old).mmRefInc nf } : Machine)).invlpg v

theorem cowFault_misdirected {s : Machine} {live : Finset Nat} {v nf : Nat} {t : Translation}
    {s₁ : Machine} (off : Nat) (ready : Ready (· < userPgStart) s live) (bounded : v < 2 ^ 20)
    (inPage : off < 0x1000) (page : CowPage s live v)
    (low : frameOf (s.mem (tableOf s s.cr3) v) < userPgStart)
    (allocated : s.frameAlloc = (some nf, s₁)) (mapped : s.walk nf = some t)
    (writable : t.writable = true) (apart : t.frame ≠ s.cr3 ∧ t.frame ≠ tableOf s s.cr3) :
    pagingCowFault translated s (v * 0x1000 + off) 7 =
      some (true, misdirectedPage s (tableOf s s.cr3) v (frameOf (s.mem (tableOf s s.cr3) v)) nf
        t.frame v) := by
  have inv := ready.spaces
  have lowIdentity := inv.lowIdentity ready.loaded
  have reachable := loaded_within ready
  obtain ⟨rfl, -⟩ := machine_frameAlloc_some allocated
  have lowTaken : LowIdentity (takeFrame s nf) := lowIdentity
  have index : (v * 0x1000 + off) / 2 ^ 12 = v := page_of_address inPage
  have first : v < 1024 := Nat.lt_trans page.2.1.2 (by decide)
  have dirIndex : (v * 0x1000 + off) / 2 ^ 22 % 1024 = 0 := by omega
  have tableIndex : v % 1024 = v := Nat.mod_eq_of_lt first
  have pde := (inv.loadedTable ready.loaded).1
  have dirPresent : hasFlag (s.mem s.cr3 0) pteP = true := by
    rw [pde, present_entry]
    decide
  have reaches := translated_faithful.reaches
  have dirRead := load_eq reaches lowIdentity reachable.1 0
  have tableRead := load_eq reaches lowIdentity reachable.2 v
  have target : translated (takeFrame s nf) nf true = some t.frame := by
    have same : (takeFrame s nf).walk nf = some t := mapped
    simp [translated, same, writable]
  have source : translated (takeFrame s nf) (frameOf (s.mem (tableOf s s.cr3) v)) false =
      some (frameOf (s.mem (tableOf s s.cr3) v)) := reaches _ lowTaken _ low false
  have copied : (takeFrame s nf).copyPage translated nf (frameOf (s.mem (tableOf s s.cr3) v)) =
      some ((takeFrame s nf).setFrame t.frame (s.mem (frameOf (s.mem (tableOf s s.cr3) v)))) := by
    simp only [copyPage, target, source, Option.bind_some, Option.map_some]
    rfl
  have lowCopied := lowIdentity_setFrame lowTaken
    (s.mem (frameOf (s.mem (tableOf s s.cr3) v))) apart.1 apart.2
  have stored := store_eq reaches lowCopied reachable.2 v (entry nf 7)
  have fromUser : hasFlag 7 pteU = true := by decide
  have onWrite : hasFlag 7 pteW = true := by decide
  have flags : pteP ||| pteW ||| pteU = 7 := by decide
  obtain ⟨-, -, present, readOnly⟩ := page
  have table : frameOf (s.mem s.cr3 0) = tableOf s s.cr3 := rfl
  simp only [pagingCowFault, fromUser, onWrite, dirIndex, dirRead, dirPresent, table, index,
    tableIndex, tableRead, present, readOnly, allocated, copied, stored, flags, Option.bind_eq_bind,
    Option.bind_some, Bool.not_true, Bool.false_eq_true, if_false, Option.pure_def]
  rfl

/-- Every address space sees what it would see in a private memory. -/
theorem copyOnWrite_isolation (mem : Nat → Nat → Word) (events : List Event) (t : Sys) :
    (LowRun mem events t → Run RefStep (observe (bootSys mem)) events (observe t)) ∧
    (Run (Guarded Unloaded (Step physical)) (bootSys mem) events t →
      Run RefStep (observe (bootSys mem)) events (observe t)) := by
  constructor
  · exact fun run => (lowRun_refines run).2
  · intro run
    exact (run_refines physical_reaches ⟨trivial, trivial⟩ (run.mono fun s e _ taken =>
      ⟨⟨taken.1, inside_everywhere s e⟩, taken.2⟩)).2

structure SharedPage (m : Machine) (live : Finset Nat) : Prop where
  ready : Ready (· < userPgStart) m live
  member : 0x130 ∈ live
  loaded : m.cr3 = 0x130
  table : tableOf m 0x130 = 0x131
  filled : Filled m 0x234
  shared : m.mem 0x131 0x200 = entry 0x132 5
  own : m.mem 0x131 0x234 = entry 0x168 7
  zero : m.mem 0x132 = fun _ => 0
  uncached : m.tlb = []

def sharedPageEvents : List Event :=
  [.create (some 0x130), .mapRegion 0x130 0x200000 0x1000 true, .switch 0x130,
    .fork 0x130 (some 0x133), .mapRegion 0x130 0x201000 0xFF000 true]

theorem sharedPage_run : ∃ m live, SharedPage m live ∧
    LowRun (fun _ _ => 0) sharedPageEvents ⟨m, live⟩ := by
  have reaches := translated_faithful.reaches
  have booted : Ready (· < userPgStart) (boot fun _ _ => 0) ∅ := ready_boot ⟨by decide, by decide⟩ _
  have filled₀ := filled_boot fun _ _ => 0
  have low₀ := (filled_lowFree filled₀ (by decide)).1
  obtain ⟨created, ready₁⟩ := create_next reaches booted filled₀ (by decide) ⟨by decide, by decide⟩
  have filled₁ := filled_created filled₀
  have table₁ := (booted.spaces.created (filled_allocTables filled₀ (by decide))).2.1
  have empty := createdSpace_table (boot fun _ _ => 0) (show 0x130 ≠ 0x130 + 1 by decide)
  have zero₁ : (createdSpace (boot fun _ _ => 0) 0x130 (0x130 + 1)).mem 0x132 = fun _ => 0 := by
    rw [createdSpace_kept _ (by decide) (by decide), boot_mem_kept _ (by decide) (by decide)]
  generalize createdSpace (boot fun _ _ => 0) 0x130 (0x130 + 1) = m₁ at *
  have blank₁ : ∀ j, InUserWindow j → m₁.mem 0x131 j = 0#32 := fun j inside => by
    rw [show (0x131 : Nat) = 0x130 + 1 from rfl, empty]
    exact if_pos inside
  have member : 0x130 ∈ insert 0x130 (∅ : Finset Nat) := Finset.mem_insert_self _ _
  -- Page 0x200 gets frame 0x132.
  obtain ⟨mapped, ready₂⟩ := mapRegion_next reaches ready₁ (i := 0x200) (k := 1) filled₁ (by decide)
    member (by decide) (by decide) (by decide) (by
      intro j low high
      rw [table₁, blank₁ j ⟨low, Nat.lt_trans high (by decide)⟩]
      exact hasFlag_zero pteP)
  rw [table₁] at mapped ready₂
  have filled₂ := filled_mapFrom 0x131 1 0x200 filled₁
  have entries₂ := mapFrom_mem 0x131 1 0x200 0x132 m₁
  generalize mapFrom 0x131 1 0x200 0x132 m₁ = m₂ at *
  have table₂ : tableOf m₂ 0x130 = 0x131 := by
    rw [tableOf, entries₂, if_neg (by decide)]
    exact table₁
  -- The address space is loaded and forked: both map frame 0x132 read-only.
  have ready₃ := ready_switched ready₂ 0x130 (.inl member)
  have filled₃ : Filled (m₂.pagingSwitch 0x130) 0x133 := filled₂
  have low₃ := (filled_lowFree filled₃ (by decide)).1
  obtain ⟨forked, ready₄⟩ :=
    fork_next reaches ready₃ filled₃ (by decide) ⟨by decide, by decide⟩ member
  have filled₄ := filled_forked filled₃ 0x130
  have table₄ : tableOf (forkedSpace (m₂.pagingSwitch 0x130) 0x130 0x133 (0x133 + 1)) 0x130 = 0x131 :=
    ((ready₃.spaces.forked (filled_allocTables filled₃ (by decide)) member).2.2.2 _ member).trans table₂
  have table₃ : tableOf (m₂.pagingSwitch 0x130) 0x130 = 0x131 := table₂
  have shared := forkedSpace_parent (m₂.pagingSwitch 0x130) (0x133 + 1)
    (show 0x133 ≠ tableOf (m₂.pagingSwitch 0x130) 0x130 by rw [table₃]; decide)
  have zero₄ : (forkedSpace (m₂.pagingSwitch 0x130) 0x130 0x133 (0x133 + 1)).mem 0x132 =
      (m₂.pagingSwitch 0x130).mem 0x132 :=
    forkedSpace_kept _ (by decide) (by decide) (by rw [table₃]; decide)
  rw [table₃] at shared
  have flushed := forkedSpace_flushed (show 0x130 = (m₂.pagingSwitch 0x130).cr3 from rfl) 0x133
    (0x133 + 1)
  have loaded : (forkedSpace (m₂.pagingSwitch 0x130) 0x130 0x133 (0x133 + 1)).cr3 = 0x130 := rfl
  generalize forkedSpace (m₂.pagingSwitch 0x130) 0x130 0x133 (0x133 + 1) = m₄ at *
  have entry₄ : m₄.mem 0x131 0x200 = entry 0x132 5 := by
    have before : m₂.mem 0x131 0x200 = entry 0x132 7 := by
      rw [entries₂, if_pos (by decide)]
    rw [shared]
    change sharedTable (m₂.mem 0x131) 0x200 = _
    rw [sharedTable, before, if_pos ⟨by decide, by rw [present_entry]; decide⟩]
    exact entry_downgrade _ (by decide) (by decide)
  have blank₄ : ∀ j, InUserWindow j → j ≠ 0x200 → m₄.mem 0x131 j = 0#32 := by
    intro j inside other
    have before : m₂.mem 0x131 j = 0#32 := by
      rw [entries₂, if_neg (by omega), blank₁ j inside]
    rw [shared]
    change sharedTable (m₂.mem 0x131) j = _
    rw [sharedTable, before, if_neg (by simp)]
  have member₄ : 0x130 ∈ insert 0x133 (insert 0x130 (∅ : Finset Nat)) :=
    Finset.mem_insert_of_mem member
  -- The parent maps the rest of its window.
  obtain ⟨mapped', ready₅⟩ :=
    mapRegion_next reaches ready₄ (i := 0x201) (k := 0xFF) filled₄ (by decide)
    member₄ (by decide) (by decide) (by decide) (by
      intro j low high
      rw [table₄, blank₄ j ⟨Nat.le_trans (by decide) low, Nat.lt_of_lt_of_le high (by decide)⟩
        (by omega)]
      exact hasFlag_zero pteP)
  rw [table₄] at mapped' ready₅
  have filled₅ := filled_mapFrom 0x131 0xFF 0x201 filled₄
  have entries₅ := mapFrom_mem 0x131 0xFF 0x201 0x135 m₄
  have kept₅ := mapFrom_cr3 0x131 0xFF 0x201 0x135 m₄
  generalize mapFrom 0x131 0xFF 0x201 0x135 m₄ = m₅ at *
  have loading : Step translated ⟨m₂, insert 0x130 ∅⟩ (.switch 0x130)
      ⟨m₂.pagingSwitch 0x130, insert 0x130 ∅⟩ := .switch (.inl member)
  have run : LowRun (fun _ _ => 0) sharedPageEvents ⟨m₅, _⟩ :=
    (Run.single ⟨⟨by exact trivial, by exact trivial⟩, mapped'⟩)
    |>.cons ⟨⟨by exact trivial, by exact low₃⟩, forked⟩
    |>.cons ⟨⟨by exact trivial, by exact trivial⟩, loading⟩
    |>.cons ⟨⟨by exact trivial, by exact trivial⟩, mapped⟩
    |>.cons ⟨⟨by exact trivial, by exact low₀⟩, created⟩
  refine ⟨m₅, _, ?_, run⟩
  constructor
  · exact ready₅
  · exact member₄
  · exact kept₅.1.trans loaded
  · rw [tableOf, entries₅, if_neg (by decide)]
    exact table₄
  · exact filled₅
  · rw [entries₅, if_neg (by decide), entry₄]
  · rw [entries₅, if_pos (by decide)]
  · funext j
    rw [entries₅, if_neg (by omega), zero₄]
    change m₂.mem 0x132 j = 0
    rw [entries₂, if_neg (by omega), zero₁]
  · exact kept₅.2.trans flushed

theorem translationOf_user {f : Nat} (bounded : f < frameCount) :
    translationOf (entry f 7) = some { frame := f, writable := true, user := true } := by
  have present : hasFlag (entry f 7) pteP = true := by rw [present_entry]; decide
  have writable : hasFlag (entry f 7) pteW = true := by rw [writable_entry]; decide
  have user : hasFlag (entry f 7) pteU = true := by rw [user_entry]; decide
  rw [translationOf, if_pos present, writable, user, frameOf_entry bounded (by decide)]

namespace SharedPage

variable {m : Machine} {live : Finset Nat} (state : SharedPage m live)
include state

theorem walk_own : m.walk 0x234 = some { frame := 0x168, writable := true, user := true } := by
  obtain ⟨pde, bounded⟩ := state.ready.spaces.loadedTable state.ready.loaded
  rw [walk_eq pde bounded (by decide), state.loaded, state.table, state.own]
  exact translationOf_user (by decide)

theorem write_own (value : Byte) :
    Step translated ⟨m, live⟩ (.write 0x234 0 value) ⟨m.putByte 0x168 0 value, live⟩ ∧
      LowFrames ⟨m, live⟩ (.write 0x234 0 value) ∧ SharedPage (m.putByte 0x168 0 value) live := by
  have ready := state.ready
  have inside : InUserWindow 0x234 := by decide
  have member : m.cr3 ∈ live := state.loaded ▸ state.member
  have own : m.mem (tableOf m m.cr3) 0x234 = entry 0x168 7 := by
    rw [state.loaded, state.table, state.own]
  have present : hasFlag (m.mem (tableOf m m.cr3) 0x234) pteP = true := by
    rw [own, present_entry]
    decide
  have ready' := ready_putByte ready member inside present 0 value
  rw [own, frameOf_entry (by decide) (by decide)] at ready'
  have kept : ∀ g, g ≠ 0x168 → (m.putByte 0x168 0 value).mem g = m.mem g :=
    fun g other => setWord_mem_ne _ _ _ other
  refine ⟨.write member (by decide) (by decide) (.direct (.inr state.walk_own) rfl rfl), ?_, ?_⟩
  · intro t found readOnly
    rw [← Option.some.inj (state.walk_own.symm.trans found)] at readOnly
    exact absurd readOnly (by simp)
  · constructor
    · exact ready'
    · exact state.member
    · exact state.loaded
    · exact (tableOf_congr (kept 0x130 (by decide))).trans state.table
    · exact state.filled
    · rw [kept 0x131 (by decide), state.shared]
    · rw [kept 0x131 (by decide), state.own]
    · rw [kept 0x132 (by decide), state.zero]
    · exact state.uncached

theorem write_shared (value : Byte) : ∃ u : Machine,
    Step translated ⟨m, live⟩ (.write 0x200 0 value) ⟨u, live⟩ ∧
      Step translated ⟨u, live⟩ (.read 0x234 0 0) ⟨u, live⟩ := by
  have ready := state.ready
  have member : m.cr3 ∈ live := state.loaded ▸ state.member
  have shared : m.mem (tableOf m m.cr3) 0x200 = entry 0x132 5 := by
    rw [state.loaded, state.table, state.shared]
  have old : frameOf (m.mem (tableOf m m.cr3) 0x200) = 0x132 := by
    rw [shared]
    exact frameOf_entry (by decide) (by decide)
  have page : CowPage m live 0x200 := by
    refine ⟨member, by decide, ?_, ?_⟩
    · rw [shared, present_entry]
      decide
    · rw [shared, writable_entry]
      decide
  have copy := cowFault_misdirected (v := 0x200) 0 ready (by decide) (by decide) page
    (by rw [old]; decide) (filled_frameAlloc state.filled (by decide)) state.walk_own rfl
    ⟨by rw [state.loaded]; decide, by rw [state.loaded, state.table]; decide⟩
  rw [old, state.loaded, state.table] at copy
  have cr3 : (misdirectedPage m 0x131 0x200 0x132 0x234 0x168 0x200).cr3 = 0x130 := state.loaded
  have memory : (misdirectedPage m 0x131 0x200 0x132 0x234 0x168 0x200).mem =
      ((m.setFrame 0x168 (m.mem 0x132)).setWord 0x131 0x200 (entry 0x234 7)).mem := rfl
  generalize misdirectedPage m 0x131 0x200 0x132 0x234 0x168 0x200 = s at copy cr3 memory
  have pde : s.mem s.cr3 0 = entry 0x131 7 := by
    rw [cr3, memory, setWord_mem_ne _ _ _ (by decide), setFrame_mem_ne _ _ (by decide),
      ready.spaces.tableOf_dir state.member, state.table]
  have retried : s.walk 0x200 = some { frame := 0x234, writable := true, user := true } := by
    rw [walk_eq pde (by decide) (by decide), memory, setWord_mem, if_pos ⟨rfl, rfl⟩]
    exact translationOf_user (by decide)
  have readOnly := walk_cowPage ready.spaces page
  have kept : ∀ g, g ≠ 0x234 → (s.putByte 0x234 0 value).mem g = s.mem g :=
    fun g other => setWord_mem_ne _ _ _ other
  have own : (s.putByte 0x234 0 value).walk 0x234 =
      some { frame := 0x168, writable := true, user := true } := by
    have pde' : (s.putByte 0x234 0 value).mem (s.putByte 0x234 0 value).cr3 0 = entry 0x131 7 := by
      change (s.putByte 0x234 0 value).mem s.cr3 0 = _
      rw [cr3, kept 0x130 (by decide), ← cr3, pde]
    rw [walk_eq pde' (by decide) (by decide), kept 0x131 (by decide), memory, setWord_mem,
      if_neg (by decide), setFrame_mem_ne _ _ (by decide), state.own]
    exact translationOf_user (by decide)
  have lost : (s.putByte 0x234 0 value).getByte 0x168 0 = 0 := by
    rw [getByte, kept 0x168 (by decide), memory, setWord_mem_ne _ _ _ (by decide),
      setFrame_mem_self, state.zero]
    decide
  have member' : (s.putByte 0x234 0 value).cr3 ∈ live := by
    change s.cr3 ∈ live
    rw [cr3]
    exact state.member
  refine ⟨s.putByte 0x234 0 value, .write member (by decide) (by decide)
    (.retried (.inr readOnly) rfl rfl copy (.direct (.inr retried) rfl rfl)), ?_⟩
  have step : Step translated ⟨s.putByte 0x234 0 value, live⟩
      (.read 0x234 0 ((s.putByte 0x234 0 value).getByte 0x168 0)) ⟨s.putByte 0x234 0 value, live⟩ :=
    .read (t := ⟨0x168, true, true⟩) member' (by decide) (by decide) (.inr own) rfl
  rwa [lost] at step

end SharedPage

theorem copyOnWrite_isolation_shared :
    ∃ t, Run RefStep (observe (bootSys fun _ _ => 0)) (sharedPageEvents ++ [.write 0x234 0 1])
      (observe t) := by
  obtain ⟨m, live, state, run⟩ := sharedPage_run
  obtain ⟨written, low, -⟩ := state.write_own 1
  exact ⟨_, (copyOnWrite_isolation _ _ _).1 (run.snoc ⟨⟨by exact trivial, low⟩, written⟩)⟩

/-- The parent reads back zero from the page it just wrote, which no private memory does. -/
theorem copyOnWrite_isolation_fails :
    ∃ t, Run (Guarded Unloaded (Step translated)) (bootSys fun _ _ => 0)
        (sharedPageEvents ++ [.write 0x234 0 1] ++ [.write 0x200 0 2] ++ [.read 0x234 0 0]) t ∧
      ∀ r, ¬ Run RefStep (observe (bootSys fun _ _ => 0))
        (sharedPageEvents ++ [.write 0x234 0 1] ++ [.write 0x200 0 2] ++ [.read 0x234 0 0]) r := by
  obtain ⟨m, live, state, run⟩ := sharedPage_run
  obtain ⟨written, -, state'⟩ := state.write_own 1
  obtain ⟨u, overwritten, reading⟩ := state'.write_shared 2
  have start : Run (Guarded Unloaded (Step translated)) (bootSys fun _ _ => 0) sharedPageEvents
      ⟨m, live⟩ := run.mono fun _ _ _ taken => ⟨taken.1.1, taken.2⟩
  refine ⟨_, ((start.snoc ⟨by exact trivial, written⟩).snoc ⟨by exact trivial, overwritten⟩).snoc
    ⟨by exact trivial, reading⟩, fun r refRun => ?_⟩
  obtain ⟨r₃, refRun, read⟩ := refRun.last
  obtain ⟨r₂, refRun, second⟩ := refRun.last
  obtain ⟨r₁, -, first⟩ := refRun.last
  have kept := holds_elsewhere second (w := 0x234) (by decide) (holds_written first)
  exact absurd (holds_read read kept) (by decide)

end NovaKernel
