import NovaKernel.FirstFrames
import NovaKernel.Isolation

set_option autoImplicit false

namespace NovaKernel

open Machine Mm FirstFit Transition

/-! The kernel reaches a frame through its address, so it needs frames below the user window. -/

/-- The next `n` frames to be handed out, if there are as many, lie below the user window. -/
def LowFree (s : Machine) (n : Nat) : Prop :=
  n ≤ freeCount s.mm.bitmap userPgStart ∨ freeCount s.mm.bitmap frameCount < n

def LowCopy (s : Machine) (v : Nat) : Prop :=
  ∀ t, s.walk v = some t → t.writable = false → t.frame < userPgStart ∧ LowFree s 1

/-- Frames that become tables or take part in a copy lie below the user window. -/
def LowFrames (s : Sys) : Event → Prop
  | .create _ => LowFree s.machine 2
  | .fork _ _ => LowFree s.machine 2
  | .cowFault cr2 _ _ => LowCopy s.machine (cr2 / 2 ^ 12)
  | .write v _ _ => LowCopy s.machine v
  | _ => True

theorem lowFree_frameAlloc {s s₁ : Machine} {f : Nat} (low : LowFree s 1)
    (allocated : s.frameAlloc = (some f, s₁)) : f < userPgStart := by
  obtain ⟨-, bounded, free, before⟩ := machine_frameAlloc_some allocated
  rcases low with some' | none
  · obtain ⟨g, below, unused⟩ := freeCount_pos_iff.mp some'
    by_contra high
    have used := before g (by omega)
    exact absurd (unused.symm.trans used) (by simp)
  · have positive := freeCount_pos_iff.mpr ⟨f, bounded, free⟩
    omega

theorem freeCount_takeFrame {s : Machine} {f limit : Nat} (below : f < limit)
    (free : s.mm.bitmap f = false) :
    freeCount s.mm.bitmap limit = freeCount (takeFrame s f).mm.bitmap limit + 1 :=
  freeCount_mark below free

theorem lowFree_allocTables {s s₁ : Machine} {pd pt : Nat} (low : LowFree s 2)
    (allocated : allocTables s = (some (pd, pt), s₁)) : pd < userPgStart ∧ pt < userPgStart := by
  unfold allocTables at allocated
  rcases first : s.frameAlloc with ⟨_ | d, m⟩
  · simp [first] at allocated
  · rcases second : m.frameAlloc with ⟨_ | t, m'⟩
    · simp [first, second] at allocated
    · obtain ⟨⟨rfl, rfl⟩, -⟩ : (d = pd ∧ t = pt) ∧ m' = s₁ := by
        simpa [first, second] using allocated
      obtain ⟨rfl, bounded, free, -⟩ := machine_frameAlloc_some first
      obtain ⟨-, bounded', free', -⟩ := machine_frameAlloc_some second
      have total := freeCount_takeFrame bounded free
      have rest := freeCount_pos_iff.mpr ⟨t, bounded', free'⟩
      have enough : 2 ≤ freeCount s.mm.bitmap userPgStart := low.resolve_right (by omega)
      have dir : d < userPgStart := lowFree_frameAlloc (.inl (by omega)) first
      have left := freeCount_takeFrame dir free
      exact ⟨dir, lowFree_frameAlloc (.inl (by omega)) second⟩

theorem lowFrames_inside {s : Sys} {event : Event} (low : LowFrames s event) :
    Inside (· < userPgStart) s event := by
  cases event with
  | create => exact fun pd pt m allocated => lowFree_allocTables low allocated
  | fork => exact fun pd pt m allocated => lowFree_allocTables low allocated
  | cowFault =>
    exact fun t found readOnly => ⟨(low t found readOnly).1,
      fun f m allocated => lowFree_frameAlloc (low t found readOnly).2 allocated⟩
  | write =>
    exact fun t found readOnly => ⟨(low t found readOnly).1,
      fun f m allocated => lowFree_frameAlloc (low t found readOnly).2 allocated⟩
  | mapRegion => trivial
  | switch => trivial
  | destroy => trivial
  | cacheFill => trivial
  | read => trivial

theorem filled_free {s : Machine} {n : Nat} (filled : Filled s n) (k : Nat) {limit : Nat}
    (room : n + k ≤ limit) (below : n + k ≤ 0x300) : k ≤ freeCount s.mm.bitmap limit := by
  induction k generalizing s n with
  | zero => exact Nat.zero_le _
  | succ k ih =>
    obtain ⟨-, -, unused, -⟩ := machine_frameAlloc_some (filled_frameAlloc filled (by omega))
    have rest := ih (filled_takeFrame filled) (by omega) (by omega)
    rw [freeCount_takeFrame (by omega) unused]
    exact Nat.succ_le_succ rest

theorem filled_lowFree {s : Machine} {n : Nat} (filled : Filled s n) (below : n + 1 < userPgStart) :
    LowFree s 2 ∧ LowFree s 1 := by
  simp only [userPgStart] at below
  have low : 2 ≤ freeCount s.mm.bitmap userPgStart :=
    filled_free filled 2 (by simp only [userPgStart]; omega) (by omega)
  exact ⟨.inl low, .inl (Nat.le_of_succ_le low)⟩

/-- A run whose steps all meet the condition, with every access through the page tables. -/
abbrev LowRun (mem : Nat → Nat → Word) (events : List Event) (t : Sys) : Prop :=
  Run (Guarded (fun s e => Unloaded s e ∧ LowFrames s e) (Step translated)) (bootSys mem) events t

theorem lowRun_refines {mem : Nat → Nat → Word} {events : List Event} {t : Sys}
    (run : LowRun mem events t) :
    Good (· < userPgStart) t ∧ Run RefStep (observe (bootSys mem)) events (observe t) :=
  run_refines translated_faithful.reaches ⟨by decide, by decide⟩ (run.mono fun _ _ _ taken =>
    ⟨⟨taken.1.1, lowFrames_inside taken.1.2⟩, taken.2⟩)

section Steps

variable {acc : Access} {within : Nat → Prop} (reaches : Reaches acc within) {s : Machine}
  {live : Finset Nat} (ready : Ready within s live)
include reaches ready

theorem create_next {n : Nat} (filled : Filled s n) (below : n + 1 < 0x300)
    (inside : within n ∧ within (n + 1)) :
    Step acc ⟨s, live⟩ (.create (some n)) ⟨createdSpace s n (n + 1), insert n live⟩ ∧
      Ready within (createdSpace s n (n + 1)) (insert n live) :=
  have allocated := filled_allocTables filled below
  ⟨.create (create_ok reaches ready allocated inside), ready_created ready allocated inside⟩

theorem fork_next {n parent : Nat} (filled : Filled s n) (below : n + 1 < 0x300)
    (inside : within n ∧ within (n + 1)) (member : parent ∈ live) :
    Step acc ⟨s, live⟩ (.fork parent (some n)) ⟨forkedSpace s parent n (n + 1), insert n live⟩ ∧
      Ready within (forkedSpace s parent n (n + 1)) (insert n live) :=
  have allocated := filled_allocTables filled below
  ⟨.fork member (fork_ok reaches ready member allocated inside),
    ready_forked ready member allocated inside⟩

theorem mapRegion_next {n pd i k : Nat} (filled : Filled s n) (below : n + k ≤ 0x300)
    (member : pd ∈ live) (some' : 0 < k) (start : userPgStart ≤ i) (stop : i + k ≤ userPgEnd)
    (unmapped : ∀ j, i ≤ j → j < i + k → hasFlag (s.mem (tableOf s pd) j) pteP = false) :
    Step acc ⟨s, live⟩ (.mapRegion pd (i * 0x1000) (k * 0x1000) true)
        ⟨mapFrom (tableOf s pd) k i n s, live⟩ ∧
      Ready within (mapFrom (tableOf s pd) k i n s) live := by
  have from' : userPgStart * 0x1000 ≤ i * 0x1000 := Nat.mul_le_mul_right _ start
  have to' : i * 0x1000 + k * 0x1000 ≤ userPgEnd * 0x1000 := by
    rw [← Nat.add_mul]
    exact Nat.mul_le_mul_right _ stop
  have pages : regionPages (i * 0x1000) (k * 0x1000) = List.range' i k := by
    clear from' to'
    simp only [userPgEnd] at stop
    have first : i * 0x1000 / 0x1000 % 1024 = i := by omega
    have last : (i * 0x1000 + k * 0x1000 + (2 ^ 32 - 1)) % 2 ^ 32 / 0x1000 % 1024 + 1 - i = k := by omega
    simp only [regionPages, first, last]
  have nonempty : k * 0x1000 ≠ 0 := Nat.mul_ne_zero (Nat.ne_of_gt some') (by decide)
  have window : ∀ j, i ≤ j → j < i + k → InUserWindow j := fun j low high =>
    ⟨Nat.le_trans start low, Nat.lt_of_lt_of_le high stop⟩
  obtain ⟨mapped, ready'⟩ :=
    mapUserPages_consecutive reaches ready member filled below window unmapped
  refine ⟨.mapRegion member from' to' ?_, ready'⟩
  rw [mapRegion_pages reaches ready member from' to' nonempty, pages]
  exact mapped

end Steps

end NovaKernel
