import NovaKernel.SpaceRuns
import NovaKernel.FrameAccounting

set_option autoImplicit false

namespace NovaKernel

open FirstFit Machine Mm Transition

def userFrames (s : Machine) (pd : Nat) : Finset Nat :=
  ((Finset.Ico userPgStart userPgEnd).filter fun v => hasFlag (s.mem (tableOf s pd) v) pteP = true).image
    fun v => frameOf (s.mem (tableOf s pd) v)

theorem mem_userFrames {s : Machine} {pd f : Nat} : f ∈ userFrames s pd ↔
    ∃ v, InUserWindow v ∧ hasFlag (s.mem (tableOf s pd) v) pteP = true ∧
      frameOf (s.mem (tableOf s pd) v) = f := by
  simp only [userFrames, Finset.mem_image, Finset.mem_filter, Finset.mem_Ico, InUserWindow,
    and_assoc]

theorem freeCount_card (used : Nat → Bool) (limit : Nat) :
    freeCount used limit = ((Finset.range limit).filter fun f => used f = false).card := by
  rw [freeCount, List.countP_eq_length_filter,
    ← List.toFinset_card_of_nodup (List.nodup_range.filter _), List.toFinset_filter,
    List.toFinset_range]
  congr 1
  ext f
  simp

namespace AddrSpaces

variable {s : Machine} {live : Finset Nat} (inv : AddrSpaces s live)
include inv

theorem tables_card : (live ∪ live.image (tableOf s)).card = 2 * live.card := by
  have apart : Disjoint live (live.image (tableOf s)) := by
    rw [Finset.disjoint_right]
    intro f member member'
    obtain ⟨pd, live', rfl⟩ := Finset.mem_image.mp member
    exact (inv.distinct _ member' pd live').1 rfl
  have tables : (live.image (tableOf s)).card = live.card :=
    Finset.card_image_of_injOn fun a ha b hb same => (inv.distinct a ha b hb).2 same
  rw [Finset.card_union_of_disjoint apart, tables]
  omega

theorem refs_pos_iff {f : Nat} : 0 < s.mm.frameRefs f ↔ f ∈ live.biUnion (userFrames s) := by
  rw [inv.counted f, Finset.mem_biUnion]
  constructor
  · intro some'
    obtain ⟨pd, member, mapped⟩ := Finset.exists_ne_zero_of_sum_ne_zero (Nat.ne_of_gt some')
    obtain ⟨v, window, present, same⟩ := exists_of_mapCount_pos (Nat.pos_of_ne_zero mapped)
    exact ⟨pd, member, mem_userFrames.mpr ⟨v, window, present, same⟩⟩
  · rintro ⟨pd, member, mapped⟩
    obtain ⟨v, window, present, same⟩ := mem_userFrames.mp mapped
    have one := mapCount_pos window present same
    exact Nat.lt_of_lt_of_le one (Finset.single_le_sum (f := fun pd => mapCount (s.mem (tableOf s pd)) f)
      (fun _ _ => Nat.zero_le _) member)

omit inv in
theorem mem_tables_iff {f : Nat} : f ∈ live ∪ live.image (tableOf s) ↔ IsTable s live f := by
  simp only [Finset.mem_union, Finset.mem_image, IsTable]
  constructor
  · rintro (member | ⟨pd, member, rfl⟩)
    · exact ⟨f, member, .inl rfl⟩
    · exact ⟨pd, member, .inr rfl⟩
  · rintro ⟨pd, member, rfl | rfl⟩
    · exact .inl member
    · exact .inr ⟨pd, member, rfl⟩

theorem allocatable_of_table {f : Nat} (table : IsTable s live f) :
    Allocatable f ∧ s.mm.frameRefs f = 0 := by
  obtain ⟨pd, member, rfl | rfl⟩ := table
  · exact ⟨(inv.tables _ member).1, (inv.unshared _ member).1⟩
  · exact ⟨(inv.tables _ member).2, (inv.unshared _ member).2⟩

theorem allocatable_of_refs {f : Nat} (mapped : 0 < s.mm.frameRefs f) : Allocatable f := by
  obtain ⟨pd, member, found⟩ := Finset.mem_biUnion.mp (inv.refs_pos_iff.mp mapped)
  obtain ⟨v, window, present, rfl⟩ := mem_userFrames.mp found
  exact (inv.mapped_frame member window present).1

theorem frames_partition : mmFreeFrames s.mm + 2 * live.card + (live.biUnion (userFrames s)).card = 464 := by
  have free : ∀ f, f ∈ (Finset.range frameCount).filter (fun f => s.mm.bitmap f = false) ↔
      f < frameCount ∧ s.mm.bitmap f = false := fun f => by rw [Finset.mem_filter, Finset.mem_range]
  have used : ∀ f < frameCount, s.mm.bitmap f = false ↔
      ¬ Reserved f ∧ ¬ IsTable s live f ∧ s.mm.frameRefs f = 0 := fun f bounded => by
    rw [← Bool.not_eq_true, inv.used f bounded]
    simp only [not_or, Nat.not_lt, Nat.le_zero]
  have apart : Disjoint ((Finset.range frameCount).filter fun f => s.mm.bitmap f = false)
      (live ∪ live.image (tableOf s)) := by
    rw [Finset.disjoint_left]
    intro f member table
    obtain ⟨bounded, unused⟩ := (free f).mp member
    exact ((used f bounded).mp unused).2.1 ((mem_tables_iff).mp table)
  have apart' : Disjoint ((Finset.range frameCount).filter (fun f => s.mm.bitmap f = false) ∪
      (live ∪ live.image (tableOf s))) (live.biUnion (userFrames s)) := by
    rw [Finset.disjoint_right]
    intro f mapped member
    have some' := inv.refs_pos_iff.mpr mapped
    rcases Finset.mem_union.mp member with unused | table
    · obtain ⟨bounded, unused⟩ := (free f).mp unused
      have zero := ((used f bounded).mp unused).2.2
      omega
    · have zero := (inv.allocatable_of_table ((mem_tables_iff).mp table)).2
      omega
  have all : (Finset.range frameCount).filter (fun f => s.mm.bitmap f = false) ∪ (live ∪ live.image (tableOf s)) ∪
      live.biUnion (userFrames s) = Finset.Ico 0x130 0x300 := by
    ext f
    rw [Finset.mem_union, Finset.mem_union, free, mem_tables_iff, ← inv.refs_pos_iff,
      Finset.mem_Ico]
    constructor
    · rintro ((⟨bounded, unused⟩ | table) | mapped)
      · have unreserved := ((used f bounded).mp unused).1
        exact allocatable_of_not_reserved bounded unreserved
      · exact (inv.allocatable_of_table table).1
      · exact inv.allocatable_of_refs mapped
    · intro handed
      have bounded := allocatable_lt handed
      by_cases unused : s.mm.bitmap f = false
      next => exact .inl (.inl ⟨bounded, unused⟩)
      next =>
        rcases (inv.used f bounded).mp (by simpa using unused) with reserved | table | mapped
        · exact absurd reserved (allocatable_not_reserved handed)
        · exact .inl (.inr table)
        · exact .inr mapped
  have total := congrArg Finset.card all
  rw [Finset.card_union_of_disjoint apart', Finset.card_union_of_disjoint apart, inv.tables_card,
    Nat.card_Ico] at total
  rw [mmFreeFrames, freeCount_card]
  omega

end AddrSpaces

def Kernel.processes (k : Kernel) : Finset Nat :=
  (Finset.range maxTasks).filter fun i => (k.tasks i).ready = true ∧ (k.tasks i).flags = .user

def Kernel.processFrames (k : Kernel) : Finset Nat :=
  k.processes.biUnion fun i => userFrames k.sys.machine (k.tasks i).cr3

/-- Each address space has its process, and the frames that are not theirs are free. -/
structure System.Conserved (t : System) : Prop where
  live : ∀ i ∈ t.kernel.processes, (t.kernel.tasks i).cr3 ∈ t.kernel.sys.live
  owner : ∀ pd ∈ t.kernel.sys.live, ∃! i, i ∈ t.kernel.processes ∧ (t.kernel.tasks i).cr3 = pd
  free : mmFreeFrames t.kernel.sys.machine.mm + 2 * t.kernel.processes.card + t.kernel.processFrames.card = 464
  gone : t.kernel.processes = ∅ → mmFreeFrames t.kernel.sys.machine.mm = 464

theorem mem_processes {k : Kernel} (table : Table k) {i : Nat} :
    i ∈ k.processes ↔ k.spaceIn i = some (k.tasks i).cr3 := by
  simp only [Kernel.processes, Finset.mem_filter, Finset.mem_range, Kernel.spaceIn]
  constructor
  · rintro ⟨-, process⟩
    exact if_pos process
  · intro held
    by_cases process : (k.tasks i).ready = true ∧ (k.tasks i).flags = .user
    next => exact ⟨Nat.lt_of_lt_of_le (table.slot_lt process.1) table.bounded, process⟩
    next => exact absurd (held.symm.trans (if_neg process)) (by simp)

theorem spaceIn_iff {k : Kernel} (table : Table k) {i pd : Nat} :
    k.spaceIn i = some pd ↔ i ∈ k.processes ∧ (k.tasks i).cr3 = pd := by
  rw [mem_processes table]
  constructor
  · intro held
    have own : (k.tasks i).cr3 = pd := by
      unfold Kernel.spaceIn at held
      split at held
      next => exact Option.some.inj held
      next => cases held
    exact ⟨by rw [own]; exact held, own⟩
  · rintro ⟨held, rfl⟩
    exact held

section Conserved

variable {within : Nat → Prop} {t : System} (table : Table t.kernel) (spaces : Spaces within t)
    (idle : t.spawn = .idle)
include table spaces idle

theorem Spaces.owned {pd : Nat} (member : pd ∈ t.kernel.sys.live) :
    ∃ i ∈ t.kernel.processes, (t.kernel.tasks i).cr3 = pd := by
  obtain ⟨p, held⟩ := spaces.custody.covered pd member
  cases p with
  | none =>
    have none' : t.holds none = none := congrArg Spawn.space idle
    exact absurd (held.symm.trans none') (by simp)
  | some i =>
    obtain ⟨process, own⟩ := (spaceIn_iff table).mp held
    exact ⟨i, process, own⟩

theorem Spaces.live_eq : t.kernel.sys.live =
    t.kernel.processes.image fun i => (t.kernel.tasks i).cr3 := by
  ext pd
  rw [Finset.mem_image]
  constructor
  · intro member
    exact spaces.owned table idle member
  · rintro ⟨i, process, rfl⟩
    exact spaces.live_process ((mem_processes table).mp process)

theorem Spaces.conserved : t.Conserved := by
  have live := spaces.live_eq table idle
  have unique : ∀ i ∈ t.kernel.processes, ∀ j ∈ t.kernel.processes,
      (t.kernel.tasks i).cr3 = (t.kernel.tasks j).cr3 → i = j := fun i process j process' same => by
    have held := (mem_processes table).mp process
    have held' := (mem_processes table).mp process'
    rw [← same] at held'
    exact Option.some.inj (spaces.custody.unique (some i) (some j) _ held held')
  have card : t.kernel.sys.live.card = t.kernel.processes.card := by
    rw [live]
    exact Finset.card_image_of_injOn fun i process j process' same =>
      unique i process j process' same
  have frames : t.kernel.sys.live.biUnion (userFrames t.kernel.sys.machine) =
      t.kernel.processFrames := by
    rw [live, Finset.image_biUnion]
    rfl
  have free := spaces.good.ready.spaces.frames_partition
  rw [card, frames] at free
  refine ⟨fun i process => ?_, fun pd member => ?_, free, fun none' => ?_⟩
  · rw [live]
    exact Finset.mem_image_of_mem _ process
  · obtain ⟨i, process, own⟩ := spaces.owned table idle member
    refine ⟨i, ⟨process, own⟩, fun j other => ?_⟩
    exact unique j other.1 i process (other.2.trans own.symm)
  · rw [Kernel.processFrames, none', Finset.card_empty, Finset.biUnion_empty,
      Finset.card_empty] at free
    omega

end Conserved

/-- Frame conservation: whatever has been spawned, forked, faulted or killed, in every state between two
`user_spawn`s. -/
theorem frames_conserved {image : BootImage} {events : List KernelEvent} {t : System}
    (run : Run (KernelStep physical) (bootSystem image) events t) (few : t.kernel.created < 2 ^ 32)
    (idle : t.spawn = .idle) : t.Conserved := by
  have steady := steady_physical run
  exact (steady.spaces few).conserved steady.table idle

theorem frames_conserved_spawned : ∃ t, Run (KernelStep physical) (bootSystem zeroImage)
    ([.shell] ++ spawnEvents) t ∧
    t.Conserved := by
  obtain ⟨t, spawned, -, -, -, run⟩ := booted_run physical_reaches (fun _ _ => trivial) zeroImage
  exact ⟨t, run, frames_conserved run (by rw [spawned.created]; decide) spawned.spawn⟩

end NovaKernel
