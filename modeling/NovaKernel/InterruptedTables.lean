import NovaKernel.Interleaving
import NovaKernel.ProcessRuns

set_option autoImplicit false

namespace NovaKernel

open Machine Mm Statements Transition

theorem foldlM_total {σ β : Type} {f : σ → β → Option σ} (total : ∀ s b, ∃ t, f s b = some t)
    (l : List β) (s : σ) :
    ∃ t, l.foldlM f s = some t := by
  induction l generalizing s with
  | nil => exact ⟨s, rfl⟩
  | cons b l ih =>
    obtain ⟨t, here⟩ := total s b
    rw [List.foldlM_cons, here]
    exact ih t

theorem pagingDestroyAddrSpace_total (m : Machine) (cr3 : Nat) :
    ∃ m', pagingDestroyAddrSpace physical m cr3 = some m' := by
  have table : ∀ (m : Machine) d, ∃ m', releaseTable physical cr3 m d = some m' := fun m d => by
    obtain ⟨m', released⟩ :=
      foldlM_total (f := releaseUserPage physical (frameOf (m.mem cr3 d))) (fun _ _ => ⟨_, rfl⟩) userPages m
    have loaded : m.load physical cr3 d = some (m.mem cr3 d) := rfl
    simp only [releaseTable, loaded, Option.bind_eq_bind, Option.bind_some]
    split
    · exact ⟨m, rfl⟩
    · split
      · exact ⟨m, rfl⟩
      · rw [released]
        exact ⟨_, rfl⟩
  unfold pagingDestroyAddrSpace
  split
  · exact ⟨m, rfl⟩
  · obtain ⟨m', released⟩ := foldlM_total table (List.range 1024) m
    simp only [released]
    exact ⟨_, rfl⟩

namespace Stepwise

theorem frameAllocFrom_moves {m : Machine} {n i f : Nat}
    (used : ∀ j, i ≤ j → j < f → m.mm.bitmap j = true) (free : m.mm.bitmap f = false) (low : i ≤ f)
    (inside : f < i + n) :
    (frameAllocFrom n i).Moves m (setFrameUsed f >>= fun _ => return some f) m := by
  induction n generalizing i with
  | zero => omega
  | succ n ih =>
    refine .step ?_
    change Code.Moves (if m.mm.bitmap i = true then frameAllocFrom n (i + 1)
      else setFrameUsed i >>= fun _ => return some i) m _ m
    by_cases here : i = f
    · subst here
      rw [if_neg (by rw [free]; simp)]
      exact .refl
    · rw [if_pos (used i (Nat.le_refl i) (by omega))]
      exact ih (fun j above below => used j (by omega) below) (by omega) (by omega)

def tablesFrom (acc : Access) (pd : Option Nat) : Code Machine (Option Nat) := do
  let pt ← frameAlloc
  match pd, pt with
  | some pd, some pt =>
    copyPage acc pt kernelPt
    .each (fun i => store acc pt i 0) userPages
    copyPage acc pd kernelPd
    store acc pd 0 (entry pt 7)
    return some pd
  | pd, pt =>
    freeTable pd
    freeTable pt
    return none

def takeTables (acc : Access) (f : Nat) : Code Machine (Option Nat) :=
  (setFrameUsed f >>= fun _ => return some f) >>= tablesFrom acc

theorem takeTables_run {m : Machine} {f n : Nat} (below : n < 0x300)
    (filled : Filled { m with mm := { m.mm with bitmap := Function.update m.mm.bitmap f true } } n) :
    ∃ m', (takeTables physical f).run m = some (some f, m') := by
  have allocated := filled_frameAlloc filled below
  have copied : ∀ (m : Machine) (dst src : Nat), ∃ m', m.copyPage physical dst src = some m' :=
    fun _ _ _ => ⟨_, rfl⟩
  have cleared : ∀ (m : Machine) (pt : Nat), ∃ m', clearUserWindow physical m pt = some m' :=
    fun m pt => foldlM_total (fun _ _ => ⟨_, rfl⟩) userPages m
  generalize takeFrame _ n = m₁ at allocated
  obtain ⟨m₂, table⟩ := copied m₁ n kernelPt
  obtain ⟨m₃, window⟩ := cleared m₂ n
  obtain ⟨m₄, directory⟩ := copied m₃ f kernelPd
  refine ⟨m₄.setWord f 0 (entry n 7), ?_⟩
  simp only [takeTables, tablesFrom, setFrameUsed, Code.run_bind, Code.run_change, Code.run_pure,
    Option.bind_some, frameAlloc_run, allocated, copyPage_run, table, Option.map_some, clear_run,
    window, directory, store_run]
  rfl

def seenFrame (acc : Access) (f : Nat) (buffers : Finset Nat) : Remaining :=
  ((takeTables acc f).on machine >>= fun cr3 => do
    .change fun k => { k with sys := ⟨k.sys.machine, cr3.elim k.sys.live (insert · k.sys.live)⟩ }
    return cr3) >>= fun cr3 => return (cr3.elim .idle .created, buffers)

theorem createAddrSpace_moves {acc : Access} {k : Kernel} {f : Nat}
    (used : ∀ g < f, k.sys.machine.mm.bitmap g = true) (free : k.sys.machine.mm.bitmap f = false)
    (inside : f < frameCount) (buffers : Finset Nat) :
    (createAddrSpace acc >>= fun cr3 => return (cr3.elim .idle .created, buffers)).Moves k
      (seenFrame acc f buffers) k := by
  have found : frameAlloc.Moves k.sys.machine (setFrameUsed f >>= fun _ => return some f) k.sys.machine :=
    frameAllocFrom_moves (fun g _ below => used g below) free (Nat.zero_le f) (by omega)
  have call : (pagingCreateAddrSpace acc).Moves k.sys.machine (takeTables acc f) k.sys.machine :=
    found.bind (tablesFrom acc)
  have onMachine := call.on (p := machine) (s := k) rfl
  have created := onMachine.bind fun cr3 => do
    .change fun k => { k with sys := ⟨k.sys.machine, cr3.elim k.sys.live (insert · k.sys.live)⟩ }
    return cr3
  exact created.bind fun cr3 => return (cr3.elim Spawn.idle Spawn.created, buffers)

theorem seenFrame_ignores (acc : Access) (f : Nat) (buffers : Finset Nat) (k : Kernel) :
    (seenFrame acc f buffers).Ignores Kernel.Interrupted k := by
  refine .bind (.bind (on_machine _) fun cr3 k' _ => .changed ?_ trivial) fun _ _ _ => trivial
  rintro k'' ⟨runs, h', esp, saved, slice, frame, observed, same, rfl⟩
  exact ⟨runs.congr rfl rfl rfl rfl rfl, h', esp, saved, slice, frame, observed, same, rfl⟩

end Stepwise

open Stepwise

section Runs

variable {acc : Access} {s : System} (based : Based s) (shell : s.kernel.current = 0)
include based shell

theorem seen_run {condition : System → KernelEvent → Prop} {f : Nat} (idle : s.spawn = .idle)
    (met : ∀ whole, ShellCall.createAddrSpace.Ends whole → condition s whole)
    (used : ∀ g < f, s.kernel.sys.machine.mm.bitmap g = true)
    (free : s.kernel.sys.machine.mm.bitmap f = false) (inside : f < frameCount) :
    ∃ events, Run (Guarded Undisturbed (Guarded (Whole condition) (InterleavedStep acc))) ⟨s, none⟩ events
      ⟨s, some (.createAddrSpace, seenFrame acc f s.buffers)⟩ := by
  have calls : Calls acc s .createAddrSpace _ := .createAddrSpace idle
  have runs := based.runs shell
  obtain ⟨n, run⟩ := moves_run acc condition (createAddrSpace_moves used free inside s.buffers) runs
    (calls.ignores based.table based.mem) s .createAddrSpace
  have begins : InterleavedStep acc ⟨s, none⟩ (.begins .createAddrSpace) ⟨s, some (.createAddrSpace, _)⟩ :=
    .begins shell calls
  have first : Guarded Undisturbed (Guarded (Whole condition) (InterleavedStep acc)) ⟨s, none⟩
      (.begins .createAddrSpace) _ := ⟨undisturbed_begins, met, begins⟩
  exact ⟨_, run.cons first⟩

theorem taken_run {f n : Nat} (below : n < 0x300)
    (filled : Filled { s.kernel.sys.machine with
      mm := { s.kernel.sys.machine.mm with
        bitmap := Function.update s.kernel.sys.machine.mm.bitmap f true } } n)
    (buffers : Finset Nat) : ∃ events m, Run (Guarded Undisturbed (InterleavedStep physical))
      ⟨s, some (.createAddrSpace, seenFrame physical f buffers)⟩ events
      ⟨s.left { s.kernel with sys := ⟨m, insert f s.kernel.sys.live⟩ } (.created f) buffers, none⟩ := by
  have runs := based.runs shell
  obtain ⟨m, taken⟩ := takeTables_run below filled
  have ran : (seenFrame physical f buffers).run s.kernel =
      some ((.created f, buffers), { s.kernel with sys := ⟨m, insert f s.kernel.sys.live⟩ }) := by
    have here : machine.get s.kernel = s.kernel.sys.machine := rfl
    simp only [seenFrame, Code.run_bind, Code.run_on, here, taken, Option.map_some,
      Option.bind_some, Code.run_change, Code.run_pure]
    rfl
  obtain ⟨n, run⟩ := moves_run physical (fun _ _ => True) (Code.moves_of_run ran) runs
    (seenFrame_ignores physical f buffers s.kernel) s .createAddrSpace
  refine ⟨_, m, (run.mono fun _ _ _ taken => ⟨taken.1, taken.2.2⟩).snoc ⟨undisturbed_ends, ?_⟩⟩
  exact .ends (s := s.setKernel { s.kernel with sys := ⟨m, insert f s.kernel.sys.live⟩ }) shell

end Runs

end NovaKernel
