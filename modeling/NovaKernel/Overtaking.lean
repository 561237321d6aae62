import NovaKernel.Ticks

set_option autoImplicit false

namespace NovaKernel

open RoundRobin Transition

def Waits (u : Nat) (s : System) (_ : KernelEvent) : Prop := s.kernel.readySlots u = true

theorem waiting_run {acc : Access} {s s' : System} {events : List KernelEvent} {u t : Nat}
    (other : u ≠ t) (table : Table s.kernel) (start : s.kernel.current = t)
    (run : Run (Guarded (Waits u) (KernelStep acc)) s events s')
    (skipped : ∀ event ∈ events, event.dispatched ≠ some u) :
    Table s'.kernel ∧ (s'.kernel.current = t ∨ Between t s'.kernel.current u) := by
  induction run with
  | nil => exact ⟨table, .inl start⟩
  | snoc _ taken ih =>
    obtain ⟨table', place⟩ := ih fun event member => skipped event (List.mem_append_left _ member)
    obtain ⟨waits, step⟩ := taken
    refine ⟨table_step table' step, ?_⟩
    rcases current_step table' step with ⟨-, same⟩ | ⟨dispatched, ready, follows, others⟩
    · rwa [same]
    · have notNext : _ ≠ u := fun same =>
        skipped _ (List.mem_append_right _ List.mem_cons_self) (dispatched.trans (congrArg some same))
      rcases place with here | between
      · have waiting : ready u = true := (others u (by omega)).trans waits
        rw [here] at follows
        exact .inr ((follows.first waiting).resolve_left notNext)
      · have waiting : ready u = true := (others u (Ne.symm between.ne_right)).trans waits
        exact .inr ((follows.between waiting between).resolve_left notNext)

namespace Kernel

variable {acc : Access} {k k' : Kernel} {a : Arrival} {u : Nat}

theorem modify_pid {slot : Nat} {change : Task → Task} (kept : ∀ t, (change t).pid = t.pid)
    (u : Nat) :
    ((k.modify slot change).tasks u).pid = (k.tasks u).pid := by
  by_cases here : u = slot
  · subst here
    simp [modify, kept]
  · simp [modify, Function.update_of_ne here]

theorem Served.pid_kept (served : k.Served acc a k') (ready : (k.tasks u).ready = true) :
    (k'.tasks u).pid = (k.tasks u).pid := by
  cases served with
  | ignored => rfl
  | kept => exact taken_pid u
  | charged =>
    refine (modify_pid ?_ u).trans (taken_pid u)
    exact fun _ => rfl
  | pid => exact taken_pid u
  | slept =>
    rw [setEax_tasks]
    refine (modify_pid ?_ u).trans (taken_pid u)
    exact fun _ => rfl
  | called _ call =>
    obtain ⟨m, value, -, rfl⟩ := call
    exact taken_pid u
  | resolved => rfl
  | forked _ _ _ exit =>
    have kept := exit.task_kept (u := u) (by simpa using ready)
    exact (congrArg Task.pid kept).trans (taken_pid u)

theorem slicedTasks_pid (k : Kernel) (frame next i : Nat) :
    (k.slicedTasks frame next i).pid = (k.tasks i).pid := by
  unfold slicedTasks
  by_cases here : i = next <;> by_cases old : i = k.current <;> by_cases self : next = k.current <;>
    simp_all [Function.update_apply, parked]

theorem exited_pid (k : Kernel) (next : Nat) (s : Sys) (i : Nat) :
    ((k.exited next s).tasks i).pid = (k.tasks i).pid := by
  unfold exited deadTasks
  by_cases here : i = next <;> by_cases old : i = k.current <;> simp_all [Function.update_of_ne]

theorem Dispatches.pid_kept (dispatches : k.Dispatches acc a k') (u : Nat) :
    (k'.tasks u).pid = (k.tasks u).pid := by
  cases dispatches with
  | expired => exact (slicedTasks_pid _ _ _ u).trans (taken_pid u)
  | exits => exact (exited_pid _ _ _ u).trans (taken_pid u)
  | killed => exact exited_pid _ _ _ u

end Kernel

theorem pid_step {acc : Access} {s t : System} {event : KernelEvent} {u : Nat}
    (table : Table s.kernel) (ready : s.kernel.readySlots u = true)
    (step : KernelStep acc s event t) :
    (t.kernel.tasks u).pid = (s.kernel.tasks u).pid := by
  cases scheduler_step table step with
  | returned _ served => exact served.pid_kept ready
  | dispatched _ dispatches => exact dispatches.pid_kept u
  | created _ _ exit => exact congrArg Task.pid (exit.task_kept ready)
  | other same => rw [same]

theorem pid_run {acc : Access} {s s' : System} {events : List KernelEvent} {u : Nat}
    (table : Table s.kernel) (run : Run (Guarded (Waits u) (KernelStep acc)) s events s') :
    (s'.kernel.tasks u).pid = (s.kernel.tasks u).pid := by
  induction run with
  | nil => rfl
  | snoc earlier taken ih =>
    have table' := table_run table (earlier.mono fun _ _ _ step => step.2)
    exact (pid_step table' taken.1 taken.2).trans ih

/-- Between two dispatches of a slot every other slot that stays ready is dispatched, and a slot is
dispatched again at once only when no other is ready. -/
theorem roundRobin_never_overtakes {acc : Access} {image : BootImage} {before : List KernelEvent}
    {s s₁ : System} {event : KernelEvent} {t : Nat}
    (reached : Run (KernelStep acc) (bootSystem image) before s) (step : KernelStep acc s event s₁)
    (dispatched : event.dispatched = some t) :
    (t = s.kernel.current → ∀ u, u ≠ t → (s.kernel.tasks u).ready = false) ∧
      ∀ (events : List KernelEvent) (s₂ s₃ : System) (again : KernelEvent) (u : Nat), u ≠ t →
        Run (Guarded (Waits u) (KernelStep acc)) s₁ events s₂ → Waits u s₂ again →
        KernelStep acc s₂ again s₃ → again.dispatched = some t →
        (s₂.kernel.tasks u).pid = (s₁.kernel.tasks u).pid ∧
          ∃ between ∈ events, between.dispatched = some u := by
  have table := table_run (table_boot image) reached
  have current : s₁.kernel.current = t ∧ ∃ ready, Follows ready s.kernel.current t ∧
      ∀ u, u ≠ s.kernel.current → ready u = s.kernel.readySlots u := by
    rcases current_step table step with ⟨none, -⟩ | ⟨some', ready, follows, others⟩
    · exact absurd (dispatched.symm.trans none) (by simp)
    · obtain rfl := Option.some.inj (dispatched.symm.trans some')
      exact ⟨rfl, ready, follows, others⟩
  constructor
  · rintro rfl u other
    obtain ⟨-, ready, follows, others⟩ := current
    exact (others u other).symm.trans (follows.alone other)
  · intro events s₂ s₃ again u other run waits step' dispatched'
    refine ⟨pid_run (table_step table step) run, ?_⟩
    by_contra skipped
    simp only [not_exists, not_and] at skipped
    obtain ⟨table', place⟩ := waiting_run other (table_step table step) current.1 run skipped
    rcases current_step table' step' with ⟨none, -⟩ | ⟨some', ready, follows, others⟩
    · exact absurd (dispatched'.symm.trans none) (by simp)
    · obtain rfl := Option.some.inj (dispatched'.symm.trans some')
      rcases place with here | between
      · have waiting : ready u = true := (others u (by omega)).trans waits
        rw [← here] at follows other
        exact absurd (waiting.symm.trans (follows.alone other)) (by simp)
      · have waiting : ready u = true := (others u (Ne.symm between.ne_right)).trans waits
        rcases follows.between waiting between with same | still
        · exact other same.symm
        · exact still.ne rfl

theorem roundRobin_never_overtakes_threads :
    ∃ (before events : List KernelEvent) (s s₁ s₂ s₃ : System) (event again : KernelEvent),
      Run (KernelStep translated) (bootSystem zeroImage) before s ∧
        KernelStep translated s event s₁ ∧
      event.dispatched = some 1 ∧ Run (Guarded (Waits 2) (KernelStep translated)) s₁ events s₂ ∧
      KernelStep translated s₂ again s₃ ∧ again.dispatched = some 1 ∧
      ∃ between ∈ events, between.dispatched = some 2 := by
  have waits : ∀ t event u, Guarded (AllReady 3) (KernelStep translated) t event u →
      Guarded (Waits 2) (KernelStep translated) t event u :=
        fun t event u taken => ⟨taken.1 2 (by decide), taken.2⟩
  have weaken : ∀ t event u, Guarded (AllReady 3) (KernelStep translated) t event u →
      KernelStep translated t event u := fun t event u taken => taken.2
  have booted := Run.single (enabled_step translated zeroImage)
  have turns := enabled_turns zeroImage
  have current : (enabledSystem zeroImage).kernel.current = 0 := by
    obtain ⟨heap, booted, -⟩ := boot_kernel zeroImage
    exact congrArg Kernel.current booted
  obtain ⟨events₁, event, t₁, run₁, turns₁, -, -, dispatched, current₁, -⟩ :=
    turns.turn translated 1 (by simp [current]) (by simp [current])
  obtain ⟨events₂, event₂, t₂, run₂, turns₂, -, -, -, current₂, -⟩ :=
    turns₁.turn translated 2 (by simp [current₁]) (by simp [current₁])
  obtain ⟨events₃, event₃, t₃, run₃, turns₃, -, -, -, current₃, -⟩ :=
    turns₂.turn translated 0 (by simp [current₂]) (by simp [current₂])
  obtain ⟨events₄, again, t₄, run₄, turns₄, -, -, dispatched', -⟩ :=
    turns₃.turn translated 1 (by simp [current₃]) (by simp [current₃])
  obtain ⟨s, earlier, step⟩ := run₁.last
  obtain ⟨s₂, later, step'⟩ := run₄.last
  have reached := booted.append (earlier.mono weaken)
  have interval := ((run₂.append run₃).append later).mono waits
  exact ⟨_, _, s, t₁, s₂, t₄, event, again, reached, step.2, dispatched, interval, step'.2,
    dispatched', ((roundRobin_never_overtakes reached step.2 dispatched).2 _ s₂ t₄ again 2 (by decide) interval
      (step'.1 2 (by decide)) step'.2 dispatched').2⟩

end NovaKernel
