import NovaKernel.ReturnedInterrupts

set_option autoImplicit false

namespace NovaKernel

open Machine Statements Transition

inductive ShellCall
  | kmalloc (size : Nat)
  | kfree (ptr : Nat)
  | createAddrSpace
  | mapSegment (vaddr nbytes : Nat)
  | mapStack
  | createTask
  | destroyAddrSpace

-- What is left of a call ends with the next stage of `user_spawn` and the shell's buffers.
abbrev Remaining : Type := Code Kernel (Spawn × Finset Nat)

inductive Calls (acc : Access) (s : System) : ShellCall → Remaining → Prop
  | kmalloc {size : Nat} :
      s.spawn = .idle → size ≤ heapEnd - heapStart →
      Calls acc s (.kmalloc size) (Stepwise.kmalloc size >>= fun ptr =>
        return (s.spawn, ptr.elim s.buffers (insert · s.buffers)))
  | kfree {ptr : Nat} :
      s.spawn = .idle → ptr ∈ s.buffers →
      Calls acc s (.kfree ptr) (Stepwise.kfree ptr >>= fun _ => return (s.spawn, s.buffers.erase ptr))
  | createAddrSpace :
      s.spawn = .idle →
      Calls acc s .createAddrSpace (Stepwise.createAddrSpace acc >>= fun cr3 =>
        return (cr3.elim .idle .created, s.buffers))
  | mapSegment {cr3 old vaddr nbytes : Nat} :
      s.spawn = .loading cr3 old → userTextBase ≤ vaddr → vaddr + nbytes ≤ userStackTop →
      Calls acc s (.mapSegment vaddr nbytes) (Stepwise.mapUserRegion acc cr3 vaddr nbytes >>= fun _ =>
        return (s.spawn, s.buffers))
  | mapStack {cr3 old entry : Nat} :
      s.spawn = .loaded cr3 old entry →
      Calls acc s .mapStack (Stepwise.mapUserRegion acc cr3 (userStackTop - 0x2000) 0x2000 >>= fun ok =>
        return (if ok then .stacked cr3 old entry else .failing cr3 old, s.buffers))
  | createTask {cr3 old entry : Nat} :
      s.spawn = .stacked cr3 old entry →
      Calls acc s .createTask (Stepwise.taskCreateUser entry cr3 >>= fun pid =>
        return (.finishing cr3 old pid, s.buffers))
  | destroyAddrSpace {cr3 : Nat} :
      s.spawn = .dropping cr3 →
      Calls acc s .destroyAddrSpace (Stepwise.destroyAddrSpace acc cr3 >>= fun _ => return (.idle, s.buffers))

-- The events of the steps that stand for the whole call.
def ShellCall.Ends : ShellCall → KernelEvent → Prop
  | .kmalloc _, event => event = .shell
  | .kfree _, event => event = .shell
  | .createTask, event => ∃ cr3 old pid, event = .spawn (.finishing cr3 old pid)
  | _, event => ∃ stage, event = .spawn stage ∧ ∀ cr3 old pid, stage ≠ .finishing cr3 old pid

def System.left (s : System) (k : Kernel) (stage : Spawn) (buffers : Finset Nat) : System :=
  { s with kernel := k, spawn := stage, buffers := buffers }

structure Interleaved where
  system : System
  -- The call the shell is in.
  call : Option (ShellCall × Remaining)

inductive InterleavedEvent
  | kernel (event : KernelEvent)
  | begins (call : ShellCall)
  | runs
  | ends
  | stray

/-- The steps of the kernel with the calls of the shell statement by statement: between two statements an interrupt
may come, and dispatch other tasks. The console, file and shell routines are not in the model, and those that
store outside their buffers may do anything. -/
inductive InterleavedStep (acc : Access) : Interleaved → InterleavedEvent → Interleaved → Prop
  | kernel {f : Interleaved} {t : System} {event : KernelEvent} :
      KernelStep acc f.system event t →
      (f.call ≠ none → f.system.kernel.current = 0 → ∃ regs cr2 ending, event = .interrupt regs cr2 ending) →
      InterleavedStep acc f (.kernel event) ⟨t, f.call⟩
  | begins {s : System} {call : ShellCall} {code : Remaining} :
      s.kernel.current = 0 → Calls acc s call code →
      InterleavedStep acc ⟨s, none⟩ (.begins call) ⟨s, some (call, code)⟩
  | runs {s : System} {call : ShellCall} {act : Kernel → Kernel} {next : Kernel → Remaining} :
      s.kernel.current = 0 →
      InterleavedStep acc ⟨s, some (call, .step act next)⟩ .runs
        ⟨s.setKernel (act s.kernel), some (call, next s.kernel)⟩
  | ends {s : System} {call : ShellCall} {stage : Spawn} {buffers : Finset Nat} :
      s.kernel.current = 0 →
      InterleavedStep acc ⟨s, some (call, .done (stage, buffers))⟩ .ends ⟨s.left s.kernel stage buffers, none⟩
  | stray {f : Interleaved} {k : Kernel} :
    InterleavedStep acc f .stray ⟨f.system.setKernel k, f.call⟩

section Calls

variable {acc : Access} {s : System} {call : ShellCall} {code : Remaining} {stage : Spawn}
    {buffers : Finset Nat}
  {k : Kernel}

theorem Calls.step (calls : Calls acc s call code) (shell : s.kernel.current = 0)
    (mem : Memory s.kernel s.buffers) (ran : code.run s.kernel = some ((stage, buffers), k)) :
    ∃ event, call.Ends event ∧ KernelStep acc s event (s.left k stage buffers) := by
  cases calls with
  | @kmalloc size idle small =>
    rw [Code.run_bind, Stepwise.kmalloc_run] at ran
    rcases returned : s.kernel.kmalloc size with ⟨ptr, k'⟩
    rw [returned] at ran
    obtain ⟨result, rfl⟩ := Prod.mk.inj (Option.some.inj ran)
    obtain ⟨rfl, rfl⟩ := Prod.mk.inj result
    exact ⟨_, rfl, .alloc shell idle small returned⟩
  | @kfree ptr idle member =>
    rw [Code.run_bind, Stepwise.kfree_run _ mem.sound (mem.buffers ptr member).1] at ran
    obtain ⟨result, rfl⟩ := Prod.mk.inj (Option.some.inj ran)
    obtain ⟨rfl, rfl⟩ := Prod.mk.inj result
    exact ⟨_, rfl, .free shell idle member⟩
  | createAddrSpace idle =>
    rw [Code.run_bind, Stepwise.createAddrSpace_run] at ran
    obtain ⟨⟨cr3, k'⟩, returned, last⟩ := Option.bind_eq_some_iff.mp ran
    obtain ⟨result, rfl⟩ := Prod.mk.inj (Option.some.inj last)
    obtain ⟨rfl, rfl⟩ := Prod.mk.inj result
    cases cr3 with
    | none => exact ⟨_, ⟨_, rfl, by simp⟩, .notCreated shell idle returned⟩
    | some cr3 => exact ⟨_, ⟨_, rfl, by simp⟩, .created shell idle returned⟩
  | @mapSegment cr3 old vaddr nbytes loading low high =>
    rw [Code.run_bind, Stepwise.mapUserRegion_run] at ran
    obtain ⟨⟨ok, k'⟩, returned, last⟩ := Option.bind_eq_some_iff.mp ran
    obtain ⟨result, rfl⟩ := Prod.mk.inj (Option.some.inj last)
    obtain ⟨rfl, rfl⟩ := Prod.mk.inj result
    rw [loading]
    exact ⟨_, ⟨_, rfl, by simp⟩, .mapped shell loading low high returned⟩
  | @mapStack cr3 old entry loaded =>
    rw [Code.run_bind, Stepwise.mapUserRegion_run] at ran
    obtain ⟨⟨ok, k'⟩, returned, last⟩ := Option.bind_eq_some_iff.mp ran
    obtain ⟨result, rfl⟩ := Prod.mk.inj (Option.some.inj last)
    obtain ⟨rfl, rfl⟩ := Prod.mk.inj result
    cases ok with
    | true => exact ⟨_, ⟨_, rfl, by simp⟩, .stacked shell loaded returned⟩
    | false => exact ⟨_, ⟨_, rfl, by simp⟩, .notStacked shell loaded returned⟩
  | @createTask cr3 old entry stacked =>
    rw [Code.run_bind, Stepwise.taskCreateUser_run] at ran
    rcases returned : s.kernel.taskCreateUser entry cr3 with ⟨pid, k'⟩
    rw [returned] at ran
    obtain ⟨result, rfl⟩ := Prod.mk.inj (Option.some.inj ran)
    obtain ⟨rfl, rfl⟩ := Prod.mk.inj result
    exact ⟨_, ⟨cr3, old, pid, rfl⟩, .taskCreated shell stacked returned⟩
  | @destroyAddrSpace cr3 dropping =>
    rw [Code.run_bind, Stepwise.destroyAddrSpace_run] at ran
    obtain ⟨r, called, last⟩ := Option.bind_eq_some_iff.mp ran
    obtain ⟨k', returned, rfl⟩ := Option.map_eq_some_iff.mp called
    obtain ⟨result, rfl⟩ := Prod.mk.inj (Option.some.inj last)
    obtain ⟨rfl, rfl⟩ := Prod.mk.inj result
    exact ⟨_, ⟨_, rfl, by simp⟩, .dropped shell dropping returned⟩

theorem Calls.ignores (calls : Calls acc s call code) (table : Table s.kernel)
    (mem : Memory s.kernel s.buffers) :
    code.Ignores Kernel.Interrupted s.kernel := by
  cases calls with
  | kmalloc => exact .bind (Stepwise.kmalloc_ignores mem.sound _) fun _ _ _ => trivial
  | kfree _ member =>
    exact .bind (Stepwise.kfree_ignores mem.sound (mem.buffers _ member).1) fun _ _ _ => trivial
  | createAddrSpace => exact .bind (Stepwise.createAddrSpace_ignores acc) fun _ _ _ => trivial
  | mapSegment => exact .bind (Stepwise.on_machine _) fun _ _ _ => trivial
  | mapStack => exact .bind (Stepwise.on_machine _) fun _ _ _ => trivial
  | createTask =>
    exact .bind (Stepwise.taskCreateUser_ignores table mem.sound _ _) fun _ _ _ => trivial
  | destroyAddrSpace => exact .bind (Stepwise.destroyAddrSpace_ignores acc _) fun _ _ _ => trivial

end Calls

-- A tick takes the CPU from the shell.
def Preempts (f : Interleaved) : InterleavedEvent → Prop
  | .kernel event => event.dispatched ≠ none ∧ f.system.kernel.current = 0
  | _ => False

def InBuffers (_ : Interleaved) (event : InterleavedEvent) : Prop := event ≠ .stray

/-- No tick takes the CPU from the shell inside one of its calls, and all routines stay inside their
buffers. -/
def Undisturbed (f : Interleaved) (event : InterleavedEvent) : Prop :=
  (Preempts f event → f.call = none) ∧ InBuffers f event

theorem undisturbed_begins {f : Interleaved} {call : ShellCall} : Undisturbed f (.begins call) :=
  ⟨fun preempts => preempts.elim, by simp [InBuffers]⟩

theorem undisturbed_ends {f : Interleaved} : Undisturbed f .ends :=
  ⟨fun preempts => preempts.elim, by simp [InBuffers]⟩

def InterleavedEvent.Means : InterleavedEvent → KernelEvent → Prop
  | .kernel event, whole => whole = event
  | .begins call, whole => call.Ends whole
  | _, _ => False

/-- The condition on the steps with whole calls. -/
def Whole (condition : System → KernelEvent → Prop) (f : Interleaved)
    (event : InterleavedEvent) : Prop :=
  ∀ whole, event.Means whole → condition f.system whole

-- What every invariant here contains.
structure Based (s : System) : Prop where
  table : Table s.kernel
  mem : Memory s.kernel s.buffers
  stack : (s.kernel.tasks 0).stackBottom = 0

theorem Based.runs {s : System} (based : Based s) (shell : s.kernel.current = 0) :
    s.kernel.ShellRuns :=
  ⟨shell, (based.table.threads 0 (by decide)).2, based.stack, based.mem.bootStack, based.table.bounded⟩

/-- An invariant of the steps with whole calls that interrupts of the shell do not disturb. -/
structure Invariant (acc : Access) (condition : System → KernelEvent → Prop)
    (inv : System → Prop) : Prop where
  based : ∀ s, inv s → Based s
  step : ∀ s event t, inv s → condition s event → KernelStep acc s event t → inv t
  interrupted : ∀ s k, inv s → s.kernel.current = 0 → s.kernel.Interrupted k → inv (s.setKernel k)

/-- The invariant holds, or it held when the shell's call began, and only interrupts that returned have come
between its statements. -/
inductive Ongoing (acc : Access) (condition : System → KernelEvent → Prop) (inv : System → Prop) :
    Interleaved → Prop
  | between {s : System} : inv s → Ongoing acc condition inv ⟨s, none⟩
  | inside {s : System} {call : ShellCall} {code rest : Remaining} {k k' : Kernel} :
      inv s → s.kernel.current = 0 → Calls acc s call code →
        (∀ whole, call.Ends whole → condition s whole) →
      code.Moves s.kernel rest k → rest.Ignores Kernel.Interrupted k → k.Interrupted k' →
      Ongoing acc condition inv ⟨s.setKernel k', some (call, rest)⟩

section Ongoing

variable {acc : Access} {condition : System → KernelEvent → Prop} {inv : System → Prop}
    {f g : Interleaved}
  {event : InterleavedEvent} (invariant : Invariant acc condition inv)
include invariant

theorem ongoing_step (ongoing : Ongoing acc condition inv f) (undisturbed : Undisturbed f event)
    (whole : Whole condition f event) (step : InterleavedStep acc f event g) :
    Ongoing acc condition inv g := by
  cases ongoing with
  | @between s holds =>
    cases step with
    | kernel step => exact .between (invariant.step _ _ _ holds (whole _ rfl) step)
    | begins shell calls =>
      have based := invariant.based s holds
      have between := (based.runs shell).interrupted
      exact .inside (s := s) holds shell calls whole .refl
        (calls.ignores based.table based.mem) between
    | stray => exact absurd rfl undisturbed.2
  | @inside s call code rest k k' holds shell calls met moves ignores between =>
    have current : k'.current = 0 := between.runs.current
    cases step with
    | @kernel _ t event step interrupts =>
      obtain ⟨regs, cr2, ending, rfl⟩ := interrupts (by simp) current
      have stays : (KernelEvent.interrupt regs cr2 ending).dispatched = none := by
        by_contra dispatched
        exact absurd (undisturbed.1 ⟨dispatched, current⟩) (by simp)
      generalize called : KernelEvent.interrupt regs cr2 ending = event at step stays
      cases step with
      | @returned a k'' arrives returned =>
        exact .inside (s := s) holds shell calls met moves ignores
          (between.trans (interrupt_interrupted between.runs arrives returned))
      | @unwound a k'' esp =>
        rw [endingOf_dispatched] at stays
        cases stays
      | userStore => cases called
      | cacheFill => cases called
      | threadStore => cases called
      | alloc => cases called
      | free => cases called
      | bufferStore => cases called
      | sti => cases called
      | notCreated => cases called
      | created => cases called
      | entered => cases called
      | mapped => cases called
      | filled => cases called
      | loaded => cases called
      | rejected => cases called
      | stacked => cases called
      | notStacked => cases called
      | taskCreated => cases called
      | finished => cases called
      | notFinished => cases called
      | aborted => cases called
      | dropped => cases called
    | @runs _ _ act next =>
      obtain ⟨effect, goes⟩ := ignores.1 k' between
      change Ongoing acc condition inv ⟨s.setKernel (act k'), some (call, next k')⟩
      rw [goes]
      exact .inside holds shell calls met moves.last ignores.2 effect
    | @ends _ _ stage buffers =>
      obtain ⟨event, ends, taken⟩ := calls.step shell (invariant.based s holds).mem moves.run
      have after := invariant.step _ _ _ holds (met event ends) taken
      exact .between (invariant.interrupted _ k' after between.1.current between)
    | stray => exact absurd rfl undisturbed.2

theorem ongoing_run {s : System} {events : List InterleavedEvent} (holds : inv s)
    (run : Run (Guarded Undisturbed (Guarded (Whole condition) (InterleavedStep acc))) ⟨s, none⟩ events f) :
    Ongoing acc condition inv f :=
  run.invariant (Ongoing acc condition inv)
    (fun _ _ _ ongoing taken => ongoing_step invariant ongoing taken.1 taken.2.1 taken.2.2) (.between holds)

end Ongoing

theorem Ongoing.between_calls {acc : Access} {condition : System → KernelEvent → Prop}
    {inv : System → Prop} {f : Interleaved} (ongoing : Ongoing acc condition inv f)
    (away : f.system.kernel.current ≠ 0) : inv f.system := by
  cases ongoing with
  | between holds => exact holds
  | inside _ _ _ _ _ _ between => exact absurd between.runs.current away

section Runs

variable {acc : Access} {condition : System → KernelEvent → Prop} {s t : System}

theorem interleaved_run {events : List KernelEvent}
    (run : Run (Guarded condition (KernelStep acc)) s events t) :
    Run (Guarded Undisturbed (Guarded (Whole condition) (InterleavedStep acc))) ⟨s, none⟩ (events.map .kernel)
      ⟨t, none⟩ := by
  induction run with
  | nil => exact .nil
  | snoc _ taken ih =>
    rw [List.map_append]
    refine ih.snoc ⟨⟨fun _ => rfl, by simp [InBuffers]⟩, fun whole means => ?_,
      .kernel taken.2 fun inside => absurd rfl inside⟩
    obtain rfl : whole = _ := means
    exact taken.1

theorem undisturbed_run {events : List KernelEvent} (run : Run (KernelStep acc) s events t) :
    Run (Guarded Undisturbed (InterleavedStep acc)) ⟨s, none⟩ (events.map .kernel) ⟨t, none⟩ := by
  have whole : Run (Guarded (fun _ _ => True) (KernelStep acc)) s events t :=
    run.mono fun _ _ _ taken => ⟨trivial, taken⟩
  exact (interleaved_run whole).mono fun _ _ _ taken => ⟨taken.1, taken.2.2⟩

theorem inBuffers_run {f g : Interleaved} {events : List InterleavedEvent}
    (run : Run (Guarded Undisturbed (InterleavedStep acc)) f events g) :
    Run (Guarded InBuffers (InterleavedStep acc)) f events g :=
  run.mono fun _ _ _ taken => ⟨taken.1.2, taken.2⟩

theorem interrupted_run {events : List KernelEvent} (run : Run (KernelStep acc) s events t)
    (interrupts : ∀ event ∈ events, ∃ regs cr2 ending, event = .interrupt regs cr2 ending)
    (call : Option (ShellCall × Remaining)) :
    Run (Guarded InBuffers (InterleavedStep acc)) ⟨s, call⟩ (events.map .kernel) ⟨t, call⟩ := by
  induction run with
  | nil => exact .nil
  | snoc _ taken ih =>
    rw [List.map_append]
    have earlier := ih fun event member => interrupts event (List.mem_append_left _ member)
    refine earlier.snoc ⟨by simp [InBuffers], .kernel taken fun _ _ => ?_⟩
    exact interrupts _ (List.mem_append_right _ List.mem_cons_self)

theorem returned_run {events : List KernelEvent} (run : Run (KernelStep acc) s events t)
    (returned : ∀ event ∈ events, ∃ regs cr2, event = .interrupt regs cr2 .returned)
    (call : Option (ShellCall × Remaining)) :
    Run (Guarded Undisturbed (InterleavedStep acc)) ⟨s, call⟩ (events.map .kernel) ⟨t, call⟩ := by
  induction run with
  | nil => exact .nil
  | snoc _ taken ih =>
    rw [List.map_append]
    obtain ⟨regs, cr2, rfl⟩ := returned _ (List.mem_append_right _ List.mem_cons_self)
    have earlier := ih fun event member => returned event (List.mem_append_left _ member)
    exact earlier.snoc ⟨⟨fun preempts => absurd rfl preempts.1, by simp [InBuffers]⟩,
      .kernel taken fun _ _ => ⟨regs, cr2, .returned, rfl⟩⟩

variable (acc condition) in
theorem moves_run {code rest : Remaining} {k k' : Kernel} (moves : code.Moves k rest k')
    (runs : k.ShellRuns) (ignores : code.Ignores Kernel.Interrupted k) (s : System)
    (call : ShellCall) :
    ∃ n, Run (Guarded Undisturbed (Guarded (Whole condition) (InterleavedStep acc)))
      ⟨s.setKernel k, some (call, code)⟩ (List.replicate n .runs) ⟨s.setKernel k', some (call, rest)⟩ := by
  induction moves with
  | refl => exact ⟨0, .nil⟩
  | @step act next k code k' _ ih =>
    obtain ⟨n, run⟩ := ih (ignores.1 k runs.interrupted).1.1 ignores.2
    have first : InterleavedStep acc ⟨s.setKernel k, some (call, .step act next)⟩ .runs
        ⟨s.setKernel (act k), some (call, next k)⟩ := .runs runs.current
    exact ⟨n + 1, run.cons ⟨⟨fun preempts => preempts.elim, by simp [InBuffers]⟩, fun _ means => means.elim, first⟩⟩

end Runs

end NovaKernel
