import Mathlib.Init

set_option autoImplicit false

namespace Statements

variable {σ τ α β : Type}

/-- A program that runs statement by statement. A statement acts on the state and goes on with what
it found there. -/
inductive Code (σ α : Type) : Type
  | done (a : α)
  | stuck
  | step (act : σ → σ) (next : σ → Code σ α)

structure Part (σ τ : Type) where
  get : σ → τ
  set : σ → τ → σ
  get_set : ∀ s t, get (set s t) = t
  set_set : ∀ s t u, set (set s t) u = set s u
  set_get : ∀ s, set s (get s) = s

namespace Code

def bind : Code σ α → (α → Code σ β) → Code σ β
  | done a, f => f a
  | stuck, _ => stuck
  | step act next, f => step act fun s => (next s).bind f

instance : Monad (Code σ) where
  pure := done
  bind := bind

-- One statement; `none` is a fault.
def atom (f : σ → Option (α × σ)) : Code σ α :=
  step (fun s => (f s).elim s Prod.snd) fun s => (f s).elim stuck fun r => done r.1

def read (f : σ → α) : Code σ α := step id fun s => done (f s)

def test (p : σ → Prop) [DecidablePred p] : Code σ Bool := read fun s => p s

def change (f : σ → σ) : Code σ Unit := step f fun _ => done ()

def each (body : β → Code σ Unit) : List β → Code σ Unit
  | [] => done ()
  | b :: rest => (body b).bind fun _ => each body rest

def on (p : Part σ τ) : Code τ α → Code σ α
  | done a => done a
  | stuck => stuck
  | step act next => step (fun s => p.set s (act (p.get s))) fun s => (next (p.get s)).on p

def run : Code σ α → σ → Option (α × σ)
  | done a, s => some (a, s)
  | stuck, _ => none
  | step act next, s => (next s).run (act s)

section Run

variable (s : σ)

@[simp] theorem run_done (a : α) : (done a).run s = some (a, s) := rfl

@[simp] theorem run_pure (a : α) : (pure a : Code σ α).run s = some (a, s) := rfl

@[simp] theorem run_read (f : σ → α) : (read f).run s = some (f s, s) := rfl

@[simp] theorem run_test (p : σ → Prop) [DecidablePred p] :
    (test p).run s = some (decide (p s), s) := rfl

@[simp] theorem run_change (f : σ → σ) : (change f).run s = some ((), f s) := rfl

@[simp] theorem run_atom (f : σ → Option (α × σ)) : (atom f).run s = f s := by
  rw [atom, run]
  cases f s <;> rfl

@[simp] theorem run_bind (c : Code σ α) (f : α → Code σ β) :
    (c >>= f).run s = (c.run s).bind fun r => (f r.1).run r.2 := by
  change (c.bind f).run s = _
  induction c generalizing s with
  | done a => rfl
  | stuck => rfl
  | step act next ih => exact ih s (act s)

@[simp] theorem run_on (p : Part σ τ) (c : Code τ α) :
    (c.on p).run s = (c.run (p.get s)).map fun r => (r.1, p.set s r.2) := by
  induction c generalizing s with
  | done a => simp [on, p.set_get]
  | stuck => rfl
  | step act next ih =>
    rw [on, run, ih, p.get_set, run]
    simp only [p.set_set]

theorem run_each {body : β → Code σ Unit} {f : σ → β → Option σ}
    (one : ∀ b s, (body b).run s = (f s b).map fun t => ((), t)) (l : List β) :
    (each body l).run s = (l.foldlM f s).map fun t => ((), t) := by
  induction l generalizing s with
  | nil => rfl
  | cons b l ih =>
    change (body b >>= fun _ => each body l).run s = _
    rw [run_bind, one, List.foldlM_cons]
    cases f s b with
    | none => rfl
    | some t => exact ih t

end Run

/-- Some statements of the program, one after the other. -/
inductive Moves : Code σ α → σ → Code σ α → σ → Prop
  | refl {c : Code σ α} {s : σ} : Moves c s c s
  | step {act : σ → σ} {next : σ → Code σ α} {s t : σ} {c : Code σ α} :
      Moves (next s) (act s) c t → Moves (.step act next) s c t

theorem Moves.trans {c d e : Code σ α} {s t u : σ} (first : Moves c s d t)
    (second : Moves d t e u) :
    Moves c s e u := by
  induction first with
  | refl => exact second
  | step _ ih => exact .step (ih second)

theorem Moves.last {c : Code σ α} {act : σ → σ} {next : σ → Code σ α} {s t : σ}
    (moves : Moves c s (.step act next) t) : Moves c s (next t) (act t) :=
  moves.trans (.step .refl)

theorem Moves.run {c d : Code σ α} {s t : σ} (moves : Moves c s d t) : c.run s = d.run t := by
  induction moves with
  | refl => rfl
  | step _ ih => exact ih

theorem Moves.bind {c d : Code σ α} {s t : σ} (moves : Moves c s d t) (f : α → Code σ β) :
    Moves (c >>= f) s (d >>= f) t := by
  induction moves with
  | refl => exact .refl
  | step _ ih => exact .step ih

theorem Moves.on {p : Part σ τ} {c d : Code τ α} {t u : τ} (moves : Moves c t d u) {s : σ}
    (here : p.get s = t) :
    Moves (c.on p) s (d.on p) (p.set s u) := by
  induction moves generalizing s with
  | refl =>
    rw [← here, p.set_get]
    exact .refl
  | @step act next t u c _ ih =>
    subst here
    have rest := ih (p.get_set s (act (p.get s)))
    rw [p.set_set] at rest
    exact .step rest

theorem moves_of_run {c : Code σ α} {s t : σ} {a : α} (ran : c.run s = some (a, t)) :
    Moves c s (done a) t := by
  induction c generalizing s with
  | done b =>
    obtain ⟨rfl, rfl⟩ := Prod.mk.inj (Option.some.inj ran)
    exact .refl
  | stuck => cases ran
  | step act next ih => exact .step (ih s ran)

/-- Each statement relates the states before and after it, and each result has the property. -/
def Keeps (related : σ → σ → Prop) (good : α → Prop) : Code σ α → Prop
  | done a => good a
  | stuck => True
  | step act next => ∀ s, related s (act s) ∧ (next s).Keeps related good

section Keeps

variable {related : σ → σ → Prop} {good : α → Prop} {fine : β → Prop}

theorem Keeps.bind {c : Code σ α} {f : α → Code σ β} (first : c.Keeps related good)
    (rest : ∀ a, good a → (f a).Keeps related fine) : (c >>= f).Keeps related fine := by
  change (c.bind f).Keeps related fine
  induction c with
  | done a => exact rest a first
  | stuck => trivial
  | step act next ih => exact fun s => ⟨(first s).1, ih s (first s).2⟩

theorem Keeps.result {c : Code σ α} (keeps : c.Keeps related good) (f : α → β) :
    (c >>= fun a => pure (f a)).Keeps related fun _ => True :=
  keeps.bind fun _ _ => trivial

theorem Keeps.changed {f : σ → σ} {g : Unit → Code σ β} (does : ∀ s, related s (f s))
    (rest : (g ()).Keeps related fine) : (change f >>= g).Keeps related fine :=
  fun s => ⟨does s, rest⟩

theorem Keeps.read {f : σ → α} {g : α → Code σ β} (refl : ∀ s, related s s)
    (rest : ∀ a, (g a).Keeps related fine) :
    (read f >>= g).Keeps related fine :=
  fun s => ⟨refl s, rest _⟩

theorem Keeps.test {p : σ → Prop} [DecidablePred p] {g : Bool → Code σ β} (refl : ∀ s, related s s)
    (rest : ∀ b, (g b).Keeps related fine) : (test p >>= g).Keeps related fine :=
  Keeps.read refl rest

theorem Keeps.atom {f : σ → Option (α × σ)} (refl : ∀ s, related s s)
    (does : ∀ s a t, f s = some (a, t) → related s t) (all : ∀ a, good a) :
    (atom f).Keeps related good := by
  intro s
  change related s ((f s).elim s Prod.snd) ∧ ((f s).elim stuck fun r => done r.1).Keeps related good
  cases ran : f s with
  | none => exact ⟨refl s, trivial⟩
  | some r => exact ⟨does s r.1 r.2 ran, all r.1⟩

theorem Keeps.on {p : Part σ τ} {related' : τ → τ → Prop} {c : Code τ α}
    (keeps : c.Keeps related' good) (part : ∀ s t, related' (p.get s) t → related s (p.set s t)) :
    (c.on p).Keeps related good := by
  induction c with
  | done a => exact keeps
  | stuck => trivial
  | step act next ih => exact fun s => ⟨part s _ (keeps _).1, ih _ (keeps _).2⟩

theorem Keeps.anything (c : Code σ α) : c.Keeps (fun _ _ => True) fun _ => True := by
  induction c with
  | done a => trivial
  | stuck => trivial
  | step act next ih => exact fun s => ⟨trivial, ih _⟩

theorem Moves.keeps {c d : Code σ α} {s t : σ} (moves : Moves c s d t)
    (keeps : c.Keeps related good) (refl : ∀ s, related s s)
    (trans : ∀ {s t u}, related s t → related t u → related s u) : related s t := by
  induction moves with
  | refl => exact refl _
  | step _ ih => exact trans (keeps _).1 (ih (keeps _).2)

end Keeps

/-- Whatever others do before a statement, it has the same effect up to what they do, and the program goes on the
same way. -/
def Ignores (others : σ → σ → Prop) : Code σ α → σ → Prop
  | done _, _ => True
  | stuck, _ => True
  | step act next, s =>
    (∀ t, others s t → others (act s) (act t) ∧ next t = next s) ∧ (next s).Ignores others (act s)

section Ignores

variable {others : σ → σ → Prop} {s : σ}

theorem Ignores.bind {c : Code σ α} {f : α → Code σ β} (first : c.Ignores others s)
    (rest : ∀ a t, c.run s = some (a, t) → (f a).Ignores others t) :
    (c >>= f).Ignores others s := by
  change (c.bind f).Ignores others s
  induction c generalizing s with
  | done a => exact rest a s rfl
  | stuck => trivial
  | step act next ih =>
    refine ⟨fun t between => ⟨(first.1 t between).1, ?_⟩, ih s first.2 rest⟩
    exact congrArg (Code.bind · f) (first.1 t between).2

theorem Ignores.change {f : σ → σ} (same : ∀ t, others s t → others (f s) (f t)) :
    (Code.change f).Ignores others s :=
  ⟨fun t between => ⟨same t between, rfl⟩, trivial⟩

theorem Ignores.changed {f : σ → σ} {g : Unit → Code σ β}
    (same : ∀ t, others s t → others (f s) (f t)) (rest : (g ()).Ignores others (f s)) :
    (Code.change f >>= g).Ignores others s :=
  ⟨fun t between => ⟨same t between, rfl⟩, rest⟩

theorem Ignores.read {f : σ → α} {g : α → Code σ β} (same : ∀ t, others s t → f t = f s)
    (rest : (g (f s)).Ignores others s) : (Code.read f >>= g).Ignores others s :=
  ⟨fun t between => ⟨between, congrArg g (same t between)⟩, rest⟩

theorem Ignores.test {p : σ → Prop} [DecidablePred p] {g : Bool → Code σ β}
    (same : ∀ t, others s t → (p t ↔ p s)) (rest : (g (decide (p s))).Ignores others s) :
    (Code.test p >>= g).Ignores others s :=
  Ignores.read (fun t between => decide_eq_decide.mpr (same t between)) rest

theorem Ignores.alone (c : Code σ α) (s : σ) : c.Ignores Eq s := by
  induction c generalizing s with
  | done a => trivial
  | stuck => trivial
  | step act next ih =>
    refine ⟨fun t same => ?_, ih s _⟩
    subst same
    exact ⟨rfl, rfl⟩

theorem Ignores.on {p : Part σ τ} {others' : τ → τ → Prop} {c : Code τ α}
    (ignores : c.Ignores others' (p.get s)) (part : ∀ s t, others s t → others' (p.get s) (p.get t))
    (whole : ∀ s t u v, others s t → others' u v → others (p.set s u) (p.set t v)) :
    (c.on p).Ignores others s := by
  induction c generalizing s with
  | done a => trivial
  | stuck => trivial
  | step act next ih =>
    refine ⟨fun t between => ?_, ?_⟩
    · obtain ⟨effect, goes⟩ := ignores.1 _ (part s t between)
      exact ⟨whole s t _ _ between effect, congrArg (Code.on p) goes⟩
    · refine ih _ ?_
      rw [p.get_set]
      exact ignores.2

end Ignores

end Code

end Statements
