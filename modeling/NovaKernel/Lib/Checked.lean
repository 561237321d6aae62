import Mathlib.Init

set_option autoImplicit false

namespace Checked

variable {ε α β : Type}

theorem ok_bind (a : α) (next : α → Except ε β) : ((.ok a : Except ε α) >>= next) = next a := rfl

theorem error_bind (e : ε) (next : α → Except ε β) :
    ((.error e : Except ε α) >>= next) = .error e := rfl

theorem of_bind {call : Except ε α} {next : α → Except ε β} {b : β}
    (returned : (call >>= next) = .ok b) :
    ∃ a, call = .ok a ∧ next a = .ok b := by
  cases call with
  | error e => cases returned
  | ok a => exact ⟨a, rfl, returned⟩

/-- A checked computation succeeds exactly when it is allowed, and then the result satisfies `post`. -/
structure Exactly (allowed : Prop) (post : α → Prop) (call : Except ε α) : Prop where
  succeeds : allowed → ∃ a, call = .ok a ∧ post a
  refuses : ¬ allowed → ∃ e, call = .error e

variable {p q : Prop} {post : α → Prop} {post' : β → Prop} {call : Except ε α}

theorem Exactly.ok {a : α} (holds : post a) : Exactly True post (.ok a : Except ε α) :=
  ⟨fun _ => ⟨a, rfl, holds⟩, fun never => absurd trivial never⟩

theorem Exactly.error (e : ε) : Exactly False post (.error e : Except ε α) :=
  ⟨False.elim, fun _ => ⟨e, rfl⟩⟩

theorem Exactly.early {a : α} (vacuous : p) (holds : post a) :
    Exactly p post (.ok a : Except ε α) :=
  ⟨fun _ => ⟨a, rfl, holds⟩, fun fails => absurd vacuous fails⟩

theorem Exactly.congr (same : p ↔ q) (exact' : Exactly p post call) : Exactly q post call :=
  ⟨fun holds => exact'.succeeds (same.mpr holds), fun fails => exact'.refuses fun holds =>
    fails (same.mp holds)⟩

theorem Exactly.bind {next : α → Except ε β} (first : Exactly p post call)
    (rest : p → ∀ a, post a → Exactly q post' (next a)) :
    Exactly (p ∧ q) post' (call >>= next) := by
  constructor
  · rintro ⟨holds, later⟩
    obtain ⟨a, returned, satisfied⟩ := first.succeeds holds
    obtain ⟨b, returned', satisfied'⟩ := (rest holds a satisfied).succeeds later
    exact ⟨b, by rw [returned]; exact returned', satisfied'⟩
  · intro fails
    by_cases holds : p
    · obtain ⟨a, returned, satisfied⟩ := first.succeeds holds
      obtain ⟨e, refused⟩ := (rest holds a satisfied).refuses fun later => fails ⟨holds, later⟩
      exact ⟨e, by rw [returned]; exact refused⟩
    · obtain ⟨e, refused⟩ := first.refuses holds
      exact ⟨e, by rw [refused]; rfl⟩

theorem Exactly.guard {condition : Prop} [Decidable condition] {other : Except ε α} {e : ε}
    (rest : condition → Exactly p post other) :
    Exactly (condition ∧ p) post (if condition then other else .error e) := by
  by_cases holds : condition
  · rw [if_pos holds]
    exact (rest holds).congr ⟨fun h => ⟨holds, h⟩, fun h => h.2⟩
  · rw [if_neg holds]
    exact (Exactly.error e).congr ⟨False.elim, fun h => holds h.1⟩

theorem Exactly.ite {condition : Prop} [Decidable condition] {other : Except ε α}
    (yes : condition → Exactly p post call) (no : ¬ condition → Exactly q post other) :
    Exactly (if condition then p else q) post (if condition then call else other) := by
  by_cases holds : condition
  · rw [if_pos holds, if_pos holds]
    exact yes holds
  · rw [if_neg holds, if_neg holds]
    exact no holds

theorem Exactly.ok_iff (exact' : Exactly p post call) : (∃ a, call = .ok a) ↔ p := by
  constructor
  · rintro ⟨a, returned⟩
    by_cases holds : p
    · exact holds
    · obtain ⟨e, refused⟩ := exact'.refuses holds
      exact absurd (returned.symm.trans refused) (by simp)
  · intro holds
    obtain ⟨a, returned, -⟩ := exact'.succeeds holds
    exact ⟨a, returned⟩

theorem Exactly.holds (exact' : Exactly p post call) {a : α}
    (returned : call = .ok a) : post a := by
  obtain ⟨b, returned', satisfied⟩ := exact'.succeeds (exact'.ok_iff.mp ⟨a, returned⟩)
  obtain rfl := Except.ok.inj (returned.symm.trans returned')
  exact satisfied

theorem forall_lt_succ {P : Nat → Prop} (n : Nat) :
    (∀ k < n + 1, P k) ↔ P 0 ∧ ∀ k < n, P (k + 1) := by
  constructor
  · exact fun all => ⟨all 0 (Nat.succ_pos n), fun k hk => all (k + 1) (Nat.succ_lt_succ hk)⟩
  · rintro ⟨first, rest⟩ k hk
    cases k with
    | zero => exact first
    | succ k => exact rest k (Nat.lt_of_succ_lt_succ hk)

end Checked
