import Mathlib.Data.List.Range

set_option autoImplicit false

namespace RoundRobin

variable {ready : Nat → Bool} {n c t u next : Nat}

def Follows (ready : Nat → Bool) (c next : Nat) : Prop :=
  ready next = true ∧
    (c < next ∧ (∀ x, c < x → x < next → ready x = false) ∨
      next ≤ c ∧ (∀ x, c < x → ready x = false) ∧ ∀ x < next, ready x = false)

/-- Going up cyclically from `t`, `c` is met before `u`. -/
def Between (t c u : Nat) : Prop :=
  if t < u then t < c ∧ c < u else t < c ∨ c < u

theorem Follows.unique {other : Nat} (follows : Follows ready c next)
    (follows' : Follows ready c other) :
    next = other := by
  obtain ⟨here, order⟩ := follows
  obtain ⟨here', order'⟩ := follows'
  by_contra different
  rcases order with ⟨after, skipped⟩ | ⟨before, above, below⟩
  · rcases order' with ⟨after', skipped'⟩ | ⟨before', above', below'⟩
    · rcases Nat.lt_or_gt_of_ne different with less | more
      · exact absurd ((skipped' next after less).symm.trans here) (by simp)
      · exact absurd ((skipped other after' more).symm.trans here') (by simp)
    · exact absurd ((above' next after).symm.trans here) (by simp)
  · rcases order' with ⟨after', skipped'⟩ | ⟨before', above', below'⟩
    · exact absurd ((above other after').symm.trans here') (by simp)
    · rcases Nat.lt_or_gt_of_ne different with less | more
      · exact absurd ((below' next less).symm.trans here) (by simp)
      · exact absurd ((below other more).symm.trans here') (by simp)

theorem Follows.alone (follows : Follows ready c c) (other : u ≠ c) : ready u = false := by
  rcases follows.2 with ⟨after, -⟩ | ⟨-, above, below⟩
  · omega
  · rcases Nat.lt_or_gt_of_ne other with less | more
    · exact below u less
    · exact above u more

theorem Follows.first (follows : Follows ready t next) (waiting : ready u = true) :
    next = u ∨ Between t next u := by
  obtain ⟨-, order⟩ := follows
  unfold Between
  rcases order with ⟨after, skipped⟩ | ⟨before, above, below⟩
  · have notSkipped : ¬ (t < u ∧ u < next) := fun h =>
      absurd ((skipped u h.1 h.2).symm.trans waiting) (by simp)
    split <;> omega
  · have notAbove : ¬ t < u := fun h => absurd ((above u h).symm.trans waiting) (by simp)
    have notBelow : ¬ u < next := fun h => absurd ((below u h).symm.trans waiting) (by simp)
    split <;> omega

theorem Follows.between (follows : Follows ready c next) (waiting : ready u = true)
    (between : Between t c u) : next = u ∨ Between t next u := by
  obtain ⟨-, order⟩ := follows
  unfold Between at between ⊢
  rcases order with ⟨after, skipped⟩ | ⟨before, above, below⟩
  · have notSkipped : ¬ (c < u ∧ u < next) := fun h =>
      absurd ((skipped u h.1 h.2).symm.trans waiting) (by simp)
    split at between <;> split <;> omega
  · have notAbove : ¬ c < u := fun h => absurd ((above u h).symm.trans waiting) (by simp)
    have notBelow : ¬ u < next := fun h => absurd ((below u h).symm.trans waiting) (by simp)
    split at between <;> split <;> omega

theorem Between.ne (between : Between t c u) : c ≠ t := by
  unfold Between at between
  split at between <;> omega

theorem Between.ne_right (between : Between t c u) : c ≠ u := by
  unfold Between at between
  split at between <;> omega

theorem scan_follows {m : Nat} (inside : c < n) (beyond : ∀ x, n ≤ x → ready x = false)
    (test : Nat → Bool) (tests : ∀ i, 1 ≤ i → i ≤ m → test ((c + i) % n) = ready ((c + i) % n))
    (whole : m = n ∨ m + 1 = n ∧ ready c = false) :
    (∀ next, ((List.range' 1 m).map fun i => (c + i) % n).find? test = some next → Follows ready c next) ∧
      (((List.range' 1 m).map fun i => (c + i) % n).find? test = none → ∀ x, ready x = false) := by
  have later : ∀ x, c < x → x < n → (c + (x - c)) % n = x := fun x low high => by
    rw [show c + (x - c) = x by omega, Nat.mod_eq_of_lt high]
  have earlier : ∀ x, x ≤ c → (c + (n - c + x)) % n = x := fun x low => by
    rw [show c + (n - c + x) = x + n by omega, Nat.add_mod_right, Nat.mod_eq_of_lt (by omega)]
  have tested : ∀ x i, 1 ≤ i → i ≤ m → (c + i) % n = x → test ((c + i) % n) = false →
      ready x = false :=
    fun x i first last here failed => by rw [← here, ← tests i first last, failed]
  constructor
  · intro next found
    rw [List.find?_map, Option.map_eq_some_iff] at found
    obtain ⟨i, first, rfl⟩ := found
    obtain ⟨hit, member, before⟩ := List.find?_range'_eq_some.mp first
    obtain ⟨low, high⟩ := List.mem_range'_1.mp member
    have missed : ∀ j, 1 ≤ j → j < i → test ((c + j) % n) = false := fun j start below => by
      simpa using before j start below
    refine ⟨by rw [← tests i low (by omega)]; exact hit, ?_⟩
    by_cases wraps : c + i < n
    · rw [Nat.mod_eq_of_lt wraps]
      refine .inl ⟨by omega, fun x after below => ?_⟩
      exact tested x (x - c) (by omega) (by omega) (later x after (by omega))
        (missed (x - c) (by omega) (by omega))
    · have around : (c + i) % n = c + i - n := by
        rw [Nat.mod_eq_sub_mod (by omega), Nat.mod_eq_of_lt (by omega)]
      rw [around]
      refine .inr ⟨by omega, fun x after => ?_, fun x below => ?_⟩
      · by_cases within : x < n
        · exact tested x (x - c) (by omega) (by omega) (later x after within)
            (missed (x - c) (by omega) (by omega))
        · exact beyond x (by omega)
      · exact tested x (n - c + x) (by omega) (by omega) (earlier x (by omega))
          (missed (n - c + x) (by omega) (by omega))
  · intro none x
    rw [List.find?_map, Option.map_eq_none_iff] at none
    have missed : ∀ j, 1 ≤ j → j ≤ m → test ((c + j) % n) = false := fun j start last => by
      simpa using List.find?_range'_eq_none.mp none j start (by omega)
    rcases Nat.lt_trichotomy x c with below | rfl | after
    · exact tested x (n - c + x) (by omega) (by omega) (earlier x (by omega))
        (missed (n - c + x) (by omega) (by omega))
    · rcases whole with rfl | ⟨-, dead⟩
      · exact tested x m (by omega) (Nat.le_refl m)
          (by rw [Nat.add_mod_right, Nat.mod_eq_of_lt inside])
          (missed m (by omega) (Nat.le_refl m))
      · exact dead
    · by_cases within : x < n
      · exact tested x (x - c) (by omega) (by omega) (later x after within)
          (missed (x - c) (by omega) (by omega))
      · exact beyond x (by omega)

end RoundRobin
