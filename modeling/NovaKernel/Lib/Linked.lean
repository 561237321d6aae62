import Mathlib.Data.List.Nodup

set_option autoImplicit false

namespace Linked

variable {α : Type} {link link' : α → α} {node stop : α → Prop}

/-- Following `link` from a start visits the nodes of the list, and then meets a stop. -/
inductive Chain (link : α → α) (node stop : α → Prop) : α → List α → Prop
  | nil {a : α} : stop a → Chain link node stop a []
  | cons {a : α} {l : List α} : node a → Chain link node stop (link a) l →
    Chain link node stop a (a :: l)

theorem Chain.nodes {a : α} {l : List α} (chain : Chain link node stop a l) : ∀ c ∈ l, node c := by
  induction chain with
  | nil _ => simp
  | cons here _ ih =>
    intro c member
    rcases List.mem_cons.mp member with rfl | later
    · exact here
    · exact ih c later

theorem Chain.congr {a : α} {l : List α} (chain : Chain link node stop a l)
    (same : ∀ c ∈ l, link' c = link c) : Chain link' node stop a l := by
  induction chain with
  | nil halted => exact .nil halted
  | cons here _ ih =>
    refine .cons here ?_
    rw [same _ (by simp)]
    exact ih fun c member => same c (by simp [member])

theorem Chain.extend {a p : α} {l more : List α} (chain : Chain link node stop a (l ++ [p]))
    (same : ∀ c ∈ l, link' c = link c) (rest : Chain link' node stop (link' p) more) :
    Chain link' node stop a (l ++ p :: more) := by
  induction l generalizing a with
  | nil =>
    cases chain with
    | cons here _ => exact .cons here rest
  | cons c l ih =>
    cases chain with
    | cons here later =>
      refine .cons here ?_
      rw [same c (by simp)]
      exact ih later fun d member => same d (by simp [member])

theorem Chain.suffix {a c : α} {l : List α} (chain : Chain link node stop a l) (member : c ∈ l) :
    ∃ l', Chain link node stop c l' ∧ l'.length ≤ l.length := by
  induction chain with
  | nil _ => simp at member
  | @cons a l here later ih =>
    rcases List.mem_cons.mp member with rfl | member'
    · exact ⟨_, .cons here later, Nat.le_refl _⟩
    · obtain ⟨l', chain', shorter⟩ := ih member'
      exact ⟨l', chain', Nat.le_succ_of_le shorter⟩

section Exclusive

variable (exclusive : ∀ a, node a → ¬ stop a)

include exclusive

theorem Chain.unique {a : α} {l l' : List α} (chain : Chain link node stop a l)
    (chain' : Chain link node stop a l') : l = l' := by
  induction chain generalizing l' with
  | nil halted =>
    cases chain' with
    | nil _ => rfl
    | cons here _ => exact absurd halted (exclusive _ here)
  | cons here _ ih =>
    cases chain' with
    | nil halted => exact absurd halted (exclusive _ here)
    | cons _ later => rw [ih later]

theorem Chain.nodup {a : α} {l : List α} (chain : Chain link node stop a l) : l.Nodup := by
  induction chain with
  | nil _ => exact List.nodup_nil
  | @cons a l here later ih =>
    refine List.nodup_cons.mpr ⟨fun member => ?_, ih⟩
    obtain ⟨l', chain', shorter⟩ := later.suffix member
    have same := (Chain.cons here later).unique exclusive chain'
    rw [← same, List.length_cons] at shorter
    omega

end Exclusive

inductive Reach (link : α → α) (go : α → Prop) : α → α → Prop
  | here {a : α} : go a → Reach link go a a
  | next {a c : α} : go a → Reach link go (link a) c → Reach link go a c

theorem Reach.goes {go : α → Prop} {a c : α} (reach : Reach link go a c) : go c := by
  induction reach with
  | here goes => exact goes
  | next _ _ ih => exact ih

theorem Reach.induct {go inside : α → Prop} {a c : α} (reach : Reach link go a c)
    (first : go a → inside a) (closed : ∀ b, inside b → go (link b) → inside (link b)) :
    inside c := by
  induction reach with
  | here goes => exact first goes
  | next goes _ ih => exact ih fun on => closed _ (first goes) on

theorem Chain.reach_iff {go : α → Prop} {a c : α} {l : List α} (chain : Chain link node stop a l)
    (goes : ∀ a, node a → go a) (halts : ∀ a, stop a → ¬ go a) : Reach link go a c ↔ c ∈ l := by
  constructor
  · intro reach
    induction reach generalizing l with
    | here goes' =>
      cases chain with
      | nil halted => exact absurd goes' (halts _ halted)
      | cons _ _ => simp
    | next goes' _ ih =>
      cases chain with
      | nil halted => exact absurd goes' (halts _ halted)
      | cons _ later => exact List.mem_cons_of_mem _ (ih later)
  · intro member
    induction chain with
    | nil _ => simp at member
    | cons here _ ih =>
      rcases List.mem_cons.mp member with rfl | later
      · exact .here (goes _ here)
      · exact .next (goes _ here) (ih later)

end Linked
