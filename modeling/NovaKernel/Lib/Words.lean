import Mathlib.Data.List.TakeWhile

set_option autoImplicit false

namespace Words

variable {α : Type} (blank : α → Bool)

def words (l : List α) : List (List α) := (l.splitOnP blank).filter fun w => !w.isEmpty

def join (sep : α) (ws : List (List α)) : List α := [sep].intercalate ws

structure IsWord (w : List α) : Prop where
  some : w ≠ []
  solid : ∀ c ∈ w, blank c = false

@[simp] theorem words_nil : words blank [] = [] := rfl

@[simp] theorem words_blank {b : α} (separates : blank b = true) (l : List α) :
    words blank (b :: l) = words blank l := by
  simp [words, List.splitOnP_cons_eq_if_modifyHead, separates]

theorem words_blanks {bs : List α} (separate : ∀ b ∈ bs, blank b = true) (l : List α) :
    words blank (bs ++ l) = words blank l := by
  induction bs with
  | nil => rfl
  | cons b bs ih =>
    rw [List.cons_append, words_blank blank (separate b List.mem_cons_self)]
    exact ih fun b member => separate b (List.mem_cons_of_mem _ member)

variable {blank}

theorem IsWord.words {w : List α} (word : IsWord blank w) : words blank w = [w] := by
  rw [Words.words, List.splitOnP_eq_singleton word.solid]
  simp [word.some]

theorem IsWord.words_cons {w : List α} (word : IsWord blank w) {b : α} (separates : blank b = true)
    (l : List α) :
    Words.words blank (w ++ b :: l) = w :: Words.words blank l := by
  rw [Words.words, List.splitOnP_append_cons_of_forall_mem word.solid b separates]
  simp [Words.words, word.some]

inductive FirstWord (blank : α → Bool) : List α → Prop
  | none {bs : List α} : (∀ b ∈ bs, blank b = true) → FirstWord blank bs
  | last {bs w : List α} : (∀ b ∈ bs, blank b = true) → IsWord blank w → FirstWord blank (bs ++ w)
  | more {bs w rest : List α} {b : α} : (∀ b ∈ bs, blank b = true) → IsWord blank w →
    blank b = true →
      FirstWord blank (bs ++ (w ++ b :: rest))

theorem firstWord (blank : α → Bool) (l : List α) : FirstWord blank l := by
  have front : ∀ b ∈ l.takeWhile blank, blank b = true :=
    fun b member => List.mem_takeWhile_imp member
  rcases found : l.dropWhile blank with _ | ⟨c, l'⟩
  · have whole := List.takeWhile_append_dropWhile (p := blank) (l := l)
    rw [found, List.append_nil] at whole
    exact .none (whole ▸ front)
  · have solid : blank c = false := by
      have head := List.head_dropWhile_not blank (l := l) (by simp [found])
      simpa [found] using head
    have whole := List.takeWhile_append_dropWhile (p := blank) (l := l)
    rw [found] at whole
    have run : ∀ d ∈ (c :: l').takeWhile fun d => !blank d, blank d = false := fun d member => by
      simpa using List.mem_takeWhile_imp member
    have word : IsWord blank ((c :: l').takeWhile fun d => !blank d) := ⟨by simp [solid], run⟩
    have whole' := List.takeWhile_append_dropWhile (p := fun d => !blank d) (l := c :: l')
    rcases rest : (c :: l').dropWhile fun d => !blank d with _ | ⟨b, rest'⟩
    · rw [rest, List.append_nil] at whole'
      rw [← whole, ← whole']
      exact .last front word
    · rw [rest] at whole'
      have separates : blank b = true := by
        have head := List.head_dropWhile_not (fun d => !blank d) (l := c :: l') (by simp [rest])
        simpa [rest] using head
      rw [← whole, ← whole']
      exact .more front word separates

theorem words_isWord (l : List α) : ∀ w ∈ words blank l, IsWord blank w := by
  induction n : l.length using Nat.strong_induction_on generalizing l with
  | h n ih =>
    cases firstWord blank l with
    | none front =>
      have empty := words_blanks blank front []
      rw [List.append_nil, words_nil] at empty
      simp [empty]
    | last front word =>
      rw [words_blanks blank front, word.words]
      intro w member
      rwa [List.mem_singleton.mp member]
    | @more bs w rest b front word separates =>
      rw [words_blanks blank front, word.words_cons separates]
      refine List.forall_mem_cons.mpr ⟨word, ih rest.length ?_ rest rfl⟩
      simp only [List.length_append, List.length_cons] at n
      omega

@[simp] theorem join_nil (sep : α) : join sep [] = [] := rfl

@[simp] theorem join_single (sep : α) (w : List α) : join sep [w] = w := by
  simp [join, List.intercalate]

theorem join_cons (sep : α) (w : List α) {ws : List (List α)} (some : ws ≠ []) :
    join sep (w :: ws) = w ++ sep :: join sep ws := by
  obtain ⟨v, ws, rfl⟩ := List.exists_cons_of_ne_nil some
  simp [join, List.intercalate]

theorem join_cons_eq (sep : α) (w : List α) (ws : List (List α)) :
    join sep (w :: ws) = w ++ ws.flatMap (sep :: ·) := by
  induction ws generalizing w with
  | nil => simp
  | cons v ws ih =>
    rw [join_cons sep w (by simp), ih v]
    simp

theorem join_words_length (sep : α) (l : List α) :
    (join sep (words blank l)).length ≤ l.length := by
  induction n : l.length using Nat.strong_induction_on generalizing l with
  | h n ih =>
    subst n
    cases firstWord blank l with
    | none front =>
      have empty := words_blanks blank front []
      rw [List.append_nil, words_nil] at empty
      simp [empty]
    | last front word =>
      rw [words_blanks blank front, word.words, join_single, List.length_append]
      omega
    | @more bs w rest b front word separates =>
      rw [words_blanks blank front, word.words_cons separates]
      have shorter :=
        ih rest.length (by simp only [List.length_append, List.length_cons]; omega) rest rfl
      simp only [List.length_append, List.length_cons]
      by_cases empty : words blank rest = []
      · rw [empty, join_single]
        omega
      · rw [join_cons sep w empty]
        simp only [List.length_append, List.length_cons]
        omega

theorem words_join {sep : α} (separates : blank sep = true) {ws : List (List α)}
    (solid : ∀ w ∈ ws, IsWord blank w) :
    words blank (join sep ws) = ws := by
  induction ws with
  | nil => rfl
  | cons w ws ih =>
    obtain ⟨first, rest⟩ := List.forall_mem_cons.mp solid
    by_cases empty : ws = []
    · rw [empty, join_single, first.words]
    · rw [join_cons sep w empty, first.words_cons separates, ih rest]

end Words
