import Mathlib.Data.List.Basic
import Mathlib.Data.List.Chain
import Mathlib.Algebra.BigOperators.Group.List.Basic
import Mathlib.Algebra.GroupWithZero.Nat

set_option autoImplicit false

namespace Arena

@[ext] structure Block where
  size : Nat
  free : Bool
  deriving DecidableEq

section Layout

variable (header : Nat)

def span (blocks : List Block) : Nat :=
  (blocks.map fun b => header + b.size).sum

def layout : Nat → List Block → List (Nat × Block)
  | _, [] => []
  | a, b :: rest => (a, b) :: layout (a + header + b.size) rest

def taken : Nat → List Block → List (Nat × Nat)
  | _, [] => []
  | a, b :: rest =>
    if b.free then taken (a + header + b.size) rest
    else (a + header, b.size) :: taken (a + header + b.size) rest

def used (blocks : List Block) : Nat :=
  ((blocks.filter fun b => !b.free).map Block.size).sum

@[simp] theorem span_nil : span header [] = 0 := rfl

@[simp] theorem span_cons (b : Block) (rest : List Block) :
    span header (b :: rest) = header + b.size + span header rest := rfl

@[simp] theorem span_append (l r : List Block) :
    span header (l ++ r) = span header l + span header r := by
  simp [span]

@[simp] theorem used_nil : used [] = 0 := rfl

theorem used_cons (b : Block) (rest : List Block) :
    used (b :: rest) = (if b.free then 0 else b.size) + used rest := by
  cases free : b.free <;> simp [used, free]

@[simp] theorem used_append (l r : List Block) : used (l ++ r) = used l + used r := by
  simp [used]

variable {header}

theorem layout_append (l r : List Block) (a : Nat) :
    layout header a (l ++ r) = layout header a l ++ layout header (a + span header l) r := by
  induction l generalizing a with
  | nil => rfl
  | cons b rest ih =>
    rw [List.cons_append, layout, layout, ih, span_cons, List.cons_append, ← Nat.add_assoc,
      ← Nat.add_assoc]

theorem taken_append (l r : List Block) (a : Nat) :
    taken header a (l ++ r) = taken header a l ++ taken header (a + span header l) r := by
  induction l generalizing a with
  | nil => rfl
  | cons b rest ih =>
    rw [List.cons_append, taken, taken, ih, span_cons, ← Nat.add_assoc, ← Nat.add_assoc]
    split <;> rfl

theorem layout_bounds {blocks : List Block} {a x : Nat} {b : Block}
    (member : (x, b) ∈ layout header a blocks) :
    a ≤ x ∧ x + header + b.size ≤ a + span header blocks := by
  induction blocks generalizing a with
  | nil => simp [layout] at member
  | cons c rest ih =>
    rw [span_cons]
    rcases List.mem_cons.mp member with same | later
    · obtain ⟨rfl, rfl⟩ := Prod.mk.inj same
      omega
    · have bounds := ih later
      omega

theorem layout_mem {blocks : List Block} {a x : Nat} {b : Block}
    (member : (x, b) ∈ layout header a blocks) : b ∈ blocks := by
  induction blocks generalizing a with
  | nil => simp [layout] at member
  | cons c rest ih =>
    rcases List.mem_cons.mp member with here | later
    · obtain ⟨-, rfl⟩ := Prod.mk.inj here
      exact List.mem_cons_self
    · exact List.mem_cons_of_mem _ (ih later)

theorem layout_of_mem {blocks : List Block} {b : Block} (member : b ∈ blocks) (a : Nat) :
    ∃ x, (x, b) ∈ layout header a blocks := by
  obtain ⟨l, r, rfl⟩ := List.append_of_mem member
  refine ⟨a + span header l, ?_⟩
  rw [layout_append, layout]
  simp

theorem layout_ordered (blocks : List Block) (a : Nat) :
    (layout header a blocks).Pairwise fun x y => x.1 + header + x.2.size ≤ y.1 := by
  induction blocks generalizing a with
  | nil => exact .nil
  | cons b rest ih =>
    refine .cons (fun y member => ?_) (ih _)
    exact (layout_bounds member).1

theorem mem_taken {blocks : List Block} {a p size : Nat} :
    (p, size) ∈ taken header a blocks ↔
      ∃ x, (x, ⟨size, false⟩) ∈ layout header a blocks ∧ p = x + header := by
  induction blocks generalizing a with
  | nil => simp [taken, layout]
  | cons b rest ih =>
    obtain ⟨size', free⟩ := b
    cases free
    · simp only [taken, layout, Bool.false_eq_true, if_false, List.mem_cons, ih, Prod.mk.injEq,
        Block.mk.injEq, and_true, or_and_right, exists_or]
      rw [and_comm (a := p = a + header)]
      simp
    · simp [taken, layout, ih]

theorem taken_bounds {blocks : List Block} {a p size : Nat}
    (member : (p, size) ∈ taken header a blocks) :
    a + header ≤ p ∧ p + size ≤ a + span header blocks := by
  obtain ⟨x, found, rfl⟩ := mem_taken.mp member
  have bounds := layout_bounds found
  simp only at bounds
  omega

variable (header) in
theorem sum_taken (blocks : List Block) (a : Nat) :
    ((taken header a blocks).map Prod.snd).sum = used blocks := by
  induction blocks generalizing a with
  | nil => rfl
  | cons b rest ih =>
    rw [taken, used_cons]
    split
    · simpa using ih _
    · simpa using ih _

theorem layout_apart {blocks : List Block} {a x y : Nat} {b c : Block}
    (first : (x, b) ∈ layout header a blocks) (second : (y, c) ∈ layout header a blocks)
    (distinct : x ≠ y) : x + header + b.size ≤ y ∨ y + header + c.size ≤ x := by
  induction blocks generalizing a with
  | nil => simp [layout] at first
  | cons d rest ih =>
    rcases List.mem_cons.mp first with here | later <;>
      rcases List.mem_cons.mp second with here' | later'
    · exact absurd ((Prod.mk.inj here).1.trans (Prod.mk.inj here').1.symm) distinct
    · obtain ⟨rfl, rfl⟩ := Prod.mk.inj here
      exact .inl (layout_bounds later').1
    · obtain ⟨rfl, rfl⟩ := Prod.mk.inj here'
      exact .inr (layout_bounds later).1
    · exact ih later later'

theorem layout_unique (positive : 0 < header) {blocks : List Block} {a x : Nat} {b c : Block}
    (first : (x, b) ∈ layout header a blocks) (second : (x, c) ∈ layout header a blocks) :
    b = c := by
  induction blocks generalizing a with
  | nil => simp [layout] at first
  | cons d rest ih =>
    rcases List.mem_cons.mp first with here | later <;>
      rcases List.mem_cons.mp second with here' | later'
    · exact (Prod.mk.inj here).2.trans (Prod.mk.inj here').2.symm
    · have bounds := (layout_bounds later').1
      have start := (Prod.mk.inj here).1
      omega
    · have bounds := (layout_bounds later).1
      have start := (Prod.mk.inj here').1
      omega
    · exact ih later later'

theorem taken_apart {blocks : List Block} {a p size x : Nat} {b : Block}
    (member : (p, size) ∈ taken header a blocks) (other : (x, b) ∈ layout header a blocks)
    (distinct : x + header ≠ p) : x + header + b.size + header ≤ p ∨ p + size ≤ x := by
  obtain ⟨y, found, rfl⟩ := mem_taken.mp member
  rcases layout_apart found other (fun same => distinct (by rw [same])) with before | after
  · exact .inr before
  · exact .inl (by omega)

theorem taken_split {blocks : List Block} {a p size : Nat}
    (member : (p, size) ∈ taken header a blocks) :
    ∃ l r, blocks = l ++ ⟨size, false⟩ :: r ∧ p = a + span header l + header := by
  induction blocks generalizing a with
  | nil => simp [taken] at member
  | cons b rest ih =>
    obtain ⟨size', free⟩ := b
    by_cases here : free = false ∧ p = a + header ∧ size = size'
    · obtain ⟨rfl, rfl, rfl⟩ := here
      exact ⟨[], rest, rfl, by simp⟩
    · have later : (p, size) ∈ taken header (a + header + size') rest := by
        cases free
        · rw [taken, if_neg (by simp)] at member
          rcases List.mem_cons.mp member with same | later
          · exact absurd ⟨rfl, (Prod.mk.inj same).1, (Prod.mk.inj same).2⟩ here
          · exact later
        · rwa [taken, if_pos rfl] at member
      obtain ⟨l, r, rfl, rfl⟩ := ih later
      exact ⟨⟨size', free⟩ :: l, r, rfl, by simp only [span_cons]; omega⟩

end Layout

section Calls

variable (header slack : Nat)

-- The block handed out, and the rest of it when that is large enough to be a block.
def carve (need : Nat) (b : Block) : List Block :=
  if b.size - need ≤ header + slack then [⟨b.size, false⟩]
  else [⟨need, false⟩, ⟨b.size - need - header, true⟩]

def fits (need : Nat) (b : Block) : Bool :=
  b.free && decide (need ≤ b.size)

/-- First fit: the address of the payload and the blocks after the call. -/
def alloc (need : Nat) : Nat → List Block → Option (Nat × List Block)
  | _, [] => none
  | a, b :: rest =>
    if fits need b then some (a + header, carve header slack need b ++ rest)
    else (alloc need (a + header + b.size) rest).map (Prod.map id (b :: ·))

-- The free blocks at the front are absorbed by the block before them.
def merge (size : Nat) : List Block → List Block
  | [] => [⟨size, true⟩]
  | b :: rest => if b.free then merge (size + header + b.size) rest else ⟨size, true⟩ :: b :: rest

def release (p : Nat) : Nat → List Block → List Block
  | _, [] => []
  | a, b :: rest =>
    if a + header = p then merge header b.size rest
    else b :: release p (a + header + b.size) rest

variable {header slack}

theorem alloc_some {need : Nat} {blocks blocks' : List Block} {a p : Nat}
    (found : alloc header slack need a blocks = some (p, blocks')) :
    ∃ l b r, blocks = l ++ b :: r ∧ (∀ c ∈ l, fits need c = false) ∧ fits need b = true ∧
      p = a + span header l + header ∧ blocks' = l ++ (carve header slack need b ++ r) := by
  induction blocks generalizing a blocks' with
  | nil => simp [alloc] at found
  | cons b rest ih =>
    rw [alloc] at found
    split at found
    · next fit =>
      obtain ⟨rfl, rfl⟩ := Prod.mk.inj (Option.some.inj found)
      exact ⟨[], b, rest, rfl, by simp, fit, by simp, rfl⟩
    · next unfit =>
      obtain ⟨⟨q, blocks''⟩, later, same⟩ := Option.map_eq_some_iff.mp found
      obtain ⟨rfl, rfl⟩ := Prod.mk.inj same
      obtain ⟨l, c, r, rfl, before, fit, rfl, rfl⟩ := ih later
      refine ⟨b :: l, c, r, rfl, ?_, fit, by rw [span_cons, id]; omega, rfl⟩
      intro d member
      rcases List.mem_cons.mp member with rfl | inner
      · exact Bool.eq_false_iff.mpr unfit
      · exact before d inner

theorem alloc_none_iff {need : Nat} {blocks : List Block} {a : Nat} :
    alloc header slack need a blocks = none ↔ ∀ b ∈ blocks, fits need b = false := by
  induction blocks generalizing a with
  | nil => simp [alloc]
  | cons b rest ih =>
    rw [alloc]
    by_cases fit : fits need b = true
    · simp [fit]
    · simp [fit, ih]

theorem alloc_of_fits {need : Nat} {l r : List Block} {b : Block} (a : Nat)
    (before : ∀ c ∈ l, fits need c = false) (fit : fits need b = true) :
    alloc header slack need a (l ++ b :: r) =
      some (a + span header l + header, l ++ (carve header slack need b ++ r)) := by
  induction l generalizing a with
  | nil => simp [alloc, fit]
  | cons c l ih =>
    rw [List.cons_append, alloc, before c (by simp),
      ih _ fun d member => before d (by simp [member])]
    simp only [Bool.false_eq_true, if_false, Option.map_some, Prod.map_apply, id, span_cons,
      List.cons_append, Option.some.injEq, Prod.mk.injEq, and_true]
    omega

variable (header slack) in
theorem span_carve {need : Nat} {b : Block} (enough : need ≤ b.size) :
    span header (carve header slack need b) = header + b.size := by
  unfold carve
  split
  · simp
  · simp only [span_cons, span_nil]
    omega

variable (header slack) in
theorem taken_carve {need : Nat} {b : Block} (enough : need ≤ b.size) (a : Nat) :
    ∃ size, need ≤ size ∧ size ≤ b.size ∧
      taken header a (carve header slack need b) = [(a + header, size)] ∧
      used (carve header slack need b) = size := by
  unfold carve
  split
  · exact ⟨b.size, enough, Nat.le_refl _, by simp [taken], by simp [used]⟩
  · exact ⟨need, Nat.le_refl _, enough, by simp [taken], by simp [used]⟩

theorem alloc_spec (positive : 0 < header) {need : Nat} {blocks blocks' : List Block} {a p : Nat}
    (found : alloc header slack need a blocks = some (p, blocks')) :
    span header blocks' = span header blocks ∧ ∃ size, need ≤ size ∧
      used blocks' = used blocks + size ∧
      (∀ q s, (q, s) ∈ taken header a blocks' ↔ (q, s) = (p, size) ∨ (q, s) ∈ taken header a blocks) ∧
      ∀ s, (p, s) ∉ taken header a blocks := by
  obtain ⟨l, b, r, rfl, -, fit, rfl, rfl⟩ := alloc_some found
  obtain ⟨free, enough⟩ : b.free = true ∧ need ≤ b.size := by simpa [fits] using fit
  obtain ⟨size, room, -, new, count⟩ :=
    taken_carve header slack enough (a + span header l)
  have length := span_carve header slack enough
  refine ⟨by simp [length, Nat.add_assoc], size, room, ?_, ?_, ?_⟩
  · rw [used_append, used_append, count, used_append, used_cons, free]
    simp only [if_true]
    omega
  · intro q s
    rw [taken_append, taken_append, new, taken_append, taken, if_pos free, length, Nat.add_assoc]
    simp only [List.mem_append, List.mem_cons, List.not_mem_nil, or_false, ← Nat.add_assoc]
    exact or_left_comm
  · intro s member
    obtain ⟨x, used', same⟩ := mem_taken.mp member
    obtain rfl : a + span header l = x := Nat.add_right_cancel same
    have here : (a + span header l, b) ∈ layout header a (l ++ b :: r) := by
      rw [layout_append, layout]
      simp
    rw [layout_unique positive here used'] at free
    exact absurd free (by simp)

variable (header) in
theorem merge_spec (size : Nat) (rest : List Block) :
    ∃ gaps rest', rest = gaps ++ rest' ∧ (∀ g ∈ gaps, g.free = true) ∧
      (∀ b, rest'.head? = some b → b.free = false) ∧
      merge header size rest = ⟨size + span header gaps, true⟩ :: rest' := by
  induction rest generalizing size with
  | nil => exact ⟨[], [], rfl, by simp, by simp, rfl⟩
  | cons b rest ih =>
    cases free : b.free with
    | false => exact ⟨[], b :: rest, rfl, by simp, by simp [free], by simp [merge, free]⟩
    | true =>
      obtain ⟨gaps, rest', rfl, all, stop, merged⟩ := ih (size + header + b.size)
      refine ⟨b :: gaps, rest', rfl, ?_, stop, ?_⟩
      · intro g member
        rcases List.mem_cons.mp member with rfl | later
        · exact free
        · exact all g later
      · rw [merge, if_pos free, merged, span_cons]
        simp only [Nat.add_assoc]

theorem taken_gaps {gaps : List Block} (free : ∀ g ∈ gaps, g.free = true) (a : Nat) :
    taken header a gaps = [] := by
  induction gaps generalizing a with
  | nil => rfl
  | cons g rest ih =>
    rw [taken, if_pos (free g (by simp))]
    exact ih (fun h member => free h (by simp [member])) _

theorem used_gaps {gaps : List Block} (free : ∀ g ∈ gaps, g.free = true) : used gaps = 0 := by
  rw [← sum_taken 0 gaps 0, taken_gaps free]
  rfl

theorem release_split {l r : List Block} {b : Block} (positive : 0 < header) (a : Nat) :
    release header (a + span header l + header) a (l ++ b :: r) =
      l ++ merge header b.size r := by
  induction l generalizing a with
  | nil => simp [release]
  | cons c l ih =>
    rw [List.cons_append, release, if_neg (by rw [span_cons]; omega), span_cons,
      show a + (header + c.size + span header l) + header =
        a + header + c.size + span header l + header by omega, ih, List.cons_append]

theorem release_spec (positive : 0 < header) {blocks : List Block} {a p size : Nat}
    (member : (p, size) ∈ taken header a blocks) :
    span header (release header p a blocks) = span header blocks ∧
      used (release header p a blocks) + size = used blocks ∧
      ∀ q s, (q, s) ∈ taken header a (release header p a blocks) ↔
        (q, s) ∈ taken header a blocks ∧ q ≠ p := by
  obtain ⟨l, r, rfl, rfl⟩ := taken_split member
  rw [release_split positive]
  obtain ⟨gaps, rest, rfl, free, -, merged⟩ := merge_spec header size r
  have shift : a + span header l + (header + (size + span header gaps)) =
      a + span header l + header + size + span header gaps := by omega
  rw [merged]
  refine ⟨by simp only [span_append, span_cons]; omega, ?_, ?_⟩
  · simp only [used_append, used_cons, used_gaps free, Bool.false_eq_true, if_true, if_false]
    omega
  · intro q s
    simp only [taken_append, taken, taken_gaps free, Bool.false_eq_true, if_true, if_false,
      List.nil_append, List.mem_append, List.mem_cons, ← Nat.add_assoc]
    have before : (q, s) ∈ taken header a l → q ≠ a + span header l + header := by
      intro inside same
      have bounds := taken_bounds inside
      omega
    have after : (q, s) ∈ taken header (a + span header l + header + size + span header gaps) rest →
        q ≠ a + span header l + header := by
      intro inside same
      have bounds := taken_bounds inside
      omega
    constructor
    · rintro (inside | inside)
      · exact ⟨.inl inside, before inside⟩
      · exact ⟨.inr (.inr inside), after inside⟩
    · rintro ⟨inside | here | inside, other⟩
      · exact .inl inside
      · exact absurd (Prod.mk.inj here).1 other
      · exact .inr inside

def Coalesced (blocks : List Block) : Prop :=
  blocks.IsChain fun b c => b.free = false ∨ c.free = false

theorem Coalesced.single {l gaps r : List Block} (coalesced : Coalesced (l ++ gaps ++ r))
    (some' : gaps ≠ []) (free : ∀ g ∈ gaps, g.free = true) : ∃ g, gaps = [g] := by
  have inner : Coalesced gaps := (List.IsChain.left_of_append coalesced).right_of_append
  cases gaps with
  | nil => exact absurd rfl some'
  | cons g rest =>
    cases rest with
    | nil => exact ⟨g, rfl⟩
    | cons h rest =>
      have pair := (List.isChain_cons_cons.mp inner).1
      rw [free g (by simp), free h (by simp)] at pair
      simp at pair

theorem coalesced_alloc {need : Nat} {blocks blocks' : List Block} {a p : Nat}
    (found : alloc header slack need a blocks = some (p, blocks')) (coalesced : Coalesced blocks) :
    Coalesced blocks' := by
  obtain ⟨l, b, r, rfl, -, fit, -, rfl⟩ := alloc_some found
  obtain ⟨free, -⟩ : b.free = true ∧ need ≤ b.size := by simpa [fits] using fit
  obtain ⟨before, after, -⟩ := List.isChain_append.mp coalesced
  obtain ⟨next, rest⟩ := List.isChain_cons.mp after
  have used' : ∀ c ∈ r.head?, c.free = false := fun c member => by
    rcases next c member with here | there
    · rw [free] at here
      cases here
    · exact there
  refine List.isChain_append.mpr ⟨before, ?_, fun c _ d member => .inr ?_⟩
  · unfold carve
    split
    · exact rest.cons fun c member => .inl rfl
    · exact (rest.cons fun c member => .inr (used' c member)).cons fun c _ => .inl rfl
  · unfold carve at member
    split at member <;>
    · obtain rfl := Option.some.inj member
      rfl

theorem coalesced_release (positive : 0 < header) {blocks : List Block} {a p size : Nat}
    (member : (p, size) ∈ taken header a blocks) (coalesced : Coalesced blocks)
    (behind : ∀ x b, (x, b) ∈ layout header a blocks → x + header + b.size + header = p → b.free = false) :
    Coalesced (release header p a blocks) := by
  obtain ⟨l, r, rfl, rfl⟩ := taken_split member
  rw [release_split positive]
  obtain ⟨gaps, rest, rfl, -, stop, merged⟩ := merge_spec header size r
  obtain ⟨before, after, -⟩ := List.isChain_append.mp coalesced
  have later : Coalesced rest := (List.isChain_cons.mp after).2.right_of_append
  rw [merged]
  refine List.isChain_append.mpr ⟨before, later.cons fun c head => .inr (stop c head),
    fun b last _ _ => .inl ?_⟩
  obtain ⟨l', rfl⟩ := List.getLast?_eq_some_iff.mp last
  refine behind (a + span header l') b ?_ (by simp only [span_append, span_cons, span_nil]; omega)
  rw [layout_append, layout_append, layout]
  simp

end Calls

end Arena
