import NovaKernel.Gui

set_option autoImplicit false

namespace NovaKernel

namespace Windows

variable {s : Windows}

def IsSlot (i : Int) : Prop := 0 ≤ i ∧ i < maxWin

instance (i : Int) : Decidable (IsSlot i) := inferInstanceAs (Decidable (_ ∧ _))

theorem mem_slots {i : Int} : i ∈ slots ↔ IsSlot i := by
  simp only [slots, mem_upTo, IsSlot]
  omega

theorem modify_same (s : Windows) (i : Int) (f : Window → Window) :
    (s.modify i f).wins i = f (s.wins i) := by
  simp [modify]

theorem modify_other {i j : Int} (other : j ≠ i) (f : Window → Window) :
    (s.modify i f).wins j = s.wins j := by
  simp [modify, other]

@[simp] theorem modify_focus (s : Windows) (i : Int) (f : Window → Window) :
    (s.modify i f).focus = s.focus := rfl

theorem modify_keeps {α : Type} (field : Window → α) (i : Int) (f : Window → Window)
    (kept : ∀ w, field (f w) = field w)
    (j : Int) : field ((s.modify i f).wins j) = field (s.wins j) := by
  by_cases same : j = i
  next =>
    rw [same, modify_same]
    exact kept _
  next => rw [modify_other same]

theorem noneOpen_spec (wins : Int → Window) :
    (noneOpen wins).focus = -1 ∧ (noneOpen wins).cascade = 0 ∧ (noneOpen wins).opened = 0 ∧
      ∀ i, IsSlot i → ((noneOpen wins).wins i).used = false := by
  have reached (done : List Int) (s : Windows) :
      let s' := done.foldl (fun s i => s.modify i fun w => { w with used := false }) s
      s'.focus = s.focus ∧ s'.cascade = s.cascade ∧ s'.opened = s.opened ∧
        ∀ i, i ∈ done ∨ (s.wins i).used = false → (s'.wins i).used = false := by
    induction done generalizing s with
    | nil => exact ⟨rfl, rfl, rfl, fun i free => free.resolve_left List.not_mem_nil⟩
    | cons j rest ih =>
      obtain ⟨focus, cascade, opened, free⟩ := ih (s.modify j fun w => { w with used := false })
      refine ⟨focus, cascade, opened, fun i member => free i ?_⟩
      by_cases same : i = j
      next => exact .inr (by rw [same, modify_same])
      next =>
        rw [modify_other same]
        simpa [same] using member
  obtain ⟨focus, cascade, opened, free⟩ := reached slots ⟨wins, -1, 0, 0⟩
  exact ⟨focus, cascade, opened, fun i slot => free i (.inl (mem_slots.mpr slot))⟩

theorem winRaise_ignored {idx : Int} (closed : ¬ (IsSlot idx ∧ (s.wins idx).used = true)) :
    s.winRaise idx = s := by
  refine if_pos ?_
  simp only [IsSlot] at closed
  cases used : (s.wins idx).used with
  | false => simp
  | true =>
    simp only [used, and_true] at closed
    omega

def unfocus (s : Windows) (idx : Int) : Windows :=
  if 0 ≤ s.focus ∧ s.focus ≠ idx ∧ (s.wins s.focus).used = true
    then s.modify s.focus fun w => { w with focused := false } else s

theorem winRaise_used {idx : Int} (slot : IsSlot idx) (used : (s.wins idx).used = true) :
    s.winRaise idx =
      { s.unfocus idx with focus := idx }.modify idx fun w => { w with focused := true } := by
  refine if_neg ?_
  simp only [IsSlot] at slot
  simp only [used, Bool.true_eq_false, or_false]
  omega

theorem highestUsed_cases (s : Windows) :
    (s.highestUsed = -1 ∧ ∀ i, IsSlot i → (s.wins i).used = false) ∨
    (IsSlot s.highestUsed ∧ (s.wins s.highestUsed).used = true ∧
      ∀ i, IsSlot i → (s.wins i).used = true → i ≤ s.highestUsed) := by
  unfold highestUsed
  cases found : slots.reverse.find? fun i => (s.wins i).used with
  | none =>
    refine .inl ⟨rfl, fun i slot => ?_⟩
    have all := List.find?_eq_none.mp found i (List.mem_reverse.mpr (mem_slots.mpr slot))
    simpa using all
  | some i =>
    obtain ⟨used, before, after, split, skipped⟩ := List.find?_eq_some_iff_append.mp found
    have descending : slots.reverse.Pairwise (· > ·) := by decide
    rw [split] at descending
    have member : i ∈ slots.reverse := by simp [split]
    refine .inr ⟨mem_slots.mp (List.mem_reverse.mp member), used, fun j slot used' => ?_⟩
    have member' := List.mem_reverse.mpr (mem_slots.mpr slot)
    rw [split] at member'
    simp only [Option.getD_some]
    rcases List.mem_append.mp member' with early | late
    · have free := skipped j early
      simp [used'] at free
    · rcases List.mem_cons.mp late with rfl | late
      · exact Int.le_refl _
      · exact Int.le_of_lt
          ((List.pairwise_cons.mp (List.pairwise_append.mp descending).2.1).1 j late)

theorem winClose_ignored {idx : Int} (closed : ¬ (IsSlot idx ∧ (s.wins idx).used = true)) :
    s.winClose idx = s := by
  refine if_pos ?_
  simp only [IsSlot] at closed
  cases used : (s.wins idx).used with
  | false => simp
  | true =>
    simp only [used, and_true] at closed
    omega

def drop (s : Windows) (idx : Int) : Windows :=
  s.modify idx fun w => { w with used := false }

theorem winClose_used {idx : Int} (slot : IsSlot idx) (used : (s.wins idx).used = true) :
    s.winClose idx =
      if 0 ≤ (s.drop idx).highestUsed then
        { s.drop idx with focus := (s.drop idx).highestUsed }.modify (s.drop idx).highestUsed
          fun w => { w with focused := true }
      else { s.drop idx with focus := (s.drop idx).highestUsed } := by
  refine if_neg ?_
  simp only [IsSlot] at slot
  simp only [used, Bool.true_eq_false, or_false]
  omega

theorem winOpen_cases (s : Windows) (type : WinType) :
    ((∀ i, IsSlot i → (s.wins i).used = true) ∧ s.winOpen type = s) ∨
    ∃ i, IsSlot i ∧ (s.wins i).used = false ∧
      s.winOpen type = winRaise { s.modify i (openedWindow type s.cascade) with
        cascade := int (s.cascade + 1), opened := s.opened + 1 } i := by
  unfold winOpen
  cases found : slots.find? fun i => !(s.wins i).used with
  | none =>
    refine .inl ⟨fun i slot => ?_, rfl⟩
    simpa using List.find?_eq_none.mp found i (mem_slots.mpr slot)
  | some i =>
    have free := List.find?_some found
    exact .inr ⟨i, mem_slots.mp (List.mem_of_find?_eq_some found), by simpa using free, rfl⟩

theorem winAtClose_slot {x y : Int} (hit : 0 ≤ s.winAtClose x y) :
    IsSlot (s.winAtClose x y) ∧ (s.wins (s.winAtClose x y)).used = true := by
  unfold winAtClose at hit ⊢
  cases found : slots.reverse.find? fun i => (s.wins i).used ∧ InCloseBox (s.wins i) x y with
  | none =>
    rw [found] at hit
    exact absurd hit (by decide)
  | some i =>
    have inside := List.find?_some found
    simp only [decide_eq_true_eq] at inside
    exact ⟨mem_slots.mp (List.mem_reverse.mp (List.mem_of_find?_eq_some found)), inside.1⟩

theorem winAtTitle_slot {x y : Int} (hit : 0 ≤ s.winAtTitle x y) :
    s.winAtTitle x y = s.winAt x y := by
  unfold winAtTitle at hit ⊢
  dsimp only at hit ⊢
  split at hit
  next inside => rw [if_pos inside]
  next => exact absurd hit (by decide)

theorem winAt_used {x y : Int} (hit : 0 ≤ s.winAt x y) : (s.wins (s.winAt x y)).used = true := by
  unfold winAt at hit ⊢
  by_cases front : 0 ≤ s.focus ∧ (s.wins s.focus).used = true ∧ Contains (s.wins s.focus) x y
  next =>
    rw [if_pos front]
    exact front.2.1
  next =>
    rw [if_neg front] at hit ⊢
    cases found : slots.reverse.find? fun i => (s.wins i).used ∧ Contains (s.wins i) x y with
    | none =>
      rw [found] at hit
      exact absurd hit (by decide)
    | some i =>
      have inside := List.find?_some found
      simp only [decide_eq_true_eq] at inside
      exact inside.1

theorem winAt_slot {x y : Int} (hit : 0 ≤ s.winAt x y) :
    s.winAt x y = s.focus ∨ IsSlot (s.winAt x y) := by
  unfold winAt at hit ⊢
  by_cases front : 0 ≤ s.focus ∧ (s.wins s.focus).used = true ∧ Contains (s.wins s.focus) x y
  next => exact .inl (if_pos front)
  next =>
    rw [if_neg front] at hit ⊢
    cases found : slots.reverse.find? fun i => (s.wins i).used ∧ Contains (s.wins i) x y with
    | none =>
      rw [found] at hit
      exact absurd hit (by decide)
    | some i =>
      exact .inr (mem_slots.mp (List.mem_reverse.mp (List.mem_of_find?_eq_some found)))

/-- The fact both copies of the focus should agree on, in part: the index is -1 or an open window. -/
def FocusUsed (s : Windows) : Prop :=
  s.focus = -1 ∨ IsSlot s.focus ∧ (s.wins s.focus).used = true

theorem winAtTitle_used (focus : s.FocusUsed) {x y : Int} (hit : 0 ≤ s.winAtTitle x y) :
    IsSlot (s.winAtTitle x y) ∧ (s.wins (s.winAtTitle x y)).used = true := by
  have same := winAtTitle_slot hit
  rw [same] at hit ⊢
  refine ⟨?_, winAt_used hit⟩
  rcases winAt_slot hit with front | slot
  · rw [front] at hit ⊢
    rcases focus with none | open'
    · omega
    · exact open'.1
  · exact slot

end Windows

end NovaKernel
