import NovaKernel.GuiFrame

set_option autoImplicit false

namespace NovaKernel

namespace Windows

variable {s : Windows}

/-- The slots in the order `redraw_all` paints them. -/
def paintOrder (s : Windows) : List Int :=
  (slots.filter fun i => (s.wins i).used && i != s.focus) ++
    if 0 ≤ s.focus ∧ (s.wins s.focus).used = true then [s.focus] else []

def paintedLast (s : Windows) (x y : Int) : Int :=
  (s.paintOrder.reverse.find? fun i => Contains (s.wins i) x y).getD (-1)

theorem find_highest {p : Int → Bool} {i : Int} :
    slots.reverse.find? p = some i ↔ IsSlot i ∧ p i = true ∧ ∀ j, IsSlot j → i < j →
      p j = false := by
  have descending : slots.reverse.Pairwise (· > ·) := by decide
  constructor
  · intro found
    obtain ⟨holds, before, after, split, skipped⟩ := List.find?_eq_some_iff_append.mp found
    have slot := mem_slots.mp (List.mem_reverse.mp (List.mem_of_find?_eq_some found))
    refine ⟨slot, holds, fun j slot' above => ?_⟩
    have member := List.mem_reverse.mpr (mem_slots.mpr slot')
    rw [split] at member descending
    rcases List.mem_append.mp member with early | late
    · simpa using skipped j early
    · rcases List.mem_cons.mp late with rfl | late
      · omega
      · have below := (List.pairwise_cons.mp (List.pairwise_append.mp descending).2.1).1 j late
        omega
  · rintro ⟨slot, holds, highest⟩
    cases found : slots.reverse.find? p with
    | none =>
      have fails := List.find?_eq_none.mp found i (List.mem_reverse.mpr (mem_slots.mpr slot))
      exact absurd holds fails
    | some j =>
      have slot' := mem_slots.mp (List.mem_reverse.mp (List.mem_of_find?_eq_some found))
      have holds' := List.find?_some found
      rcases Int.lt_trichotomy i j with above | rfl | below
      · rw [highest j slot' above] at holds'
        cases holds'
      · rfl
      · obtain ⟨-, before, after, split, skipped⟩ := List.find?_eq_some_iff_append.mp found
        have member := List.mem_reverse.mpr (mem_slots.mpr slot)
        rw [split] at member descending
        rcases List.mem_append.mp member with early | late
        · have fails := skipped i early
          simp [holds] at fails
        · rcases List.mem_cons.mp late with rfl | late
          · omega
          · have after' := (List.pairwise_cons.mp (List.pairwise_append.mp descending).2.1).1 i late
            omega

theorem find_slots_congr {p q : Int → Bool} (same : ∀ i, IsSlot i → p i = q i) :
    slots.reverse.find? p = slots.reverse.find? q := by
  refine Option.ext fun i => ?_
  rw [find_highest, find_highest]
  constructor
  · rintro ⟨slot, holds, highest⟩
    exact ⟨slot, (same i slot).symm.trans holds, fun j slot' above =>
      (same j slot').symm.trans (highest j slot' above)⟩
  · rintro ⟨slot, holds, highest⟩
    exact ⟨slot, (same i slot).trans holds, fun j slot' above =>
      (same j slot').trans (highest j slot' above)⟩

def FrontCovers (s : Windows) (x y : Int) : Prop :=
  0 ≤ s.focus ∧ (s.wins s.focus).used = true ∧ Contains (s.wins s.focus) x y

instance (s : Windows) (x y : Int) : Decidable (s.FrontCovers x y) :=
  inferInstanceAs (Decidable (_ ∧ _))

theorem winAt_front {x y : Int} (covers : s.FrontCovers x y) :
    s.winAt x y = s.focus := if_pos covers

theorem winAt_behind {x y : Int} (behind : ¬ s.FrontCovers x y) : s.winAt x y =
    (slots.reverse.find? fun i => (s.wins i).used ∧ Contains (s.wins i) x y).getD (-1) := if_neg behind

theorem winAt_paintedLast (s : Windows) (x y : Int) : s.winAt x y = s.paintedLast x y := by
  unfold paintedLast paintOrder
  rw [List.reverse_append, List.find?_append]
  by_cases covers : s.FrontCovers x y
  · rw [winAt_front covers, if_pos ⟨covers.1, covers.2.1⟩, List.reverse_singleton]
    simp [covers.2.2]
  · rw [winAt_behind covers]
    have skipped : (if 0 ≤ s.focus ∧ (s.wins s.focus).used = true then [s.focus] else []).reverse.find?
        (fun i => decide (Contains (s.wins i) x y)) = none := by
      split
      next front => simpa using fun inside => covers ⟨front.1, front.2, inside⟩
      next => rfl
    rw [skipped, Option.none_or, ← List.filter_reverse, List.find?_filter]
    refine congrArg (Option.getD · (-1)) (find_slots_congr fun i slot => ?_)
    by_cases same : i = s.focus
    · have outside : ¬ ((s.wins i).used = true ∧ Contains (s.wins i) x y) := fun inside => by
        rw [same] at slot inside
        exact covers ⟨slot.1, inside.1, inside.2⟩
      simpa [same] using outside
    · simp [same]

/-- What a click at a point acts on is the window that is seen there. -/
def ClickVisible (s : Windows) (x y : Int) : Prop :=
  s.winAt x y = s.paintedLast x y ∧
    ∀ i, 0 ≤ i → s.winAtClose x y = i → i = s.paintedLast x y ∧ InCloseBox (s.wins i) x y

/-- Of the close boxes that hold the point, the one in the highest slot belongs to the front window,
or to a window with neither the front window nor a window of a higher slot over the point. -/
def CloseBoxOnTop (s : Windows) (x y : Int) : Prop :=
  ∀ i, IsSlot i → (s.wins i).used = true → InCloseBox (s.wins i) x y →
    (∀ j, IsSlot j → i < j → (s.wins j).used = true → ¬ InCloseBox (s.wins j) x y) →
      i = s.focus ∨ (¬ s.FrontCovers x y ∧
        ∀ j, IsSlot j → i < j → (s.wins j).used = true → ¬ Contains (s.wins j) x y)

def Sized (s : Windows) : Prop :=
  ∀ i, IsSlot i → (s.wins i).used = true → (s.wins i).w = 168 ∧ (s.wins i).h = 88

theorem Sized.contains (sized : s.Sized) {i : Int} (slot : IsSlot i) (used : (s.wins i).used = true)
    {x y : Int} (box : InCloseBox (s.wins i) x y) : Contains (s.wins i) x y := by
  obtain ⟨width, height⟩ := sized i slot used
  unfold InCloseBox at box
  unfold Contains
  dsimp only at box
  omega

theorem scan_highest {p : Int → Bool} {i : Int} (low : 0 ≤ i) :
    (slots.reverse.find? p).getD (-1) = i ↔
    IsSlot i ∧ p i = true ∧ ∀ j, IsSlot j → i < j → p j = false := by
  rw [← find_highest]
  constructor
  · intro same
    cases hit : slots.reverse.find? p with
    | none =>
      rw [hit, Option.getD_none] at same
      omega
    | some j =>
      rw [hit, Option.getD_some] at same
      exact congrArg some same
  · intro same
    rw [same, Option.getD_some]

theorem winAtClose_highest {x y i : Int} (low : 0 ≤ i) : s.winAtClose x y = i ↔
    IsSlot i ∧ ((s.wins i).used = true ∧ InCloseBox (s.wins i) x y) ∧
      ∀ j, IsSlot j → i < j → (s.wins j).used = true → ¬ InCloseBox (s.wins j) x y := by
  unfold winAtClose
  rw [scan_highest low]
  simp only [decide_eq_true_eq, decide_eq_false_iff_not, not_and]

theorem winAt_highest {x y i : Int} (behind : ¬ s.FrontCovers x y) (low : 0 ≤ i) : s.winAt x y = i ↔
    IsSlot i ∧ ((s.wins i).used = true ∧ Contains (s.wins i) x y) ∧
      ∀ j, IsSlot j → i < j → (s.wins j).used = true → ¬ Contains (s.wins j) x y := by
  rw [winAt_behind behind, scan_highest low]
  simp only [decide_eq_true_eq, decide_eq_false_iff_not, not_and]

theorem clickVisible_iff (sized : s.Sized) (x y : Int) :
    s.ClickVisible x y ↔ s.CloseBoxOnTop x y := by
  unfold ClickVisible
  rw [← winAt_paintedLast]
  constructor
  · rintro ⟨-, visible⟩ i slot used box highest
    have hit := (winAtClose_highest slot.1).mpr ⟨slot, ⟨used, box⟩, highest⟩
    have seen := (visible i slot.1 hit).1
    by_cases covers : s.FrontCovers x y
    · exact .inl (seen.trans (winAt_front covers))
    · exact .inr ⟨covers, ((winAt_highest covers slot.1).mp seen.symm).2.2⟩
  · refine fun top => ⟨rfl, fun i low hit => ?_⟩
    obtain ⟨slot, ⟨used, box⟩, highest⟩ := (winAtClose_highest low).mp hit
    have inside := sized.contains slot used box
    refine ⟨?_, box⟩
    rcases top i slot used box highest with rfl | ⟨behind, above⟩
    · exact (winAt_front ⟨low, used, inside⟩).symm
    · exact ((winAt_highest behind low).mpr ⟨slot, ⟨used, inside⟩, above⟩).symm

theorem Sized.of_kept {s' : Windows} (sized : s.Sized) (kept : ∀ i, (s'.wins i).used = true →
    (s.wins i).used = true ∧ (s'.wins i).w = (s.wins i).w ∧ (s'.wins i).h = (s.wins i).h) :
      s'.Sized := by
  intro i slot used'
  obtain ⟨used, width, height⟩ := kept i used'
  rw [width, height]
  exact sized i slot used

theorem box_size {w w' : Window} (same : w'.box = w.box) : w'.w = w.w ∧ w'.h = w.h := by
  simp only [Window.box, Prod.mk.injEq] at same
  exact ⟨same.2.2.1, same.2.2.2⟩

theorem Sized.winRaise (sized : s.Sized) (idx : Int) : (s.winRaise idx).Sized :=
  sized.of_kept fun i used => ⟨(winRaise_used_eq s idx i).symm.trans used, box_size (winRaise_box s idx i)⟩

theorem Sized.winClose (sized : s.Sized) (idx : Int) : (s.winClose idx).Sized :=
  sized.of_kept fun i used => ⟨winClose_opens s idx i used, box_size (winClose_box s idx i)⟩

theorem Sized.winOpen (sized : s.Sized) (type : WinType) : (s.winOpen type).Sized := by
  rcases winOpen_cases s type with ⟨-, full⟩ | ⟨i, -, -, opened⟩
  · rw [full]
    exact sized
  · rw [opened]
    refine Sized.winRaise (fun j slot used => ?_) i
    dsimp only at used ⊢
    by_cases same : j = i
    · rw [same, modify_same]
      exact ⟨rfl, rfl⟩
    · rw [modify_other same] at used ⊢
      exact sized j slot used

theorem Sized.tabCycle (sized : s.Sized) : s.tabCycle.Sized := by
  unfold Windows.tabCycle
  split
  · exact sized.winRaise _
  · exact sized

end Windows

section Painting

variable (font : Nat → Nat → Byte)

def drawDesktop (fb : FrameBuffer) : FrameBuffer :=
  gridDots.foldl (fun (fb : FrameBuffer) dot => fb.gfxPutpixel dot.1 dot.2 0x09) (fb.gfxClear 0x01)

def drawTaskbar (s : Windows) (fb : FrameBuffer) : FrameBuffer :=
  drawButtons font s ((fb.gfxFillrect 0 (gfxH - taskbarH) (gfxW - 1) (gfxH - 1) 0x00).gfxDrawstring font 4
    (gfxH - 10) "NovaOS".toList 0x0A 0x00) Windows.slots 60

theorem redrawAll_order (status : Status) (s : Windows) (fb : FrameBuffer) :
    redrawAll font status s fb = drawTaskbar font s
      (s.paintOrder.foldl (fun fb i => winDraw font status fb (s.wins i)) (drawDesktop fb)) := by
  unfold redrawAll drawTaskbar drawDesktop Windows.paintOrder
  dsimp only
  rw [List.foldl_append, List.foldl_filter]
  have skip : (fun (fb : FrameBuffer) i =>
      if (s.wins i).used = false ∨ i = s.focus then fb else winDraw font status fb (s.wins i)) =
      fun fb i => if ((s.wins i).used && i != s.focus) = true then winDraw font status fb (s.wins i) else fb := by
    funext fb i
    by_cases used : (s.wins i).used = true <;> by_cases front : i = s.focus <;> simp [used, front]
  rw [skip]
  by_cases front : 0 ≤ s.focus ∧ (s.wins s.focus).used = true
  · rw [if_pos front, if_pos front]
    rfl
  · rw [if_neg front, if_neg front]
    rfl

end Painting

namespace Gui

variable {g : Gui} (font : Nat → Nat → Byte)

theorem onClick_sized (sized : g.win.Sized) (mx my : Int) : (g.onClick mx my).win.Sized := by
  unfold Gui.onClick
  dsimp only
  split
  · exact sized.winClose _
  · split
    · exact sized.winRaise _
    · exact sized

theorem dragMove_sized (sized : g.win.Sized) (mx my : Int) : (g.dragMove mx my).win.Sized := by
  unfold Gui.dragMove
  dsimp only
  split
  next =>
    refine sized.of_kept fun i used => ?_
    have same {α : Type} (field : Window → α) (kept : ∀ (w : Window) x y, field { w with x, y } = field w) :=
      Windows.modify_keeps (s := g.win) field g.drag (fun w => { w with
        x := dragTo mx g.dragDx (g.win.wins g.drag).w gfxW
        y := dragTo my g.dragDy (g.win.wins g.drag).h (gfxH - taskbarH) }) (fun w => kept w _ _) i
    exact ⟨(same Window.used fun _ _ _ => rfl).symm.trans used, same Window.w fun _ _ _ => rfl,
      same Window.h fun _ _ _ => rfl⟩
  next => exact sized

theorem keyboard_sized (sized : g.win.Sized) (c : Int) : (g.keyboard c).win.Sized := by
  rcases keyboard_cases g c with same | ⟨-, closed⟩ | ⟨type, opened⟩ | cycled
  · rw [same]
    exact sized
  · rw [closed]
    exact sized.winClose _
  · rw [opened]
    exact sized.winOpen type
  · rw [cycled]
    exact sized.tabCycle

theorem frame_sized (sized : g.win.Sized) (f : Frame) : (g.frame font f).win.Sized := by
  have pointed : (g.pointer f.arrivals).1.win.Sized :=
    pointer_keeps (fun g => g.win.Sized) f.arrivals (fun _ start => onClick_sized start _ _)
      (fun _ kept => kept) (fun _ kept _ mx my => dragMove_sized kept mx my) sized
  unfold Gui.frame
  split
  next =>
    have pressed := keyboard_sized pointed f.key
    dsimp only
    split <;> exact pressed
  next => exact sized

theorem run_sized (sized : g.win.Sized) (frames : List Frame) : (g.run font frames).win.Sized := by
  induction frames generalizing g with
  | nil => exact sized
  | cons f rest ih => exact ih (frame_sized font sized f)

theorem guiEnter_sized (wins : Int → Window) (mouse : Mouse) (fb : FrameBuffer) :
    (guiEnter wins mouse fb).win.Sized := by
  obtain ⟨-, -, -, free⟩ := Windows.noneOpen_spec wins
  have start : (Windows.noneOpen wins).Sized := fun i slot used => by simp [free i slot] at used
  exact ((start.winOpen .console).winOpen .about).winOpen .meminfo

/-- In every reachable arrangement the windows are painted in the paint order, and a click at a point
acts on the window painted last there exactly if the close box it hits is on top. -/
theorem click_visible_iff (wins : Int → Window) (mouse : Mouse) (fb : FrameBuffer)
    (frames : List Frame) :
    let s := ((guiEnter wins mouse fb).run font frames).win
    (∀ status fb, redrawAll font status s fb = drawTaskbar font s
      (s.paintOrder.foldl (fun fb i => winDraw font status fb (s.wins i)) (drawDesktop fb))) ∧
      ∀ x y, s.ClickVisible x y ↔ s.CloseBoxOnTop x y :=
  ⟨fun status fb => redrawAll_order font status _ fb,
    Windows.clickVisible_iff (run_sized font (guiEnter_sized wins mouse fb) frames)⟩

def coverFrames : List Frame :=
  [passWith [0x00, 0x80, 0x50, 0x01, 0xF4, 0x00] 0, passWith [0x01, 0x14, 0xFA] 0]

theorem click_hidden : ¬ ∀ (font : Nat → Nat → Byte) (wins : Int → Window) (mouse : Mouse) (fb : FrameBuffer)
    (frames : List Frame) (x y : Int), y < gfxH - taskbarH →
      ((guiEnter wins mouse fb).run font frames).win.ClickVisible x y := by
  intro always
  have visible :=
    always (fun _ _ => 0) (fun _ => emptyWindow) mouseEnabled ⟨fun _ => 0, []⟩ coverFrames
    186 35 (by decide)
  have hit : ((guiEnter (fun _ => emptyWindow) mouseEnabled ⟨fun _ => 0, []⟩).run (fun _ _ => 0)
      coverFrames).win.winAtClose 186 35 = 1 := by decide +kernel
  have seen : ((guiEnter (fun _ => emptyWindow) mouseEnabled ⟨fun _ => 0, []⟩).run (fun _ _ => 0)
      coverFrames).win.winAt 186 35 = 0 := by decide +kernel
  have same := (visible.2 1 (by decide) hit).1
  rw [← visible.1, seen] at same
  exact absurd same (by decide)

end Gui

end NovaKernel
