import NovaKernel.GuiWindows

set_option autoImplicit false

namespace NovaKernel

structure Window.Inside (w : Window) : Prop where
  left : 0 ≤ w.x
  right : w.x + w.w ≤ gfxW
  top : 0 ≤ w.y
  bottom : w.y + w.h ≤ gfxH - taskbarH

structure Window.Placed (w : Window) : Prop where
  width : w.w = 168
  height : w.h = 88
  inside : w.Inside

def Window.box (w : Window) : Int × Int × Int × Int := (w.x, w.y, w.w, w.h)

theorem Window.Placed.congr {w w' : Window} (same : w'.box = w.box) (placed : w.Placed) :
    w'.Placed := by
  obtain ⟨width, height, left, right, top, bottom⟩ := placed
  simp only [box, Prod.mk.injEq] at same
  refine ⟨by omega, by omega, ?_⟩
  constructor <;> omega

namespace Windows

variable {s : Windows}

theorem unfocus_keeps {α : Type} (field : Window → α)
    (kept : ∀ (w : Window) flag, field { w with focused := flag } = field w) (s : Windows) (idx i : Int) :
    field ((s.unfocus idx).wins i) = field (s.wins i) := by
  unfold unfocus
  split
  · exact modify_keeps field _ _ (fun w => kept w false) i
  · rfl

theorem winRaise_keeps {α : Type} (field : Window → α)
    (kept : ∀ (w : Window) flag, field { w with focused := flag } = field w) (s : Windows) (idx i : Int) :
    field ((s.winRaise idx).wins i) = field (s.wins i) := by
  by_cases open' : IsSlot idx ∧ (s.wins idx).used = true
  next =>
    rw [winRaise_used open'.1 open'.2]
    exact (modify_keeps field _ _ (fun w => kept w true) i).trans (unfocus_keeps field kept s idx i)
  next => rw [winRaise_ignored open']

theorem winRaise_used_eq (s : Windows) (idx i : Int) :
    ((s.winRaise idx).wins i).used = (s.wins i).used :=
  winRaise_keeps Window.used (fun _ _ => rfl) s idx i

theorem winRaise_box (s : Windows) (idx i : Int) : ((s.winRaise idx).wins i).box = (s.wins i).box :=
  winRaise_keeps Window.box (fun _ _ => rfl) s idx i

theorem winRaise_counts (s : Windows) (idx : Int) :
    (s.winRaise idx).cascade = s.cascade ∧ (s.winRaise idx).opened = s.opened := by
  by_cases open' : IsSlot idx ∧ (s.wins idx).used = true
  next =>
    rw [winRaise_used open'.1 open'.2]
    unfold unfocus
    split <;> exact ⟨rfl, rfl⟩
  next =>
    rw [winRaise_ignored open']
    exact ⟨rfl, rfl⟩

theorem winRaise_focus {idx : Int} (slot : IsSlot idx) (used : (s.wins idx).used = true) :
    (s.winRaise idx).focus = idx := by
  rw [winRaise_used slot used, modify_focus]

theorem winClose_keeps {α : Type} (field : Window → α)
    (kept : ∀ (w : Window) flag, field { w with focused := flag } = field w) (s : Windows) (idx i : Int) :
    field ((s.winClose idx).wins i) =
      if IsSlot idx ∧ (s.wins idx).used = true then field ((s.drop idx).wins i)
      else field (s.wins i) := by
  by_cases open' : IsSlot idx ∧ (s.wins idx).used = true
  next =>
    rw [winClose_used open'.1 open'.2, if_pos open']
    split
    · exact modify_keeps field _ _ (fun w => kept w true) i
    · rfl
  next => rw [winClose_ignored open', if_neg open']

theorem winClose_box (s : Windows) (idx i : Int) :
    ((s.winClose idx).wins i).box = (s.wins i).box := by
  rw [winClose_keeps Window.box (fun _ _ => rfl)]
  split
  · exact modify_keeps Window.box idx (fun w => { w with used := false }) (fun _ => rfl) i
  · rfl

theorem winClose_opens (s : Windows) (idx i : Int) (used : ((s.winClose idx).wins i).used = true) :
    (s.wins i).used = true := by
  rw [winClose_keeps Window.used (fun _ _ => rfl)] at used
  split at used
  next =>
    by_cases same : i = idx
    next => simp [same, drop, modify_same] at used
    next => simpa [drop, modify_other same] using used
  next => exact used

theorem winClose_counts (s : Windows) (idx : Int) :
    (s.winClose idx).cascade = s.cascade ∧ (s.winClose idx).opened = s.opened := by
  by_cases open' : IsSlot idx ∧ (s.wins idx).used = true
  next =>
    rw [winClose_used open'.1 open'.2]
    split <;> exact ⟨rfl, rfl⟩
  next =>
    rw [winClose_ignored open']
    exact ⟨rfl, rfl⟩

structure Fits (s : Windows) : Prop where
  placed : ∀ i, IsSlot i → (s.wins i).used = true → (s.wins i).Placed
  focus : s.FocusUsed

theorem Fits.winRaise {idx : Int} (fits : s.Fits) : (s.winRaise idx).Fits where
  placed := fun i slot used =>
    (fits.placed i slot ((winRaise_used_eq s idx i).symm.trans used)).congr (winRaise_box s idx i)
  focus := by
    by_cases open' : IsSlot idx ∧ (s.wins idx).used = true
    next =>
      refine .inr ?_
      rw [winRaise_focus open'.1 open'.2]
      exact ⟨open'.1, (winRaise_used_eq s idx idx).trans open'.2⟩
    next =>
      rw [winRaise_ignored open']
      exact fits.focus

theorem Fits.winClose {idx : Int} (fits : s.Fits) : (s.winClose idx).Fits where
  placed := fun i slot used =>
    (fits.placed i slot (winClose_opens s idx i used)).congr (winClose_box s idx i)
  focus := by
    by_cases open' : IsSlot idx ∧ (s.wins idx).used = true
    next =>
      rw [winClose_used open'.1 open'.2]
      rcases highestUsed_cases (s.drop idx) with ⟨none, -⟩ | ⟨slot, used, -⟩
      · rw [none]
        exact .inl rfl
      · rw [if_pos slot.1]
        refine .inr ⟨slot, ?_⟩
        rw [modify_focus, modify_same]
        exact used
    next =>
      rw [winClose_ignored open']
      exact fits.focus

theorem openedWindow_placed (type : WinType) {cascade : Int} (counted : 0 ≤ cascade) (w : Window) :
    (openedWindow type cascade w).Placed := by
  have step : cascade.tmod 6 = cascade % 6 := Int.tmod_eq_emod_of_nonneg counted
  refine ⟨rfl, rfl, ?_⟩
  constructor <;> simp only [openedWindow, step, cascadeX, cascadeY, gfxW, gfxH, taskbarH] <;> omega

theorem Fits.winOpen (fits : s.Fits) (counted : 0 ≤ s.cascade) (type : WinType) :
    (s.winOpen type).Fits := by
  rcases winOpen_cases s type with ⟨-, full⟩ | ⟨i, slot, free, opened⟩
  · rw [full]
    exact fits
  · rw [opened]
    refine Fits.winRaise ⟨fun j slot' used => ?_, ?_⟩
    next =>
      by_cases same : j = i
      next =>
        rw [same]
        refine (openedWindow_placed type counted (s.wins i)).congr (congrArg Window.box ?_)
        exact modify_same s i _
      next =>
        have kept : (s.modify i (openedWindow type s.cascade)).wins j = s.wins j :=
          modify_other same _
        dsimp only at used ⊢
        rw [kept] at used ⊢
        exact fits.placed j slot' used
    next =>
      rcases fits.focus with none | ⟨slot', used⟩
      · exact .inl none
      · refine .inr ⟨slot', ?_⟩
        have other : s.focus ≠ i := fun same => by simp [same, free] at used
        dsimp only [modify_focus]
        rw [modify_other other]
        exact used

theorem winOpen_placed {i : Int} (placed : (s.wins i).Placed) (counted : 0 ≤ s.cascade)
    (type : WinType) : ((s.winOpen type).wins i).Placed := by
  rcases winOpen_cases s type with ⟨-, full⟩ | ⟨j, -, -, opened⟩
  · rw [full]
    exact placed
  · rw [opened]
    refine Window.Placed.congr (winRaise_box _ j i) ?_
    by_cases same : i = j
    next =>
      rw [same]
      exact (openedWindow_placed type counted (s.wins j)).congr
        (congrArg Window.box (modify_same s j (openedWindow type s.cascade)))
    next =>
      exact placed.congr (congrArg Window.box (modify_other same (openedWindow type s.cascade)))

theorem winOpen_counts (s : Windows) (type : WinType) :
    ((s.winOpen type).cascade = s.cascade ∧ (s.winOpen type).opened = s.opened) ∨
    ((s.winOpen type).cascade = int (s.cascade + 1) ∧ (s.winOpen type).opened = s.opened + 1) := by
  rcases winOpen_cases s type with ⟨-, full⟩ | ⟨i, -, -, opened⟩
  · rw [full]
    exact .inl ⟨rfl, rfl⟩
  · rw [opened]
    exact .inr (winRaise_counts _ i)

/-- While fewer than 2^31 windows were opened the cascade counter is their number. -/
def Counted (s : Windows) : Prop := s.opened < 2 ^ 31 → s.cascade = s.opened

theorem Counted.winOpen (counted : s.Counted) (type : WinType) : (s.winOpen type).Counted := by
  intro few
  rcases winOpen_counts s type with ⟨cascade, opened⟩ | ⟨cascade, opened⟩
  · rw [cascade, opened]
    exact counted (opened ▸ few)
  · rw [opened] at few ⊢
    have earlier := counted (by omega)
    rw [cascade, earlier, int_of_range (by omega) (by omega)]
    rfl

theorem Fits.tabCycle (fits : s.Fits) : s.tabCycle.Fits := by
  unfold Windows.tabCycle
  split
  · exact fits.winRaise
  · exact fits

end Windows

section Drawing

variable (font : Nat → Nat → Byte) {fb : FrameBuffer} (kept : fb.StoredIn InFrame)
include kept

theorem winDrawFrame_stored {w : Window} (placed : w.Placed) :
    (winDrawFrame font fb w).StoredIn InFrame := by
  obtain ⟨width, height, left, -, top, -⟩ := placed
  unfold winDrawFrame
  dsimp only
  refine FrameBuffer.gfxDrawchar_stored font ?_ _ _ _ _ _
  refine FrameBuffer.gfxFillrect_stored ?_ (by omega) (by omega) _ _ _
  refine VideoMem.StoredIn.foldl _ _
    (fun m c _ stored => FrameBuffer.gfxDrawchar_stored font stored _ _ _ _ _) ?_
  refine FrameBuffer.gfxFillrect_stored ?_ (by omega) (by omega) _ _ _
  refine FrameBuffer.gfxFillrect_stored ?_ (by omega) (by omega) _ _ _
  refine FrameBuffer.gfxFillrect_stored ?_ (by omega) (by omega) _ _ _
  refine FrameBuffer.gfxFillrect_stored ?_ (by omega) (by omega) _ _ _
  refine FrameBuffer.gfxFillrect_stored ?_ (by omega) (by omega) _ _ _
  exact FrameBuffer.gfxFillrect_stored kept (by omega) (by omega) _ _ _

theorem winDrawContent_stored (status : Status) (w : Window) :
    (winDrawContent font status fb w).StoredIn InFrame :=
  VideoMem.StoredIn.foldl _ _
    (fun _ _ _ stored => FrameBuffer.gfxDrawstring_stored font stored _ _ _ _ _) kept

theorem winDraw_stored (status : Status) {w : Window} (placed : w.Placed) :
    (winDraw font status fb w).StoredIn InFrame :=
  winDrawContent_stored font (winDrawFrame_stored font kept placed) status w

theorem drawButtons_stored (s : Windows) (slots : List Int) {bx : Int} (start : 60 ≤ bx) :
    (drawButtons font s fb slots bx).StoredIn InFrame := by
  induction slots generalizing fb bx with
  | nil => exact kept
  | cons i rest ih =>
    unfold drawButtons
    split
    · exact ih kept start
    · have right : 0 ≤ bx - 2 := by omega
      have below : 0 ≤ gfxH - taskbarH + 1 := by decide
      have drawn := FrameBuffer.gfxDrawchar_stored font
        (FrameBuffer.gfxFillrect_stored kept right below (bx + 42) (gfxH - 2)
          (if i = s.focus then 0x09 else 0x08))
        (bx + 16) (gfxH - 10) ((s.wins i).title.headD '\x00') 0x0F (if i = s.focus then 0x09 else 0x08)
      dsimp only
      split
      · exact drawn
      · exact ih drawn (by omega)

theorem redrawAll_stored (status : Status) {s : Windows} (fits : s.Fits) :
    (redrawAll font status s fb).StoredIn InFrame := by
  unfold redrawAll
  dsimp only
  refine drawButtons_stored font ?_ s _ (by decide)
  refine FrameBuffer.gfxDrawstring_stored font ?_ _ _ _ _ _
  refine FrameBuffer.gfxFillrect_stored ?_ (by decide) (by decide) _ _ _
  have background : (Windows.slots.foldl (fun fb i =>
      if (s.wins i).used = false ∨ i = s.focus then fb else winDraw font status fb (s.wins i))
      (gridDots.foldl (fun (fb : FrameBuffer) dot => fb.gfxPutpixel dot.1 dot.2 0x09)
        (fb.gfxClear 0x01))).StoredIn InFrame := by
    refine VideoMem.StoredIn.foldl _ _ (fun m i member stored => ?_) ?_
    next =>
      split
      next => exact stored
      next drawn =>
        have used : (s.wins i).used = true := by simpa using fun free => drawn (.inl free)
        exact winDraw_stored font stored status (fits.placed i (Windows.mem_slots.mp member) used)
    next =>
      exact VideoMem.StoredIn.foldl _ _
        (fun _ _ _ stored => FrameBuffer.gfxPutpixel_stored stored _ _ _)
        (FrameBuffer.gfxClear_stored kept _)
  split
  next front =>
    rcases fits.focus with none | ⟨slot, used⟩
    · omega
    · exact winDraw_stored font background status (fits.placed _ slot used)
  next => exact background

theorem drawCursor_stored (x y : Int) : (drawCursor fb x y).StoredIn InFrame := by
  unfold drawCursor
  refine VideoMem.StoredIn.foldl _ _
    (fun _ _ _ stored => FrameBuffer.gfxPutpixel_stored stored _ _ _) ?_
  refine VideoMem.StoredIn.foldl _ _
    (fun _ _ _ stored => FrameBuffer.gfxPutpixel_stored stored _ _ _) ?_
  exact VideoMem.StoredIn.foldl _ _
    (fun _ _ _ stored => FrameBuffer.gfxPutpixel_stored stored _ _ _) kept

end Drawing

namespace Gui

variable {g : Gui}

/-- The loop's invariant; a dragged slot keeps its box even when its window was closed. -/
structure Ok (g : Gui) : Prop where
  windows : g.win.Fits
  dragged : 0 ≤ g.drag → Windows.IsSlot g.drag ∧ (g.win.wins g.drag).Placed
  stores : g.fb.StoredIn InFrame

theorem Ok.onClick (ok : g.Ok) (mx my : Int) : (g.onClick mx my).Ok := by
  unfold Gui.onClick
  dsimp only
  split
  next =>
    refine ⟨ok.windows.winClose, fun active => ?_, ok.stores⟩
    dsimp only at active
    omega
  next =>
    split
    next hit =>
      obtain ⟨slot, used⟩ := Windows.winAtTitle_used ok.windows.focus hit
      refine ⟨ok.windows.winRaise, fun _ => ⟨slot, ?_⟩, ok.stores⟩
      exact (ok.windows.placed _ slot used).congr (Windows.winRaise_box _ _ _)
    next => exact ok

theorem dragTo_range {size limit : Int} (fits : size ≤ limit) (cursor offset : Int) :
    0 ≤ dragTo cursor offset size limit ∧ dragTo cursor offset size limit + size ≤ limit := by
  unfold dragTo
  dsimp only
  split <;> split <;> omega

theorem Ok.dragMove (ok : g.Ok) (active : 0 ≤ g.drag) (mx my : Int) : (g.dragMove mx my).Ok := by
  obtain ⟨slot, placed⟩ := ok.dragged active
  unfold Gui.dragMove
  dsimp only
  split
  next =>
    obtain ⟨width, height, -⟩ := placed
    have narrow : (g.win.wins g.drag).w ≤ gfxW := by simp only [width, gfxW]; decide
    have low : (g.win.wins g.drag).h ≤ gfxH - taskbarH := by
      simp only [height, gfxH, taskbarH]; decide
    have column := dragTo_range narrow mx g.dragDx
    have row := dragTo_range low my g.dragDy
    have moved : ({ g.win.wins g.drag with
        x := dragTo mx g.dragDx (g.win.wins g.drag).w gfxW
        y := dragTo my g.dragDy (g.win.wins g.drag).h (gfxH - taskbarH) } : Window).Placed :=
      ⟨width, height, column.1, column.2, row.1, row.2⟩
    refine ⟨⟨fun i slot' used => ?_, ?_⟩, fun _ => ⟨slot, ?_⟩, ok.stores⟩
    next =>
      dsimp only at used ⊢
      by_cases same : i = g.drag
      next =>
        rw [same, Windows.modify_same]
        exact moved
      next =>
        rw [Windows.modify_other same] at used ⊢
        exact ok.windows.placed i slot' used
    next =>
      rcases ok.windows.focus with none | ⟨slot', used⟩
      · exact .inl none
      · refine .inr ⟨slot', ?_⟩
        have kept := Windows.modify_keeps (s := g.win) Window.used g.drag (fun w => { w with
          x := dragTo mx g.dragDx (g.win.wins g.drag).w gfxW
          y := dragTo my g.dragDy (g.win.wins g.drag).h (gfxH - taskbarH) }) (fun _ => rfl) g.win.focus
        exact kept.trans used
    next =>
      dsimp only
      rw [Windows.modify_same]
      exact moved
  next => exact ok

theorem pointer_keeps (P : Gui → Prop) (a : Mouse.Arrivals)
    (click : (g.mouse.snapshot a).1.click = true → P { g with mouse := (g.mouse.snapshot a).2 } →
      P (Gui.onClick { g with mouse := (g.mouse.snapshot a).2 } (g.mouse.snapshot a).1.mx
        (g.mouse.snapshot a).1.my))
    (release : ∀ g, P g → P { g with drag := -1 })
    (move : ∀ g, P g → 0 ≤ g.drag → ∀ mx my, P (g.dragMove mx my))
    (start : P { g with mouse := (g.mouse.snapshot a).2 }) : P (g.pointer a).1 := by
  unfold Gui.pointer
  dsimp only
  have clicked : P (if (g.mouse.snapshot a).1.click = true then
      Gui.onClick { g with mouse := (g.mouse.snapshot a).2 } (g.mouse.snapshot a).1.mx
        (g.mouse.snapshot a).1.my else { g with mouse := (g.mouse.snapshot a).2 }) := by
    split
    next pressed => exact click pressed start
    next => exact start
  generalize (if (g.mouse.snapshot a).1.click = true then
      Gui.onClick { g with mouse := (g.mouse.snapshot a).2 } (g.mouse.snapshot a).1.mx
        (g.mouse.snapshot a).1.my else { g with mouse := (g.mouse.snapshot a).2 }) = g₁ at clicked ⊢
  have released : P (if (g.mouse.snapshot a).1.release = true then { g₁ with drag := -1 } else g₁) := by
    split
    · exact release g₁ clicked
    · exact clicked
  generalize (if (g.mouse.snapshot a).1.release = true then { g₁ with drag := -1 } else g₁) = g₂
    at released ⊢
  split
  next active => exact move g₂ released active.1 _ _
  next => exact released

theorem Ok.pointer (ok : g.Ok) (a : Mouse.Arrivals) : (g.pointer a).1.Ok := by
  refine pointer_keeps Ok a (fun _ start => start.onClick _ _) (fun g ok => ?_)
    (fun g ok active mx my => ok.dragMove active mx my) ⟨ok.windows, ok.dragged, ok.stores⟩
  refine ⟨ok.windows, fun active => ?_, ok.stores⟩
  dsimp only at active
  omega

theorem onClick_counts (g : Gui) (mx my : Int) :
    (g.onClick mx my).win.cascade = g.win.cascade ∧
      (g.onClick mx my).win.opened = g.win.opened := by
  unfold Gui.onClick
  dsimp only
  split
  · exact Windows.winClose_counts _ _
  · split
    · exact Windows.winRaise_counts _ _
    · exact ⟨rfl, rfl⟩

theorem dragMove_counts (g : Gui) (mx my : Int) :
    (g.dragMove mx my).win.cascade = g.win.cascade ∧
      (g.dragMove mx my).win.opened = g.win.opened := by
  unfold Gui.dragMove
  dsimp only
  split <;> exact ⟨rfl, rfl⟩

theorem pointer_counts (g : Gui) (a : Mouse.Arrivals) :
    (g.pointer a).1.win.cascade = g.win.cascade ∧ (g.pointer a).1.win.opened = g.win.opened := by
  refine pointer_keeps (fun g' => g'.win.cascade = g.win.cascade ∧ g'.win.opened = g.win.opened) a
    (fun _ _ => onClick_counts _ _ _) (fun _ kept => kept) (fun g' kept _ mx my => ?_) ⟨rfl, rfl⟩
  obtain ⟨cascade, opened⟩ := dragMove_counts g' mx my
  exact ⟨cascade.trans kept.1, opened.trans kept.2⟩

theorem keyboard_cases (g : Gui) (c : Int) :
    (g.keyboard c).win = g.win ∨ (0 ≤ g.win.focus ∧ (g.keyboard c).win = g.win.winClose g.win.focus) ∨
      (∃ type, (g.keyboard c).win = g.win.winOpen type) ∨ (g.keyboard c).win = g.win.tabCycle := by
  unfold Gui.keyboard
  split
  next =>
    dsimp only
    split
    next front => exact .inr (.inl ⟨front, rfl⟩)
    next => exact .inl rfl
  next =>
    repeat' split
    all_goals first
      | exact .inl rfl
      | exact .inr (.inr (.inl ⟨_, rfl⟩))
      | exact .inr (.inr (.inr rfl))

theorem keyboard_rest (g : Gui) (c : Int) :
    (g.keyboard c).drag = g.drag ∧ (g.keyboard c).fb = g.fb := by
  unfold Gui.keyboard
  repeat' split
  all_goals exact ⟨rfl, rfl⟩

theorem Ok.keyboard (ok : g.Ok) (counted : 0 ≤ g.win.cascade) (c : Int) : (g.keyboard c).Ok := by
  obtain ⟨drag, fb⟩ := keyboard_rest g c
  have windows : (g.keyboard c).win.Fits ∧
      ∀ i, (g.win.wins i).Placed → ((g.keyboard c).win.wins i).Placed := by
    rcases keyboard_cases g c with same | ⟨-, closed⟩ | ⟨type, opened⟩ | cycled
    · rw [same]
      exact ⟨ok.windows, fun _ placed => placed⟩
    · rw [closed]
      exact ⟨ok.windows.winClose, fun i placed => placed.congr (Windows.winClose_box _ _ i)⟩
    · rw [opened]
      exact ⟨ok.windows.winOpen counted type,
        fun i placed => Windows.winOpen_placed placed counted type⟩
    · rw [cycled]
      refine ⟨ok.windows.tabCycle, fun i placed => ?_⟩
      unfold Windows.tabCycle
      split
      · exact placed.congr (Windows.winRaise_box _ _ i)
      · exact placed
  refine ⟨windows.1, fun active => ?_, ?_⟩
  next =>
    rw [drag] at active ⊢
    obtain ⟨slot, placed⟩ := ok.dragged active
    exact ⟨slot, windows.2 _ placed⟩
  next =>
    rw [fb]
    exact ok.stores

theorem keyboard_counted (counted : g.win.Counted) (c : Int) :
    (g.keyboard c).win.Counted ∧ g.win.opened ≤ (g.keyboard c).win.opened := by
  rcases keyboard_cases g c with same | ⟨-, closed⟩ | ⟨type, opened⟩ | cycled
  · rw [same]
    exact ⟨counted, le_rfl⟩
  · obtain ⟨cascade, opened⟩ := Windows.winClose_counts g.win g.win.focus
    rw [closed]
    simp only [Windows.Counted, cascade, opened]
    exact ⟨counted, le_rfl⟩
  · rw [opened]
    refine ⟨counted.winOpen type, ?_⟩
    rcases Windows.winOpen_counts g.win type with ⟨-, same⟩ | ⟨-, more⟩ <;> omega
  · have counts : g.win.tabCycle.cascade = g.win.cascade ∧
        g.win.tabCycle.opened = g.win.opened := by
      unfold Windows.tabCycle
      split
      · exact Windows.winRaise_counts _ _
      · exact ⟨rfl, rfl⟩
    rw [cycled]
    simp only [Windows.Counted, counts.1, counts.2]
    exact ⟨counted, le_rfl⟩

variable (font : Nat → Nat → Byte)

theorem Ok.paint (ok : g.Ok) (status : Status) (mx my : Int) : (g.paint font status mx my).Ok := by
  refine ⟨ok.windows, ok.dragged, ?_⟩
  unfold Gui.paint
  dsimp only
  refine drawCursor_stored ?_ mx my
  split
  · exact redrawAll_stored font ok.stores status ok.windows
  · exact ok.stores

/-- The invariant of the loop, for as long as fewer than 2^31 windows were opened. -/
structure Sound (g : Gui) : Prop where
  counted : g.win.Counted
  ok : g.win.opened < 2 ^ 31 → g.Ok

theorem Sound.pointer (sound : g.Sound) (a : Mouse.Arrivals) : (g.pointer a).1.Sound := by
  obtain ⟨cascade, opened⟩ := pointer_counts g a
  refine ⟨?_, fun few => (sound.ok (by omega)).pointer a⟩
  simp only [Windows.Counted, cascade, opened]
  exact sound.counted

theorem Sound.keyboard (sound : g.Sound) (c : Int) : (g.keyboard c).Sound := by
  obtain ⟨counted, more⟩ := keyboard_counted sound.counted c
  refine ⟨counted, fun few => ?_⟩
  have fewer : g.win.opened < 2 ^ 31 := by omega
  have number := sound.counted fewer
  exact (sound.ok fewer).keyboard (by omega) c

theorem Sound.frame (sound : g.Sound) (f : Frame) : (g.frame font f).Sound := by
  unfold Gui.frame
  split
  next =>
    have pressed := (sound.pointer f.arrivals).keyboard f.key
    dsimp only
    split
    · exact ⟨pressed.counted, fun few => (pressed.ok few).paint font _ _ _⟩
    · exact pressed
  next => exact sound

theorem Sound.run (sound : g.Sound) (frames : List Frame) : (g.run font frames).Sound := by
  induction frames generalizing g with
  | nil => exact sound
  | cons f rest ih => exact ih (sound.frame font f)

theorem guiEnter_sound (wins : Int → Window) (mouse : Mouse) (cells : Int → Byte) :
    (guiEnter wins mouse ⟨cells, []⟩).Sound := by
  obtain ⟨focus, cascade, opened, free⟩ := Windows.noneOpen_spec wins
  have fits : (Windows.noneOpen wins).Fits :=
    ⟨fun i slot used => by simp [free i slot] at used, .inl focus⟩
  have counted : (Windows.noneOpen wins).Counted := fun _ => by rw [cascade, opened]; rfl
  -- three openings from a counter of zero
  have console := counted.winOpen .console
  have about := console.winOpen .about
  have bounds (s : Windows) (type : WinType) : (s.winOpen type).opened ≤ s.opened + 1 := by
    rcases Windows.winOpen_counts s type with ⟨-, same⟩ | ⟨-, more⟩ <;> omega
  have first := bounds (Windows.noneOpen wins) .console
  have second := bounds ((Windows.noneOpen wins).winOpen .console) .about
  have consoleCascade := console (by omega)
  have aboutCascade := about (by omega)
  have nothing : VideoMem.StoredIn ⟨cells, []⟩ InFrame :=
    fun i earlier => absurd earlier List.not_mem_nil
  unfold guiEnter
  refine ⟨about.winOpen .meminfo, fun _ => ⟨?_, fun active => ?_, ?_⟩⟩
  next =>
    exact ((fits.winOpen (by omega) .console).winOpen (by omega) .about).winOpen (by omega) .meminfo
  next =>
    dsimp only at active
    omega
  next =>
    dsimp only
    exact FrameBuffer.gfxClear_stored nothing 0x00

structure InsideDesktop (g : Gui) : Prop where
  windows : ∀ i, Windows.IsSlot i → (g.win.wins i).used = true → (g.win.wins i).Inside
  focus : g.win.FocusUsed
  stores : g.fb.StoredIn InFrame

theorem Ok.insideDesktop (ok : g.Ok) : g.InsideDesktop :=
  ⟨fun i slot used => (ok.windows.placed i slot used).inside, ok.windows.focus, ok.stores⟩

/-- After every pass, and between the mouse and the keyboard half of the next one, the open windows lie
on the desktop and every store of the drawing code so far went to the frame buffer. -/
theorem guiEnter_staysInside (wins : Int → Window) (mouse : Mouse) (cells : Int → Byte)
    (frames : List Frame) (few : ((guiEnter wins mouse ⟨cells, []⟩).run font frames).win.opened < 2 ^ 31) :
    ((guiEnter wins mouse ⟨cells, []⟩).run font frames).InsideDesktop ∧
      ∀ a, (((guiEnter wins mouse ⟨cells, []⟩).run font frames).pointer a).1.InsideDesktop := by
  have ok := ((guiEnter_sound wins mouse cells).run font frames).ok few
  exact ⟨ok.insideDesktop, fun a => (ok.pointer a).insideDesktop⟩

def mouseEnabled : Mouse :=
  { x := 160, y := 100, buttons := 0, prev := 0, pkt0 := 0, pkt1 := 0, pkt2 := 0, cycle := 0
    enabled := true }

def emptyWindow : Window :=
  { used := false, type := .console, x := 0, y := 0, w := 0, h := 0, focused := false, title := [] }

def idleStatus : Status :=
  { freeKb := 0, heapUsed := 0, taskCount := 0, currentPid := 0, ticks := 0, mounted := false
    fatFreeBytes := 0 }

def passWith (packets : List Byte) (key : Int) : Frame :=
  { arrivals := ⟨packets, [], [], [], []⟩, key, status := idleStatus }

def dragFrames : List Frame :=
  [passWith [] 0x63, passWith [0x00, 0xB4, 0x28, 0x01, 0x00, 0x00] 0, passWith [0x01, 0x80, 0x7F] 0]

theorem guiEnter_staysInside_drag :
    ((guiEnter (fun _ => emptyWindow) mouseEnabled ⟨fun _ => 0, []⟩).run (fun _ _ => 0)
        dragFrames).win.opened < 2 ^ 31 ∧
      ((guiEnter (fun _ => emptyWindow) mouseEnabled ⟨fun _ => 0, []⟩).run (fun _ _ => 0)
        dragFrames).InsideDesktop := by
  have few : ((guiEnter (fun _ => emptyWindow) mouseEnabled ⟨fun _ => 0, []⟩).run (fun _ _ => 0)
      dragFrames).win.opened < 2 ^ 31 := by decide +kernel
  exact ⟨few, (guiEnter_staysInside _ _ mouseEnabled _ dragFrames few).1⟩

end Gui

end NovaKernel
