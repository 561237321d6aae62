import NovaKernel.GuiFrame

set_option autoImplicit false

namespace NovaKernel

namespace Windows

variable {s : Windows}

/-- The index and the flags agree: one flagged open window, or no window and no focus. -/
structure OneFocus (s : Windows) : Prop where
  none : (∀ i, IsSlot i → (s.wins i).used = false) → s.focus = -1
  one : (∃ i, IsSlot i ∧ (s.wins i).used = true) →
    IsSlot s.focus ∧ (s.wins s.focus).used = true ∧ (s.wins s.focus).focused = true ∧
      ∀ i, IsSlot i → (s.wins i).used = true → (s.wins i).focused = true → i = s.focus

theorem OneFocus.of_flagged (slot : IsSlot s.focus) (used : (s.wins s.focus).used = true)
    (flagged : (s.wins s.focus).focused = true)
    (only : ∀ i, IsSlot i → (s.wins i).used = true → (s.wins i).focused = true → i = s.focus) :
    s.OneFocus where
  none := fun free => by simp [free s.focus slot] at used
  one := fun _ => ⟨slot, used, flagged, only⟩

theorem OneFocus.of_closed (free : ∀ i, IsSlot i → (s.wins i).used = false) (focus : s.focus = -1) :
    s.OneFocus where
  none := fun _ => focus
  one := by
    rintro ⟨i, slot, used⟩
    simp [free i slot] at used

theorem modify_flag_used (s : Windows) (i : Int) (flag : Bool) (j : Int) :
    ((s.modify i fun w => { w with focused := flag }).wins j).used = (s.wins j).used :=
  modify_keeps Window.used i (fun w => { w with focused := flag }) (fun _ => rfl) j

theorem OneFocus.flag (focus : s.OneFocus) {i : Int} (slot : IsSlot i)
    (used : (s.wins i).used = true) (flagged : (s.wins i).focused = true) : i = s.focus :=
  (focus.one ⟨i, slot, used⟩).2.2.2 i slot used flagged

theorem winRaise_oneFocus {idx : Int} (slot : IsSlot idx) (used : (s.wins idx).used = true)
    (only : ∀ i, IsSlot i → (s.wins i).used = true → (s.wins i).focused = true → i ≠ idx → i = s.focus) :
    (s.winRaise idx).OneFocus := by
  have focus := winRaise_focus slot used
  have raised := winRaise_used slot used
  refine .of_flagged (by rw [focus]; exact slot) ?_ ?_ fun i slot' used' flagged => ?_
  next =>
    rw [focus, winRaise_used_eq]
    exact used
  next => rw [focus, raised, modify_same]
  next =>
    rw [focus]
    by_contra other
    rw [winRaise_used_eq] at used'
    rw [raised, modify_other other] at flagged
    dsimp only at flagged
    -- a flag that `unfocus` left in place was set before, so it is the old focus, which was cleared
    have before : (s.wins i).focused = true := by
      unfold unfocus at flagged
      split at flagged
      next =>
        by_cases same : i = s.focus
        next => simp [same, modify_same] at flagged
        next => rwa [modify_other same] at flagged
      next => exact flagged
    have old := only i slot' used' before other
    have cleared : 0 ≤ s.focus ∧ s.focus ≠ idx ∧ (s.wins s.focus).used = true :=
      ⟨old ▸ slot'.1, old ▸ other, old ▸ used'⟩
    rw [unfocus, if_pos cleared, old, modify_same] at flagged
    exact absurd flagged (by simp)

theorem OneFocus.winRaise {idx : Int} (focus : s.OneFocus) : (s.winRaise idx).OneFocus := by
  by_cases open' : IsSlot idx ∧ (s.wins idx).used = true
  next =>
    exact winRaise_oneFocus open'.1 open'.2 fun i slot used flagged _ =>
      focus.flag slot used flagged
  next =>
    rw [winRaise_ignored open']
    exact focus

theorem OneFocus.winOpen (focus : s.OneFocus) (type : WinType) : (s.winOpen type).OneFocus := by
  rcases winOpen_cases s type with ⟨-, full⟩ | ⟨i, slot, free, opened⟩
  · rw [full]
    exact focus
  · rw [opened]
    refine winRaise_oneFocus slot ?_ fun j slot' used flagged other => ?_
    next =>
      dsimp only
      rw [modify_same]
      rfl
    next =>
      dsimp only at used flagged ⊢
      rw [modify_other other] at used flagged
      exact focus.flag slot' used flagged

theorem OneFocus.tabCycle (focus : s.OneFocus) : s.tabCycle.OneFocus := by
  unfold Windows.tabCycle
  split
  · exact focus.winRaise
  · exact focus

/-- Closing `idx` leaves the flags right: it has the focus, or no other open slot is above the focus. -/
def ClosesCleanly (s : Windows) (idx : Int) : Prop :=
  idx = s.focus ∨ ∀ i, IsSlot i → (s.wins i).used = true → i ≠ idx → i ≤ s.focus

theorem winClose_oneFocus {idx : Int} (focus : s.OneFocus) (slot : IsSlot idx)
    (used : (s.wins idx).used = true) : (s.winClose idx).OneFocus ↔ s.ClosesCleanly idx := by
  obtain ⟨slot₀, used₀, flagged₀, only₀⟩ := focus.one ⟨idx, slot, used⟩
  have kept {i : Int} (other : i ≠ idx) : (s.drop idx).wins i = s.wins i := modify_other other _
  have gone : ((s.drop idx).wins idx).used = false := by simp [drop, modify_same]
  rw [winClose_used slot used]
  rcases highestUsed_cases (s.drop idx) with ⟨none, free⟩ | ⟨high, highUsed, highest⟩
  · -- the last window goes
    refine ⟨fun _ => .inr fun i slot' used' other => ?_, fun _ => ?_⟩
    next =>
      have free' := free i slot'
      rw [kept other, used'] at free'
      exact absurd free' (by simp)
    next =>
      rw [none]
      exact .of_closed free rfl
  · have other : (s.drop idx).highestUsed ≠ idx := fun same => by
      rw [same, gone] at highUsed
      exact absurd highUsed (by simp)
    rw [if_pos high.1]
    constructor
    next =>
      intro one
      by_cases front : idx = s.focus
      next => exact .inl front
      next =>
        -- the old focus is still open and flagged, so it must be the new one
        have same : s.focus = (s.drop idx).highestUsed := by
          have used' : (({ s.drop idx with focus := (s.drop idx).highestUsed }.modify
              (s.drop idx).highestUsed fun w => { w with focused := true }).wins s.focus).used = true := by
            rw [modify_flag_used]
            dsimp only
            rw [kept (Ne.symm front)]
            exact used₀
          refine one.flag slot₀ used' ?_
          by_cases same : s.focus = (s.drop idx).highestUsed
          next => rw [same, modify_same]
          next =>
            rw [modify_other same]
            dsimp only
            rw [kept (Ne.symm front)]
            exact flagged₀
        refine .inr fun i slot' used' other' => ?_
        rw [same]
        exact highest i slot' (by rw [kept other']; exact used')
    next =>
      intro clean
      refine .of_flagged high ?_ ?_ fun i slot' used' flagged => ?_
      next =>
        rw [modify_focus, modify_same]
        exact highUsed
      next => rw [modify_focus, modify_same]
      next =>
        by_contra unequal
        rw [modify_focus] at unequal
        rw [modify_other unequal] at used' flagged
        dsimp only at used' flagged unequal
        have other' : i ≠ idx := fun same => by
          rw [same, gone] at used'
          exact absurd used' (by simp)
        rw [kept other'] at used' flagged
        have old := only₀ i slot' used' flagged
        rcases clean with front | above
        · exact other' (old.trans front.symm)
        · have bound := above _ high (by rw [← kept other]; exact highUsed) other
          have bound' := highest i slot' (by rw [kept other']; exact used')
          omega

end Windows

namespace Gui

variable {g : Gui}

/-- The pass's click, if it hits a close box, closes a window that can be closed cleanly. -/
def ClosesCleanly (g : Gui) (f : Frame) : Prop :=
  let input := (g.mouse.snapshot f.arrivals).1
  g.running = true → input.click = true → 0 ≤ g.win.winAtClose input.mx input.my →
    g.win.ClosesCleanly (g.win.winAtClose input.mx input.my)

theorem dragMove_oneFocus (one : g.win.OneFocus) (mx my : Int) :
    (g.dragMove mx my).win.OneFocus := by
  unfold Gui.dragMove
  dsimp only
  split
  next =>
    -- a move changes neither openness nor flags
    have used (x y i : Int) := Windows.modify_keeps (s := g.win) Window.used g.drag
      (fun w => { w with x, y }) (fun _ => rfl) i
    have flag (x y i : Int) := Windows.modify_keeps (s := g.win) Window.focused g.drag
      (fun w => { w with x, y }) (fun _ => rfl) i
    constructor
    next =>
      intro free
      refine one.none fun i slot => ?_
      rw [← used]
      exact free i slot
    next =>
      rintro ⟨i, slot, open'⟩
      rw [used] at open'
      obtain ⟨slot₀, used₀, flagged₀, only₀⟩ := one.one ⟨i, slot, open'⟩
      refine ⟨slot₀, (used _ _ _).trans used₀, (flag _ _ _).trans flagged₀,
        fun j slot' used' flagged => ?_⟩
      rw [used] at used'
      rw [flag] at flagged
      exact only₀ j slot' used' flagged
  next => exact one

theorem pointer_closes {a : Mouse.Arrivals} (click : (g.mouse.snapshot a).1.click = true)
    (hit : 0 ≤ g.win.winAtClose (g.mouse.snapshot a).1.mx (g.mouse.snapshot a).1.my) :
    (g.pointer a).1.win =
      g.win.winClose (g.win.winAtClose (g.mouse.snapshot a).1.mx (g.mouse.snapshot a).1.my) := by
  simp only [Gui.pointer, click, if_true, Gui.onClick, hit]
  split <;> simp

theorem pointer_oneFocus (one : g.win.OneFocus) {f : Frame} (running : g.running = true) :
    (g.pointer f.arrivals).1.win.OneFocus ↔ g.ClosesCleanly f := by
  constructor
  next =>
    intro kept _ click hit
    obtain ⟨slot, used⟩ := Windows.winAtClose_slot hit
    rw [pointer_closes click hit] at kept
    exact (Windows.winClose_oneFocus one slot used).mp kept
  next =>
    intro clean
    refine pointer_keeps (fun g => g.win.OneFocus) f.arrivals (fun click _ => ?_)
      (fun _ kept => kept)
      (fun g kept _ mx my => dragMove_oneFocus kept mx my) one
    unfold Gui.onClick
    dsimp only
    split
    next hit =>
      obtain ⟨slot, used⟩ := Windows.winAtClose_slot hit
      exact (Windows.winClose_oneFocus one slot used).mpr (clean running click hit)
    next =>
      split
      · exact one.winRaise
      · exact one

theorem keyboard_oneFocus (one : g.win.OneFocus) (c : Int) : (g.keyboard c).win.OneFocus := by
  rcases keyboard_cases g c with same | ⟨front, closed⟩ | ⟨type, opened⟩ | cycled
  · rw [same]
    exact one
  · rw [closed]
    by_cases open' : Windows.IsSlot g.win.focus ∧ (g.win.wins g.win.focus).used = true
    next => exact (Windows.winClose_oneFocus one open'.1 open'.2).mpr (.inl rfl)
    next =>
      rw [Windows.winClose_ignored open']
      exact one
  · rw [opened]
    exact one.winOpen type
  · rw [cycled]
    exact one.tabCycle

variable (font : Nat → Nat → Byte)

theorem frame_oneFocus (one : g.win.OneFocus) (f : Frame)
    (middle : g.running = true → (g.pointer f.arrivals).1.win.OneFocus) :
    (g.frame font f).win.OneFocus := by
  unfold Gui.frame
  split
  next running =>
    have pressed := keyboard_oneFocus (middle running) f.key
    dsimp only
    split <;> exact pressed
  next => exact one

theorem guiEnter_oneFocus (wins : Int → Window) (mouse : Mouse) (fb : FrameBuffer) :
    (guiEnter wins mouse fb).win.OneFocus := by
  obtain ⟨focus, -, -, free⟩ := Windows.noneOpen_spec wins
  have start : (Windows.noneOpen wins).OneFocus := .of_closed free focus
  exact ((start.winOpen .console).winOpen .about).winOpen .meminfo

def OneFocusIn (g : Gui) (f : Frame) : Prop :=
  g.win.OneFocus ∧ (g.running = true → (g.pointer f.arrivals).1.win.OneFocus) ∧
    (g.frame font f).win.OneFocus

def Throughout (fact : Gui → Frame → Prop) (g : Gui) : List Frame → Prop
  | [] => True
  | f :: rest => fact g f ∧ Throughout fact (g.frame font f) rest

theorem run_oneFocus (one : g.win.OneFocus) (frames : List Frame) :
    Throughout font (OneFocusIn font) g frames ↔ Throughout font ClosesCleanly g frames := by
  induction frames generalizing g with
  | nil => exact Iff.rfl
  | cons f rest ih =>
    by_cases clean : g.ClosesCleanly f
    next =>
      have middle (running : g.running = true) := (pointer_oneFocus one running).mpr clean
      have after := frame_oneFocus font one f middle
      have later := ih after
      exact ⟨fun h => ⟨clean, later.mp h.2⟩, fun h => ⟨⟨one, middle, after⟩, later.mpr h.2⟩⟩
    next =>
      refine ⟨fun h => absurd ?_ clean, fun h => absurd h.1 clean⟩
      intro running
      exact (pointer_oneFocus one running).mp (h.1.2.1 running) running

/-- Every state of a run has one focus exactly when every click on a close box closes cleanly. -/
theorem desktop_oneFocus (wins : Int → Window) (mouse : Mouse) (fb : FrameBuffer)
    (frames : List Frame) :
    Throughout font (OneFocusIn font) (guiEnter wins mouse fb) frames ↔
      Throughout font ClosesCleanly (guiEnter wins mouse fb) frames :=
  run_oneFocus font (guiEnter_oneFocus wins mouse fb) frames

def closeBehindFrames : List Frame :=
  [passWith [0x00, 0x80, 0x50, 0x01, 0xF4, 0x00] 0, passWith [0x00, 0x00, 0x00] 0,
    passWith [0x00, 0x7F, 0xF3, 0x01, 0x29, 0x00] 0]

theorem desktop_twoFocused :
    let g := (guiEnter (fun _ => emptyWindow) mouseEnabled ⟨fun _ => 0, []⟩).run (fun _ _ => 0)
      closeBehindFrames
    ((g.win.wins 0).used = true ∧ (g.win.wins 0).focused = true) ∧
      ((g.win.wins 2).used = true ∧ (g.win.wins 2).focused = true) ∧ g.win.focus = 2 ∧
      ¬ g.win.OneFocus := by
  have first : ((((guiEnter (fun _ => emptyWindow) mouseEnabled ⟨fun _ => 0, []⟩).run (fun _ _ => 0)
      closeBehindFrames).win.wins 0).used = true ∧
      (((guiEnter (fun _ => emptyWindow) mouseEnabled ⟨fun _ => 0, []⟩).run (fun _ _ => 0)
      closeBehindFrames).win.wins 0).focused = true) := by decide +kernel
  have focus : ((guiEnter (fun _ => emptyWindow) mouseEnabled ⟨fun _ => 0, []⟩).run (fun _ _ => 0)
      closeBehindFrames).win.focus = 2 := by decide +kernel
  refine ⟨first, by decide +kernel, focus, fun one => ?_⟩
  have same := one.flag (by decide) first.1 first.2
  rw [focus] at same
  exact absurd same (by decide)

end Gui

end NovaKernel
