import NovaKernel.GuiTop

set_option autoImplicit false

namespace NovaKernel

namespace Mouse

variable {m : Mouse} {a : Arrivals}

/-- The packets of a pass arrive before its snapshot. -/
structure Arrivals.Between (a : Arrivals) : Prop where
  release : a.release = []
  down : a.down = []
  mx : a.mx = []
  my : a.my = []

theorem snapshot_between (between : a.Between) :
    (m.snapshot a).1.down = (m.receive a.click).leftDown ∧
      (m.snapshot a).1.click = ((m.receive a.click).leftDown && !(m.receive a.click).prev.getLsbD 0) ∧
      (m.snapshot a).1.release = false ∧
      (m.snapshot a).2.prev.getLsbD 0 = (m.receive a.click).leftDown := by
  obtain ⟨release, down, mx, my⟩ := between
  simp [snapshot, release, down, mx, my, receive, leftClicked, leftReleased, leftDown]

theorem mouseHandler_prev (m : Mouse) (d : Byte) : (m.mouseHandler d).prev = m.prev := by
  unfold mouseHandler
  split
  · split <;> rfl
  · rfl

theorem receive_prev (m : Mouse) (bytes : List Byte) : (m.receive bytes).prev = m.prev := by
  unfold receive
  induction bytes generalizing m with
  | nil => rfl
  | cons d rest ih => exact (ih _).trans (mouseHandler_prev m d)

end Mouse

namespace Windows

def titleUnder (s : Windows) (x y : Int) : Option Int :=
  let i := s.paintedLast x y
  if 0 ≤ i ∧ (s.wins i).y ≤ y ∧ y ≤ (s.wins i).y + titleH then some i else none

def Moved (s s' : Windows) (i : Int) : Prop :=
  (s.wins i).used = true ∧ (s'.wins i).used = true ∧
    ((s'.wins i).x ≠ (s.wins i).x ∨ (s'.wins i).y ≠ (s.wins i).y)

instance (s s' : Windows) (i : Int) : Decidable (Moved s s' i) :=
  inferInstanceAs (Decidable (_ ∧ _))

theorem winAtTitle_under {s : Windows} {x y : Int} (hit : 0 ≤ s.winAtTitle x y) :
    s.titleUnder x y = some (s.winAtTitle x y) := by
  unfold winAtTitle at hit ⊢
  unfold titleUnder
  rw [← winAt_paintedLast]
  dsimp only at hit ⊢
  split at hit
  next title => rw [if_pos title, if_pos title]
  next => exact absurd hit (by decide)

end Windows

/-- What a watcher of the desktop keeps: whether the left button was down in the last pass, and the
window on whose title bar the last press was, as long as it stays open. -/
structure Watch where
  down : Bool
  pressed : Option Int

namespace Gui

variable (font : Nat → Nat → Byte)

/-- What the watcher takes for pressed while the mouse half of a pass is done. -/
def pressedIn (w : Watch) (g : Gui) (f : Frame) : Option Int :=
  let input := (g.mouse.snapshot f.arrivals).1
  if input.down = true ∧ w.down = false then g.win.titleUnder input.mx input.my else w.pressed

def watch (w : Watch) (g : Gui) (f : Frame) : Watch where
  down := (g.mouse.snapshot f.arrivals).1.down
  pressed := (pressedIn w g f).filter fun i =>
    ((g.pointer f.arrivals).1.win.wins i).used && ((g.frame font f).win.wins i).used

/-- The two detectors report what changed since the last pass, and a window moves only by a drag. -/
structure Follows (w : Watch) (g : Gui) (f : Frame) : Prop where
  click : (g.mouse.snapshot f.arrivals).1.click = ((g.mouse.snapshot f.arrivals).1.down && !w.down)
  release : (g.mouse.snapshot f.arrivals).1.release =
    (!(g.mouse.snapshot f.arrivals).1.down && w.down)
  moves : ∀ i, Windows.IsSlot i →
    Windows.Moved g.win (g.pointer f.arrivals).1.win i ∨
      Windows.Moved (g.pointer f.arrivals).1.win (g.frame font f).win i →
    (g.mouse.snapshot f.arrivals).1.down = true ∧ pressedIn w g f = some i

/-- The button is not up where it was down in the last pass. -/
def NoRelease (w : Watch) (g : Gui) (f : Frame) : Prop :=
  w.down = true → (g.mouse.snapshot f.arrivals).1.down = true

def OpensWindow (c : Int) : Prop :=
  c = 0x63 ∨ c = 0x43 ∨ c = 0x61 ∨ c = 0x41 ∨ c = 0x6D ∨ c = 0x4D ∨ c = 0x74 ∨ c = 0x54 ∨
    c = 0x66 ∨ c = 0x46

/-- While the button is down no key opens a window in the slot that is dragged. -/
def NoReopen (_ : Watch) (g : Gui) (f : Frame) : Prop :=
  (g.mouse.snapshot f.arrivals).1.down = true → OpensWindow f.key →
    Windows.slots.find? (fun i => !((g.pointer f.arrivals).1.win.wins i).used) ≠ some (g.pointer f.arrivals).1.drag

/-- A fact about every pass of a run before the desktop is left. -/
def Watched (fact : Watch → Gui → Frame → Prop) : Watch → Gui → List Frame → Prop
  | _, _, [] => True
  | w, g, f :: rest =>
    g.running = true → fact w g f ∧ Watched fact (watch font w g f) (g.frame font f) rest

section Steps

variable {g : Gui} {w : Watch} {f : Frame}

theorem onClick_kept (g : Gui) (mx my i : Int) :
    ((g.onClick mx my).win.wins i).box = (g.win.wins i).box ∧
      (((g.onClick mx my).win.wins i).used = true → (g.win.wins i).used = true) := by
  unfold Gui.onClick
  dsimp only
  split
  next => exact ⟨Windows.winClose_box _ _ i, Windows.winClose_opens _ _ i⟩
  next =>
    split
    next => exact ⟨Windows.winRaise_box _ _ i, (Windows.winRaise_used_eq _ _ i).symm.trans⟩
    next => exact ⟨rfl, id⟩

theorem onClick_drag (g : Gui) (mx my : Int) : (g.onClick mx my).drag = -1 ∨
    (0 ≤ g.win.winAtTitle mx my ∧ (g.onClick mx my).drag = g.win.winAtTitle mx my) ∨
      (g.onClick mx my).drag = g.drag := by
  unfold Gui.onClick
  dsimp only
  split
  next => exact .inl rfl
  next =>
    split
    next hit => exact .inr (.inl ⟨hit, rfl⟩)
    next => exact .inr (.inr rfl)

theorem dragMove_kept (g : Gui) (mx my i : Int) :
    (i ≠ g.drag → ((g.dragMove mx my).win.wins i).box = (g.win.wins i).box) ∧
      ((g.dragMove mx my).win.wins i).used = (g.win.wins i).used := by
  unfold Gui.dragMove
  dsimp only
  split
  next =>
    refine ⟨fun other => ?_, Windows.modify_keeps Window.used g.drag (fun w => { w with
      x := dragTo mx g.dragDx (g.win.wins g.drag).w gfxW
      y := dragTo my g.dragDy (g.win.wins g.drag).h (gfxH - taskbarH) }) (fun _ => rfl) i⟩
    dsimp only
    rw [Windows.modify_other other]
  next => exact ⟨fun _ => rfl, rfl⟩

theorem dragMove_drag (g : Gui) (mx my : Int) : (g.dragMove mx my).drag = g.drag := by
  unfold Gui.dragMove
  dsimp only
  split <;> rfl

theorem moved_box {s s' : Windows} {i : Int} (moved : Windows.Moved s s' i) :
    (s'.wins i).box ≠ (s.wins i).box := by
  intro same
  simp only [Window.box, Prod.mk.injEq] at same
  rcases moved.2.2 with x | y
  · exact x same.1
  · exact y same.2.1

def clicked (g : Gui) (a : Mouse.Arrivals) : Gui :=
  let (input, mouse) := g.mouse.snapshot a
  if input.click then { g with mouse }.onClick input.mx input.my else { g with mouse }

theorem pointer_between {a : Mouse.Arrivals} (between : a.Between) : (g.pointer a).1 =
    if 0 ≤ (g.clicked a).drag ∧ (g.mouse.snapshot a).1.down = true then
      (g.clicked a).dragMove (g.mouse.snapshot a).1.mx (g.mouse.snapshot a).1.my
    else g.clicked a := by
  unfold Gui.pointer Gui.clicked
  dsimp only
  rw [(Mouse.snapshot_between between).2.2.1]
  rfl

theorem clicked_kept (g : Gui) (a : Mouse.Arrivals) (i : Int) :
    ((g.clicked a).win.wins i).box = (g.win.wins i).box ∧
      (((g.clicked a).win.wins i).used = true → (g.win.wins i).used = true) := by
  unfold Gui.clicked
  dsimp only
  split
  next => exact onClick_kept { g with mouse := _ } _ _ i
  next => exact ⟨rfl, id⟩

theorem pointer_drag {a : Mouse.Arrivals} (between : a.Between) :
    (g.pointer a).1.drag = (g.clicked a).drag := by
  rw [pointer_between between]
  split
  next => exact dragMove_drag _ _ _
  next => rfl

theorem pointer_opens {a : Mouse.Arrivals} (between : a.Between) {i : Int}
    (used : ((g.pointer a).1.win.wins i).used = true) : (g.win.wins i).used = true := by
  rw [pointer_between between] at used
  split at used
  next =>
    rw [(dragMove_kept _ _ _ i).2] at used
    exact (clicked_kept g a i).2 used
  next => exact (clicked_kept g a i).2 used

theorem keyboard_kept (g : Gui) (c : Int) {i : Int} (used : (g.win.wins i).used = true) :
    ((g.keyboard c).win.wins i).box = (g.win.wins i).box := by
  rcases keyboard_cases g c with same | ⟨-, closed⟩ | ⟨type, opened⟩ | cycled
  · rw [same]
  · rw [closed]
    exact Windows.winClose_box _ _ i
  · rw [opened]
    rcases Windows.winOpen_cases g.win type with ⟨-, full⟩ | ⟨j, -, free, filled⟩
    · rw [full]
    · have other : i ≠ j := by
        rintro rfl
        rw [free] at used
        cases used
      rw [filled, Windows.winRaise_box]
      exact congrArg Window.box (Windows.modify_other other _)
  · rw [cycled]
    unfold Windows.tabCycle
    split
    · exact Windows.winRaise_box _ _ i
    · rfl

theorem tabCycle_used (s : Windows) (i : Int) : (s.tabCycle.wins i).used = (s.wins i).used := by
  unfold Windows.tabCycle
  split
  next => exact Windows.winRaise_used_eq _ _ i
  next => rfl

theorem winOpen_fills {s : Windows} {type : WinType} {i : Int} (free : (s.wins i).used = false)
    (used : ((s.winOpen type).wins i).used = true) :
      Windows.slots.find? (fun j => !(s.wins j).used) = some i := by
  unfold Windows.winOpen at used
  cases found : Windows.slots.find? fun j => !(s.wins j).used with
  | none =>
    rw [found] at used
    dsimp only at used
    rw [free] at used
    cases used
  | some j =>
    rw [found] at used
    dsimp only at used
    rw [Windows.winRaise_used_eq] at used
    dsimp only at used
    by_cases same : i = j
    · rw [same]
    · rw [Windows.modify_other same, free] at used
      cases used

theorem keyboard_fills {c i : Int} (free : (g.win.wins i).used = false)
    (used : ((g.keyboard c).win.wins i).used = true) :
    OpensWindow c ∧ Windows.slots.find? (fun j => !(g.win.wins j).used) = some i := by
  have stays {s : Windows} (same : ∀ j, (s.wins j).used = true → (g.win.wins j).used = true)
      (used : (s.wins i).used = true) : False := by
    rw [same i used] at free
    cases free
  unfold Gui.keyboard at used
  split at used
  next =>
    refine (stays (fun j used => ?_) used).elim
    split at used
    next => exact Windows.winClose_opens _ _ j used
    next => exact used
  next =>
    split at used
    next => exact (stays (fun _ used => used) used).elim
    next =>
      unfold OpensWindow
      split at used
      next key => exact ⟨by omega, winOpen_fills free used⟩
      next =>
        split at used
        next key => exact ⟨by omega, winOpen_fills free used⟩
        next =>
          split at used
          next key => exact ⟨by omega, winOpen_fills free used⟩
          next =>
            split at used
            next key => exact ⟨by omega, winOpen_fills free used⟩
            next =>
              split at used
              next key => exact ⟨by omega, winOpen_fills free used⟩
              next =>
                refine (stays (fun j used => ?_) used).elim
                split at used
                next =>
                  split at used
                  next => exact (tabCycle_used g.win j).symm.trans used
                  next => exact used
                next => exact used

theorem onClick_mouse (g : Gui) (mx my : Int) : (g.onClick mx my).mouse = g.mouse := by
  unfold Gui.onClick
  dsimp only
  split
  next => rfl
  next => split <;> rfl

theorem dragMove_mouse (g : Gui) (mx my : Int) : (g.dragMove mx my).mouse = g.mouse := by
  unfold Gui.dragMove
  dsimp only
  split <;> rfl

theorem keyboard_mouse (g : Gui) (c : Int) : (g.keyboard c).mouse = g.mouse := by
  unfold Gui.keyboard
  repeat' split
  all_goals rfl

theorem frame_running (running : g.running = true) (f : Frame) :
    (g.frame font f).win = ((g.pointer f.arrivals).1.keyboard f.key).win ∧
      (g.frame font f).drag = (g.pointer f.arrivals).1.drag ∧
      (g.frame font f).mouse = (g.mouse.snapshot f.arrivals).2 := by
  have pointed : (g.pointer f.arrivals).1.mouse = (g.mouse.snapshot f.arrivals).2 :=
    pointer_keeps (fun g' => g'.mouse = (g.mouse.snapshot f.arrivals).2) f.arrivals
      (fun _ same => (onClick_mouse _ _ _).trans same) (fun _ same => same)
      (fun g' same _ mx my => (dragMove_mouse g' mx my).trans same) rfl
  unfold Gui.frame
  rw [if_pos running]
  have rest := keyboard_rest (g.pointer f.arrivals).1 f.key
  have typed := (keyboard_mouse (g.pointer f.arrivals).1 f.key).trans pointed
  dsimp only
  split
  next => exact ⟨rfl, rest.1, typed⟩
  next => exact ⟨rfl, rest.1, typed⟩

/-- What the watcher knows is what the driver and the drag remember. -/
structure Holds (w : Watch) (g : Gui) : Prop where
  down : w.down = g.mouse.prev.getLsbD 0
  held : 0 ≤ g.drag → w.down = true ∧ ((g.win.wins g.drag).used = true → w.pressed = some g.drag)

variable (holds : Holds w g) (between : f.arrivals.Between)

include holds between

theorem Holds.click : (g.mouse.snapshot f.arrivals).1.click =
    ((g.mouse.snapshot f.arrivals).1.down && !w.down) := by
  obtain ⟨down, click, -, -⟩ := Mouse.snapshot_between (m := g.mouse) between
  rw [click, down, holds.down, Mouse.receive_prev]

theorem Holds.clicked (still : NoRelease w g f) (active : 0 ≤ (g.clicked f.arrivals).drag) :
    (g.mouse.snapshot f.arrivals).1.down = true ∧
      ((g.win.wins (g.clicked f.arrivals).drag).used = true →
        pressedIn w g f = some (g.clicked f.arrivals).drag) := by
  have click := holds.click between
  by_cases pressed : (g.mouse.snapshot f.arrivals).1.click = true
  · have edge : (g.mouse.snapshot f.arrivals).1.down = true ∧ w.down = false := by
      rw [pressed] at click
      simpa using click.symm
    have hit : g.clicked f.arrivals =
        Gui.onClick { g with mouse := (g.mouse.snapshot f.arrivals).2 }
        (g.mouse.snapshot f.arrivals).1.mx (g.mouse.snapshot f.arrivals).1.my := by
      unfold Gui.clicked
      dsimp only
      rw [if_pos pressed]
    have seen : pressedIn w g f = g.win.titleUnder (g.mouse.snapshot f.arrivals).1.mx
        (g.mouse.snapshot f.arrivals).1.my := if_pos edge
    refine ⟨edge.1, fun _ => ?_⟩
    rw [hit] at active ⊢
    rcases onClick_drag { g with mouse := (g.mouse.snapshot f.arrivals).2 }
      (g.mouse.snapshot f.arrivals).1.mx (g.mouse.snapshot f.arrivals).1.my with none' | ⟨title, grabbed⟩ | kept
    · omega
    · rw [seen, grabbed]
      exact Windows.winAtTitle_under title
    · -- a drag from before this press would have kept the button down
      rw [kept] at active
      have before := (holds.held active).1
      rw [edge.2] at before
      cases before
  · have same : g.clicked f.arrivals = { g with mouse := (g.mouse.snapshot f.arrivals).2 } := by
      unfold Gui.clicked
      dsimp only
      rw [if_neg pressed]
    rw [same] at active ⊢
    obtain ⟨down, known⟩ := holds.held active
    have earlier : pressedIn w g f = w.pressed := if_neg fun edge => by simp [down] at edge
    exact ⟨still down, fun used => earlier.trans (known used)⟩

theorem Holds.follows (running : g.running = true) (still : NoRelease w g f) :
    Follows font w g f := by
  obtain ⟨-, -, release, -⟩ := Mouse.snapshot_between (m := g.mouse) between
  refine ⟨holds.click between, ?_, fun i _ moved => ?_⟩
  · rw [release]
    cases down : w.down with
    | false => simp
    | true => simp [still down]
  · rcases moved with moved | moved
    · have box := moved_box moved
      rw [pointer_between between] at box
      split at box
      next active =>
        have here : i = (g.clicked f.arrivals).drag := by
          by_contra other
          exact box (((dragMove_kept _ _ _ i).1 other).trans (clicked_kept g f.arrivals i).1)
        refine ⟨active.2, ?_⟩
        rw [here]
        exact (holds.clicked between still active.1).2 (here ▸ moved.1)
      next => exact absurd (clicked_kept g f.arrivals i).1 box
    · have box := moved_box moved
      rw [(frame_running font running f).1] at box
      exact absurd (keyboard_kept _ f.key moved.1) box

theorem Holds.frame (running : g.running = true) (still : NoRelease w g f)
    (closed : NoReopen w g f) :
    Holds (watch font w g f) (g.frame font f) := by
  obtain ⟨win, drag, mouse⟩ := frame_running font running f
  obtain ⟨down, -, -, prev⟩ := Mouse.snapshot_between (m := g.mouse) between
  refine ⟨?_, fun active => ?_⟩
  · rw [mouse, prev, ← down]
    rfl
  · rw [drag, pointer_drag between] at active
    obtain ⟨held, known⟩ := holds.clicked between still active
    refine ⟨held, fun used => ?_⟩
    rw [drag, pointer_drag between] at used ⊢
    -- The slot was not filled by a key, so its window is the one that was pressed.
    have kept : ((g.pointer f.arrivals).1.win.wins (g.clicked f.arrivals).drag).used = true := by
      by_contra free
      rw [win] at used
      obtain ⟨opens, first⟩ := keyboard_fills (by simpa using free) used
      rw [← pointer_drag between] at first
      exact closed held opens first
    have pressed := known (pointer_opens between kept)
    unfold watch
    dsimp only
    rw [pressed, Option.filter_some, kept, used]
    rfl

end Steps

theorem Follows.noRelease {w : Watch} {g : Gui} {f : Frame} (between : f.arrivals.Between)
    (follows : Follows font w g f) : NoRelease w g f := by
  obtain ⟨-, -, release, -⟩ := Mouse.snapshot_between (m := g.mouse) between
  intro down
  have reported := follows.release
  rw [release, down] at reported
  simpa using reported

theorem run_noRelease {w : Watch} {g : Gui} (frames : List Frame)
    (between : ∀ f ∈ frames, f.arrivals.Between)
    (follows : Watched font (Follows font) w g frames) : Watched font NoRelease w g frames := by
  induction frames generalizing w g with
  | nil => trivial
  | cons f rest ih =>
    intro running
    obtain ⟨here, later⟩ := follows running
    exact ⟨here.noRelease font (between f (List.mem_cons_self ..)),
      ih (fun f' member => between f' (List.mem_cons_of_mem f member)) later⟩

theorem Holds.run {w : Watch} {g : Gui} (holds : Holds w g) (frames : List Frame)
    (between : ∀ f ∈ frames, f.arrivals.Between)
    (clean : Watched font (fun w g f => NoRelease w g f ∧ NoReopen w g f) w g frames) :
    Watched font (Follows font) w g frames := by
  induction frames generalizing w g with
  | nil => trivial
  | cons f rest ih =>
    intro running
    have first := between f (List.mem_cons_self ..)
    obtain ⟨⟨still, closed⟩, later⟩ := clean running
    exact ⟨holds.follows font first running still, ih (holds.frame font first running still closed)
      (fun f' member => between f' (List.mem_cons_of_mem f member)) later⟩

theorem guiEnter_holds (wins : Int → Window) (mouse : Mouse) (fb : FrameBuffer) :
    Holds ⟨mouse.prev.getLsbD 0, none⟩ (guiEnter wins mouse fb) := by
  refine ⟨rfl, fun active => ?_⟩
  have none' : (guiEnter wins mouse fb).drag = -1 := rfl
  omega

/-- In a run whose packets arrive between the passes, the reports of the detectors and the moves of the
windows are right only if no pass sees the button released, and they are if moreover no key opens a
window in the slot that is dragged. -/
theorem drag_follows (wins : Int → Window) (mouse : Mouse) (fb : FrameBuffer) (frames : List Frame)
    (between : ∀ f ∈ frames, f.arrivals.Between) :
    (Watched font (Follows font) ⟨mouse.prev.getLsbD 0, none⟩ (guiEnter wins mouse fb) frames →
        Watched font NoRelease ⟨mouse.prev.getLsbD 0, none⟩ (guiEnter wins mouse fb) frames) ∧
      (Watched font (fun w g f => NoRelease w g f ∧ NoReopen w g f) ⟨mouse.prev.getLsbD 0, none⟩
          (guiEnter wins mouse fb) frames →
        Watched font (Follows font) ⟨mouse.prev.getLsbD 0, none⟩ (guiEnter wins mouse fb) frames) :=
  ⟨run_noRelease font frames between, (guiEnter_holds wins mouse fb).run font frames between⟩

theorem dragFrames_between : ∀ f ∈ dragFrames, f.arrivals.Between := by
  intro f member
  simp only [dragFrames, List.mem_cons, List.not_mem_nil, or_false] at member
  rcases member with rfl | rfl | rfl <;> exact ⟨rfl, rfl, rfl, rfl⟩

theorem dragFrames_clean : Watched (fun _ _ => 0) (fun w g f => NoRelease w g f ∧ NoReopen w g f) ⟨false, none⟩
    (guiEnter (fun _ => emptyWindow) mouseEnabled ⟨fun _ => 0, []⟩) dragFrames := by
  have silent : ¬ OpensWindow 0 := by simp [OpensWindow]
  refine fun _ =>
    ⟨⟨fun down => absurd down (by decide), fun down => absurd down (by decide +kernel)⟩, fun _ =>
    ⟨⟨?_, fun _ opens => absurd opens silent⟩, fun _ => ⟨⟨?_, fun _ opens => absurd opens silent⟩, trivial⟩⟩⟩
  · exact fun _ => by decide +kernel
  · exact fun _ => by decide +kernel

theorem drag_follows_drag : Watched (fun _ _ => 0) (Follows fun _ _ => 0) ⟨false, none⟩
    (guiEnter (fun _ => emptyWindow) mouseEnabled ⟨fun _ => 0, []⟩) dragFrames :=
  (drag_follows (fun _ _ => 0) (fun _ => emptyWindow) mouseEnabled ⟨fun _ => 0, []⟩ dragFrames
    dragFrames_between).2 dragFrames_clean

def latchFrames : List Frame :=
  [passWith [0x00, 0x80, 0x50, 0x01, 0xF4, 0x00] 0, passWith [0x00, 0x00, 0x00] 0,
    passWith [0x00, 0x7F, 0x81, 0x01, 0x7F, 0x00] 0]

def latchPass : Watch × Gui :=
  let font := fun _ _ => 0
  let g := guiEnter (fun _ => emptyWindow) mouseEnabled ⟨fun _ => 0, []⟩
  let f := passWith [0x00, 0x80, 0x50, 0x01, 0xF4, 0x00] 0
  let w := watch font ⟨false, none⟩ g f
  let g := g.frame font f
  let f := passWith [0x00, 0x00, 0x00] 0
  (watch font w g f, g.frame font f)

theorem latch_moves : ¬ ∀ (font : Nat → Nat → Byte) (wins : Int → Window) (mouse : Mouse) (fb : FrameBuffer)
    (frames : List Frame), (∀ f ∈ frames, f.arrivals.Between) →
      Watched font (Follows font) ⟨mouse.prev.getLsbD 0, none⟩ (guiEnter wins mouse fb) frames := by
  intro always
  have follows :=
    always (fun _ _ => 0) (fun _ => emptyWindow) mouseEnabled ⟨fun _ => 0, []⟩ latchFrames (by
    intro f member
    simp only [latchFrames, List.mem_cons, List.not_mem_nil, or_false] at member
    rcases member with rfl | rfl | rfl <;> exact ⟨rfl, rfl, rfl, rfl⟩)
  obtain ⟨-, second⟩ := follows rfl
  obtain ⟨-, third⟩ := second (by decide +kernel)
  obtain ⟨here, -⟩ := third (by decide +kernel)
  have moved : Windows.Moved latchPass.2.win
      (latchPass.2.pointer (passWith [0x00, 0x7F, 0x81, 0x01, 0x7F, 0x00] 0).arrivals).1.win 0 := by
    decide +kernel
  have pressed : pressedIn latchPass.1 latchPass.2 (passWith [0x00, 0x7F, 0x81, 0x01, 0x7F, 0x00] 0) = none := by
    decide +kernel
  have same := (here.moves 0 (by decide) (.inl moved)).2
  exact absurd (pressed.symm.trans same) (by simp)

end Gui

end NovaKernel
