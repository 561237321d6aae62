import NovaKernel.Gfx
import NovaKernel.Mouse

set_option autoImplicit false

namespace NovaKernel

def maxWin : Int := 8
def taskbarH : Int := 12
def titleH : Int := 12
def cascadeX : Int := 10
def cascadeY : Int := 14

inductive WinType
  | console | about | meminfo | tasks | files
  deriving DecidableEq

def winTitle : WinType → String
  | .console => "Console"
  | .about => "About NovaOS"
  | .meminfo => "Memory Info"
  | .tasks => "Tasks"
  | .files => "Files"

structure Window where
  used : Bool
  type : WinType
  x : Int
  y : Int
  w : Int
  h : Int
  focused : Bool
  title : List Char

/-- `wins`, `focus` and `cascade`; `opened`, not in the source, counts the openings since
`gui_enter`. -/
structure Windows where
  wins : Int → Window
  focus : Int
  cascade : Int
  opened : Nat

namespace Windows

def slots : List Int := upTo 0 (maxWin - 1)

def modify (s : Windows) (i : Int) (f : Window → Window) : Windows :=
  { s with wins := Function.update s.wins i (f (s.wins i)) }

def noneOpen (wins : Int → Window) : Windows :=
  slots.foldl (fun s i => s.modify i fun w => { w with used := false })
    { wins, focus := -1, cascade := 0, opened := 0 }

def winRaise (s : Windows) (idx : Int) : Windows :=
  if idx < 0 ∨ maxWin ≤ idx ∨ (s.wins idx).used = false then s
  else
    let s := if 0 ≤ s.focus ∧ s.focus ≠ idx ∧ (s.wins s.focus).used = true
      then s.modify s.focus fun w => { w with focused := false } else s
    { s with focus := idx }.modify idx fun w => { w with focused := true }

def openedWindow (type : WinType) (cascade : Int) (w : Window) : Window :=
  { w with
    used := true, type
    x := cascadeX + cascade.tmod 6 * 16, y := cascadeY + cascade.tmod 6 * 14
    w := 168, h := 88
    title := (winTitle type).toList.take 23 }

def winOpen (s : Windows) (type : WinType) : Windows :=
  match slots.find? fun i => !(s.wins i).used with
  | none => s
  | some i =>
    winRaise { s.modify i (openedWindow type s.cascade) with
      cascade := int (s.cascade + 1), opened := s.opened + 1 } i

def highestUsed (s : Windows) : Int :=
  (slots.reverse.find? fun i => (s.wins i).used).getD (-1)

def winClose (s : Windows) (idx : Int) : Windows :=
  if idx < 0 ∨ maxWin ≤ idx ∨ (s.wins idx).used = false then s
  else
    let s := s.modify idx fun w => { w with used := false }
    let s := { s with focus := s.highestUsed }
    if 0 ≤ s.focus then s.modify s.focus fun w => { w with focused := true } else s

def Contains (w : Window) (x y : Int) : Prop :=
  w.x ≤ x ∧ x < w.x + w.w ∧ w.y ≤ y ∧ y < w.y + w.h

instance (w : Window) (x y : Int) : Decidable (Contains w x y) :=
  inferInstanceAs (Decidable (_ ∧ _))

def winAt (s : Windows) (x y : Int) : Int :=
  if 0 ≤ s.focus ∧ (s.wins s.focus).used = true ∧ Contains (s.wins s.focus) x y then s.focus
  else (slots.reverse.find? fun i => (s.wins i).used ∧ Contains (s.wins i) x y).getD (-1)

def winAtTitle (s : Windows) (x y : Int) : Int :=
  let i := s.winAt x y
  if 0 ≤ i ∧ (s.wins i).y ≤ y ∧ y ≤ (s.wins i).y + titleH then i else -1

def InCloseBox (w : Window) (x y : Int) : Prop :=
  let cbx := w.x + w.w - 10
  cbx + 1 ≤ x ∧ x ≤ cbx + 8 ∧ w.y + 2 ≤ y ∧ y ≤ w.y + 9

instance (w : Window) (x y : Int) : Decidable (InCloseBox w x y) :=
  inferInstanceAs (Decidable (_ ∧ _))

def winAtClose (s : Windows) (x y : Int) : Int :=
  (slots.reverse.find? fun i => (s.wins i).used ∧ InCloseBox (s.wins i) x y).getD (-1)

/-- The Tab loop: the next used slot after `i`, tried `k` times. -/
def nextUsed (s : Windows) : Nat → Int → Int
  | 0, i => i
  | k + 1, i =>
    let i := (i + 1).tmod maxWin
    if (s.wins i).used then i else s.nextUsed k i

def tabCycle (s : Windows) : Windows :=
  if slots.any fun i => (s.wins i).used then s.winRaise (s.nextUsed maxWin.toNat s.focus) else s

end Windows

structure Status where
  freeKb : Nat
  heapUsed : Nat
  taskCount : Nat
  currentPid : Nat
  ticks : Nat
  mounted : Bool
  fatFreeBytes : Nat

variable (font : Nat → Nat → Byte)

def winDrawFrame (fb : FrameBuffer) (w : Window) : FrameBuffer :=
  let titleBg : Byte := if w.focused then 0x09 else 0x08
  let fb := fb.gfxFillrect (w.x + 1) (w.y + 1) (w.x + w.w - 2) (w.y + w.h - 2) 0x07
  let fb := fb.gfxFillrect (w.x + 1) (w.y + 1) (w.x + w.w - 2) (w.y + titleH) titleBg
  let fb := fb.gfxFillrect w.x w.y (w.x + w.w - 1) w.y 0x0F
  let fb := fb.gfxFillrect w.x (w.y + w.h - 1) (w.x + w.w - 1) (w.y + w.h - 1) 0x08
  let fb := fb.gfxFillrect w.x w.y w.x (w.y + w.h - 1) 0x0F
  let fb := fb.gfxFillrect (w.x + w.w - 1) w.y (w.x + w.w - 1) (w.y + w.h - 1) 0x08
  -- title characters while they start left of the close box
  let shown := (w.title.zipIdx).takeWhile fun c => w.x + 4 + 8 * c.2 < w.x + w.w - 10
  let fb := shown.foldl (fun (fb : FrameBuffer) c =>
    fb.gfxDrawchar font (w.x + 4 + 8 * c.2) (w.y + 3) c.1 0x0F titleBg) fb
  let cbx := w.x + w.w - 10
  let fb := fb.gfxFillrect (cbx + 1) (w.y + 2) (cbx + 8) (w.y + 9) 0x0C
  fb.gfxDrawchar font (cbx + 2) (w.y + 3) 'x' 0x0F 0x0C

def winContent (status : Status) : WinType → List (Int × Int × String × Byte)
  | .about =>
    [(0, 0, "NovaOS v0.6", 0x04), (0, 11, "home-grown kernel", 0x01), (0, 21, "GDT IDT paging", 0x01),
      (0, 31, "ring3 FAT12 mouse", 0x01), (0, 45, "drag: title bar", 0x0E),
      (0, 55, "close: x or Esc", 0x0E)]
  | .meminfo =>
    [(0, 0, "phys free:", 0x01), (88, 0, toString status.freeKb ++ " KB", 0x04),
      (0, 12, "heap used:", 0x01), (88, 12, toString status.heapUsed ++ " B", 0x04)]
  | .tasks =>
    [(0, 0, toString status.taskCount ++ " task(s)", 0x01),
      (0, 12, "current pid " ++ toString status.currentPid, 0x04),
      (0, 24, "ticks " ++ toString status.ticks, 0x01)]
  | .files =>
    [(0, 0, "FAT12 volume", 0x01),
      if status.mounted then (0, 12, "free " ++ toString (status.fatFreeBytes / 1024) ++ " KB", 0x02)
      else (0, 12, "no volume", 0x0C),
      (0, 26, "try: ls / cat", 0x0E)]
  | .console =>
    [(0, 0, "kernel: hello from C", 0x02), (0, 12, "boot: loader->pmode", 0x02),
      (0, 24, "user: ring3 process", 0x02), (0, 38, "press C A M T F", 0x0E)]

def winDrawContent (status : Status) (fb : FrameBuffer) (w : Window) : FrameBuffer :=
  let cx := w.x + 6
  let cy := w.y + titleH + 5
  (winContent status w.type).foldl (fun (fb : FrameBuffer) s =>
    fb.gfxDrawstring font (cx + s.1) (cy + s.2.1) s.2.2.1.toList s.2.2.2 0x07) fb

def winDraw (status : Status) (fb : FrameBuffer) (w : Window) : FrameBuffer :=
  winDrawContent font status (winDrawFrame font fb w) w

def drawButtons (s : Windows) (fb : FrameBuffer) : List Int → Int → FrameBuffer
  | [], _ => fb
  | i :: rest, bx =>
    if (s.wins i).used = false then drawButtons s fb rest bx
    else
      let bg : Byte := if i = s.focus then 0x09 else 0x08
      let fb := fb.gfxFillrect (bx - 2) (gfxH - taskbarH + 1) (bx + 42) (gfxH - 2) bg
      let fb := fb.gfxDrawchar font (bx + 16) (gfxH - 10) ((s.wins i).title.headD '\x00') 0x0F bg
      let bx := bx + 46
      if gfxW - 50 < bx then fb else drawButtons s fb rest bx

def gridDots : List (Int × Int) :=
  (List.range 12).flatMap fun (row : Nat) =>
    (List.range 20).map fun (col : Nat) =>
      ((if row % 2 = 1 then 8 else 0) + 16 * (col : Int), 16 * (row : Int))

def redrawAll (status : Status) (s : Windows) (fb : FrameBuffer) : FrameBuffer :=
  let fb := fb.gfxClear 0x01
  let fb := gridDots.foldl (fun (fb : FrameBuffer) dot => fb.gfxPutpixel dot.1 dot.2 0x09) fb
  -- unfocused windows first, the focused one last
  let fb := Windows.slots.foldl (fun fb i =>
    if (s.wins i).used = false ∨ i = s.focus then fb else winDraw font status fb (s.wins i)) fb
  let fb := if 0 ≤ s.focus ∧ (s.wins s.focus).used = true then winDraw font status fb (s.wins s.focus)
    else fb
  let fb := fb.gfxFillrect 0 (gfxH - taskbarH) (gfxW - 1) (gfxH - 1) 0x00
  let fb := fb.gfxDrawstring font 4 (gfxH - 10) "NovaOS".toList 0x0A 0x00
  drawButtons font s fb Windows.slots 60

def drawCursor (fb : FrameBuffer) (x y : Int) : FrameBuffer :=
  let fb := (upTo 0 6).foldl (fun (fb : FrameBuffer) i => fb.gfxPutpixel x (y + i) 0x0F) fb
  let fb := (upTo 0 4).foldl (fun (fb : FrameBuffer) i => fb.gfxPutpixel (x + i) (y + 2 + i) 0x0F) fb
  (upTo 0 2).foldl (fun (fb : FrameBuffer) i => fb.gfxPutpixel (x + i) (y + 6 - i) 0x0F) fb

structure Gui where
  win : Windows
  drag : Int
  dragDx : Int
  dragDy : Int
  lastMx : Int
  lastMy : Int
  needRedraw : Bool
  mouse : Mouse
  fb : FrameBuffer
  running : Bool

structure Frame where
  arrivals : Mouse.Arrivals
  key : Int
  status : Status

namespace Gui

/-- `gui_enter` up to its loop, from whatever an earlier desktop left in `wins`. -/
def guiEnter (wins : Int → Window) (mouse : Mouse) (fb : FrameBuffer) : Gui :=
  { win := (((Windows.noneOpen wins).winOpen .console).winOpen .about).winOpen .meminfo
    drag := -1, dragDx := 0, dragDy := 0, lastMx := -1, lastMy := -1, needRedraw := true
    mouse, fb := fb.gfxClear 0x00, running := true }

def onClick (g : Gui) (mx my : Int) : Gui :=
  let c := g.win.winAtClose mx my
  if 0 ≤ c then { g with win := g.win.winClose c, needRedraw := true, drag := -1 }
  else
    let w := g.win.winAtTitle mx my
    if 0 ≤ w then
      let win := g.win.winRaise w
      { g with
        win, drag := w, dragDx := mx - (win.wins w).x, dragDy := my - (win.wins w).y
        needRedraw := true }
    else g

/-- One coordinate of a drag: the cursor less the grab offset, kept in `0 .. limit` on both sides. -/
def dragTo (cursor offset size limit : Int) : Int :=
  let n := cursor - offset
  let n := if n < 0 then 0 else n
  if limit < n + size then limit - size else n

def dragMove (g : Gui) (mx my : Int) : Gui :=
  let w := g.win.wins g.drag
  let nx := dragTo mx g.dragDx w.w gfxW
  let ny := dragTo my g.dragDy w.h (gfxH - taskbarH)
  if nx ≠ w.x ∨ ny ≠ w.y then
    { g with
      win := g.win.modify g.drag fun w => { w with x := nx, y := ny }
      needRedraw := true }
  else g

/-- The mouse half of a pass. -/
def pointer (g : Gui) (a : Mouse.Arrivals) : Gui × Mouse.Input :=
  let (input, mouse) := g.mouse.snapshot a
  let g := { g with mouse }
  let g := if input.click then g.onClick input.mx input.my else g
  let g := if input.release then { g with drag := -1 } else g
  let g := if 0 ≤ g.drag ∧ input.down = true then g.dragMove input.mx input.my else g
  (g, input)

def openKey (g : Gui) (type : WinType) : Gui :=
  { g with win := g.win.winOpen type, needRedraw := true }

def keyboard (g : Gui) (c : Int) : Gui :=
  -- Esc
  if c = 27 then
    { g with
      win := if 0 ≤ g.win.focus then g.win.winClose g.win.focus else g.win
      needRedraw := true }
  -- Enter leaves the desktop
  else if c = 0x0D ∨ c = 0x0A then { g with running := false }
  else if c = 0x63 ∨ c = 0x43 then g.openKey .console
  else if c = 0x61 ∨ c = 0x41 then g.openKey .about
  else if c = 0x6D ∨ c = 0x4D then g.openKey .meminfo
  else if c = 0x74 ∨ c = 0x54 then g.openKey .tasks
  else if c = 0x66 ∨ c = 0x46 then g.openKey .files
  -- Tab
  else if c = 0x09 then
    if Windows.slots.any fun i => (g.win.wins i).used then
      { g with win := g.win.tabCycle, needRedraw := true }
    else g
  else g

def paint (g : Gui) (status : Status) (mx my : Int) : Gui :=
  let needed := g.needRedraw || mx ≠ g.lastMx || my ≠ g.lastMy
  let fb := if needed then redrawAll font status g.win g.fb else g.fb
  { g with fb := drawCursor fb mx my, needRedraw := false, lastMx := mx, lastMy := my }

def frame (g : Gui) (f : Frame) : Gui :=
  if g.running then
    let (g, input) := g.pointer f.arrivals
    let g := g.keyboard f.key
    if g.running then paint font g f.status input.mx input.my else g
  else g

def run (g : Gui) (frames : List Frame) : Gui :=
  frames.foldl (frame font) g

end Gui

end NovaKernel
