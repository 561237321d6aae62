import NovaKernel.Vga

set_option autoImplicit false

namespace NovaKernel

def gfxW : Int := 320
def gfxH : Int := 200

abbrev FrameBuffer := VideoMem Byte

def InFrame (i : Int) : Prop := 0 ≤ i ∧ i < gfxW * gfxH

/-- The values of a C loop variable that counts up from `low` while it is at most `high`. -/
def upTo (low high : Int) : List Int :=
  (List.range (high + 1 - low).toNat).map fun (k : Nat) => low + k

theorem mem_upTo {low high i : Int} : i ∈ upTo low high ↔ low ≤ i ∧ i ≤ high := by
  simp only [upTo, List.mem_map, List.mem_range]
  constructor
  next =>
    rintro ⟨k, within, rfl⟩
    omega
  next =>
    intro within
    exact ⟨(i - low).toNat, by omega, by omega⟩

-- The glyph table; only the colours of text depend on it.
variable (font : Nat → Nat → Byte)

namespace FrameBuffer

def gfxPutpixel (fb : FrameBuffer) (x y : Int) (color : Byte) : FrameBuffer :=
  if x < 0 ∨ gfxW ≤ x ∨ y < 0 ∨ gfxH ≤ y then fb else fb.store (y * gfxW + x) color

def gfxFillrect (fb : FrameBuffer) (x0 y0 x1 y1 : Int) (color : Byte) : FrameBuffer :=
  (upTo y0 (min y1 (gfxH - 1))).foldl (fun fb y =>
    (upTo x0 (min x1 (gfxW - 1))).foldl (fun (fb : FrameBuffer) x => fb.store (y * gfxW + x) color) fb) fb

def gfxDrawchar (fb : FrameBuffer) (x y : Int) (c : Char) (fg bg : Byte) : FrameBuffer :=
  (upTo 0 7).foldl (fun fb row =>
    (upTo 0 7).foldl (fun (fb : FrameBuffer) col =>
      gfxPutpixel fb (x + col) (y + row)
        (if (font (c.toNat % 128) row.toNat).getLsbD col.toNat then fg else bg)) fb) fb

def gfxDrawstring (fb : FrameBuffer) (x y : Int) (s : List Char) (fg bg : Byte) : FrameBuffer :=
  match s with
  | [] => fb
  | c :: rest => gfxDrawstring (gfxDrawchar font fb x y c fg bg) (x + 8) y rest fg bg

def gfxClear (fb : FrameBuffer) (color : Byte) : FrameBuffer :=
  (upTo 0 (gfxW * gfxH - 1)).foldl (fun (fb : FrameBuffer) i => fb.store i color) fb

variable {fb : FrameBuffer} (kept : fb.StoredIn InFrame)
include kept

theorem gfxPutpixel_stored (x y : Int) (color : Byte) :
    (fb.gfxPutpixel x y color).StoredIn InFrame := by
  unfold gfxPutpixel
  split
  next => exact kept
  next outside =>
    refine kept.store ?_ color
    simp only [InFrame, gfxW, gfxH] at *
    omega

theorem gfxFillrect_stored {x0 y0 : Int} (left : 0 ≤ x0) (top : 0 ≤ y0) (x1 y1 : Int)
    (color : Byte) :
    (fb.gfxFillrect x0 y0 x1 y1 color).StoredIn InFrame := by
  refine VideoMem.StoredIn.foldl _ _ (fun m y row stored => ?_) kept
  refine VideoMem.StoredIn.foldl _ _ (fun m x column stored => stored.store ?_ _) stored
  have row' := mem_upTo.mp row
  have column' := mem_upTo.mp column
  simp only [InFrame, gfxW, gfxH] at *
  omega

theorem gfxDrawchar_stored (x y : Int) (c : Char) (fg bg : Byte) :
    (fb.gfxDrawchar font x y c fg bg).StoredIn InFrame := by
  refine VideoMem.StoredIn.foldl _ _ (fun m row _ stored => ?_) kept
  exact VideoMem.StoredIn.foldl _ _ (fun m col _ stored => gfxPutpixel_stored stored _ _ _) stored

theorem gfxDrawstring_stored (x y : Int) (s : List Char) (fg bg : Byte) :
    (fb.gfxDrawstring font x y s fg bg).StoredIn InFrame := by
  induction s generalizing fb x with
  | nil => exact kept
  | cons c rest ih => exact ih (gfxDrawchar_stored font kept x y c fg bg) (x + 8)

theorem gfxClear_stored (color : Byte) : (fb.gfxClear color).StoredIn InFrame := by
  refine VideoMem.StoredIn.foldl _ _ (fun m i member stored => stored.store ?_ _) kept
  have within := mem_upTo.mp member
  simp only [InFrame]
  omega

end FrameBuffer

end NovaKernel
