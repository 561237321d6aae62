import NovaKernel.Common
import Mathlib.Logic.Function.Basic
import Mathlib.Data.List.Infix

set_option autoImplicit false

namespace NovaKernel

def vgaWidth : Int := 80
def vgaHeight : Int := 25

def int (n : Int) : Int := (n + 2 ^ 31) % 2 ^ 32 - 2 ^ 31

theorem int_of_range {n : Int} (low : -2 ^ 31 ≤ n) (high : n < 2 ^ 31) : int n = n := by
  unfold int
  omega

/-- Memory behind a base pointer, with the indices stored to so far, the last one first. -/
structure VideoMem (Cell : Type) where
  cell : Int → Cell
  stored : List Int

namespace VideoMem

variable {Cell : Type}

def store (m : VideoMem Cell) (i : Int) (v : Cell) : VideoMem Cell :=
  { cell := Function.update m.cell i v, stored := i :: m.stored }

theorem store_cell (m : VideoMem Cell) (i : Int) (v : Cell) (j : Int) :
    (m.store i v).cell j = if j = i then v else m.cell j := by
  by_cases same : j = i
  next => simp [store, same]
  next => simp [store, same]

def StoredIn (m : VideoMem Cell) (inside : Int → Prop) : Prop :=
  ∀ i ∈ m.stored, inside i

theorem StoredIn.store {m : VideoMem Cell} {inside : Int → Prop} (kept : m.StoredIn inside)
    {i : Int} (within : inside i) (v : Cell) : (m.store i v).StoredIn inside := by
  intro j member
  rcases List.mem_cons.mp member with rfl | earlier
  · exact within
  · exact kept j earlier

theorem StoredIn.foldl {α : Type} {inside : Int → Prop} (step : VideoMem Cell → α → VideoMem Cell)
    (xs : List α)
    (kept : ∀ m, ∀ x ∈ xs, m.StoredIn inside → (step m x).StoredIn inside)
    {m : VideoMem Cell} (initial : m.StoredIn inside) : (xs.foldl step m).StoredIn inside := by
  induction xs generalizing m with
  | nil => exact initial
  | cons x rest ih =>
    exact ih (fun m y later => kept m y (by simp [later])) (kept m x (by simp) initial)

theorem foldl_store_cell (m : VideoMem Cell) (base : Int) (value : VideoMem Cell → Nat → Cell)
    (n : Nat)
    (unread : ∀ m' : VideoMem Cell, (∀ j, (j < base ∨ base + n ≤ j) → m'.cell j = m.cell j) →
      ∀ k < n, value m' k = value m k) (i : Int) :
    ((List.range n).foldl (fun m' k => m'.store (base + k) (value m' k)) m).cell i =
      if base ≤ i ∧ i < base + n then value m (i - base).toNat else m.cell i := by
  have reached (done : Nat) (within : done ≤ n) (i : Int) :
      ((List.range done).foldl (fun m' k => m'.store (base + k) (value m' k)) m).cell i =
        if base ≤ i ∧ i < base + done then value m (i - base).toNat else m.cell i := by
    induction done generalizing i with
    | zero => rw [if_neg (by omega)]; rfl
    | succ done ih =>
      have earlier := ih (by omega)
      rw [List.range_succ, List.foldl_append, List.foldl_cons, List.foldl_nil, store_cell, earlier]
      by_cases last : i = base + done
      next =>
        have offset : (i - base).toNat = done := by omega
        rw [if_pos last, if_pos (by omega), offset]
        refine unread _ (fun j outside => ?_) done (by omega)
        rw [earlier, if_neg (by omega)]
      next =>
        rw [if_neg last]
        exact if_congr (by omega) rfl rfl
  exact reached n le_rfl i

end VideoMem

structure Console where
  mem : VideoMem (BitVec 16)
  tx : Int
  ty : Int
  curAttr : Byte
  cursor : BitVec 16

/-- The console's static variables at power on, over any contents of the text memory. -/
def Console.powerOn (cells : Int → BitVec 16) : Console :=
  { mem := ⟨cells, []⟩, tx := 0, ty := 0, curAttr := 0x0F, cursor := 0 }

def textCell (attr c : Byte) : BitVec 16 := attr ++ c

def charSpace : Byte := 0x20
def charNewline : Byte := 0x0A
def charReturn : Byte := 0x0D
def charTab : Byte := 0x09
def charBackspace : Byte := 0x08

namespace Console

def vgaSetCursor (s : Console) (x y : Int) : Console :=
  { s with cursor := BitVec.ofInt 16 (y * vgaWidth + x) }

def vgaClear (s : Console) (attr : Byte) : Console :=
  { s with
    mem := (List.range (vgaWidth * vgaHeight).toNat).foldl
      (fun m (i : Nat) => m.store i (textCell attr charSpace)) s.mem }

def vgaInit (s : Console) : Console :=
  { s.vgaClear 0x0F with tx := 0, ty := 0, curAttr := 0x0F }.vgaSetCursor 0 0

def copyRow (m : VideoMem (BitVec 16)) (row : Int) : VideoMem (BitVec 16) :=
  (List.range vgaWidth.toNat).foldl (fun m (col : Nat) =>
    m.store ((row - 1) * vgaWidth + col) (m.cell (row * vgaWidth + col))) m

def blankLastRow (m : VideoMem (BitVec 16)) (curAttr : Byte) : VideoMem (BitVec 16) :=
  (List.range vgaWidth.toNat).foldl (fun m (col : Nat) =>
    m.store ((vgaHeight - 1) * vgaWidth + col) (textCell curAttr charSpace)) m

def vgaScrollOnce (s : Console) : Console :=
  let copied := (List.range (vgaHeight - 1).toNat).foldl (fun m (row : Nat) => copyRow m (row + 1)) s.mem
  { s with mem := blankLastRow copied s.curAttr }

def vgaScroll (s : Console) : Console :=
  { s.vgaScrollOnce with ty := vgaHeight - 1, tx := 0 }.vgaSetCursor 0 (vgaHeight - 1)

/-- The first half of `vga_putc`: the character itself, before the two range checks. -/
def place (s : Console) (c attr : Byte) : Console :=
  if c = charNewline then { s with ty := int (s.ty + 1), tx := 0 }
  else if c = charReturn then { s with tx := 0 }
  -- (tx + 4) & ~3
  else if c = charTab then { s with tx := int (s.tx + 4) / 4 * 4 }
  else if c = charBackspace then (if 0 < s.tx then { s with tx := s.tx - 1 } else s)
  else { s with
    mem := s.mem.store (int (int (s.ty * vgaWidth) + s.tx)) (textCell attr c)
    tx := int (s.tx + 1) }

def wrapColumn (s : Console) : Console :=
  if vgaWidth ≤ s.tx then { s with tx := 0, ty := int (s.ty + 1) } else s

def vgaPutc (s : Console) (c attr : Byte) : Console :=
  let s := (place { s with curAttr := attr } c attr).wrapColumn
  let s := if vgaHeight ≤ s.ty then s.vgaScrollOnce else s
  s.vgaSetCursor s.tx s.ty

def puts (s : Console) (calls : List (Byte × Byte)) : Console :=
  calls.foldl (fun s call => s.vgaPutc call.1 call.2) s

end Console

end NovaKernel
