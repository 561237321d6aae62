import NovaKernel.Vga

set_option autoImplicit false

namespace NovaKernel

structure Terminal where
  row : Fin 25
  col : Fin 80
  cell : Fin 25 → Fin 80 → BitVec 16

def nextColumn (col : Fin 80) (c : Byte) : Fin 80 :=
  if c = charNewline ∨ c = charReturn then 0
  else if c = charTab then (if within : col.val / 4 * 4 + 4 < 80 then ⟨_, within⟩ else 0)
  else if c = charBackspace then ⟨col.val - 1, by omega⟩
  else if within : col.val + 1 < 80 then ⟨_, within⟩ else 0

/-- `c` moves the output to the next row: a newline, or it passes the last column. -/
def AdvancesRow (col : Fin 80) (c : Byte) : Prop :=
  c = charNewline ∨ c = charTab ∧ 76 ≤ col.val ∨
    c ∉ [charNewline, charReturn, charTab, charBackspace] ∧ col.val = 79

instance (col : Fin 80) (c : Byte) : Decidable (AdvancesRow col c) :=
  inferInstanceAs (Decidable (_ ∨ _ ∨ _))

def Printable (c : Byte) : Prop :=
  c ∉ [charNewline, charReturn, charTab, charBackspace]

instance (c : Byte) : Decidable (Printable c) := inferInstanceAs (Decidable (_ ∉ _))

def rowStep (col : Fin 80) (c : Byte) : Nat :=
  if AdvancesRow col c then 1 else 0

/-- How many times the output of `chars` from column `col` on moves to the next row. -/
def rowAdvances : Fin 80 → List Byte → Nat
  | _, [] => 0
  | col, c :: rest => rowStep col c + rowAdvances (nextColumn col c) rest

theorem rowStep_pos (col : Fin 80) (c : Byte) : 0 < rowStep col c ↔ AdvancesRow col c := by
  unfold rowStep
  split <;> simp [*]

theorem rowStep_le (col : Fin 80) (c : Byte) : rowStep col c ≤ 1 := by
  unfold rowStep
  split <;> omega

namespace Terminal

def blank : Terminal :=
  { row := 0, col := 0, cell := fun _ _ => textCell 0x0F charSpace }

def write (t : Terminal) (c attr : Byte) : Terminal :=
  { t with cell := fun r col =>
      if r = t.row ∧ col = t.col then textCell attr c else t.cell r col }

def scroll (t : Terminal) (attr : Byte) : Terminal :=
  { t with cell := fun r col =>
      if below : r.val + 1 < 25 then t.cell ⟨r.val + 1, below⟩ col else textCell attr charSpace }

def lineFeed (t : Terminal) (attr : Byte) : Terminal :=
  if below : t.row.val + 1 < 25 then { t with row := ⟨t.row.val + 1, below⟩ } else t.scroll attr

def put (t : Terminal) (c attr : Byte) : Terminal :=
  let written := if Printable c then t.write c attr else t
  let placed := if AdvancesRow t.col c then written.lineFeed attr else written
  { placed with col := nextColumn t.col c }

def puts (t : Terminal) (calls : List (Byte × Byte)) : Terminal :=
  calls.foldl (fun t call => t.put call.1 call.2) t

@[simp] theorem put_col (t : Terminal) (c attr : Byte) :
    (t.put c attr).col = nextColumn t.col c := rfl

def drawn (t : Terminal) (c attr : Byte) : Terminal :=
  if Printable c then t.write c attr else t

theorem drawn_row (t : Terminal) (c attr : Byte) : (t.drawn c attr).row = t.row := by
  unfold drawn
  split <;> rfl

theorem put_row (t : Terminal) (c attr : Byte) :
    (t.put c attr).row.val = min (t.row.val + rowStep t.col c) 24 := by
  have row := t.row.isLt
  unfold rowStep
  have same := t.drawn_row c attr
  unfold drawn at same
  by_cases advances : AdvancesRow t.col c
  next =>
    by_cases below : t.row.val + 1 < 25
    next =>
      simp only [put, advances, if_true, lineFeed, same, below, dif_pos]
      omega
    next =>
      simp only [put, advances, if_true, lineFeed, same, below, dif_neg, not_false_eq_true, scroll]
      omega
  next =>
    simp only [put, advances, if_false, same]
    omega

theorem put_cell (t : Terminal) (c attr : Byte) :
    (t.put c attr).cell =
      if AdvancesRow t.col c ∧ t.row.val = 24 then ((t.drawn c attr).scroll attr).cell
      else (t.drawn c attr).cell := by
  have row := t.row.isLt
  have same := t.drawn_row c attr
  unfold drawn at same ⊢
  by_cases advances : AdvancesRow t.col c
  next =>
    by_cases below : t.row.val + 1 < 25
    next =>
      rw [if_neg (by omega)]
      simp only [put, advances, if_true, lineFeed, same, below, dif_pos]
    next =>
      rw [if_pos ⟨advances, by omega⟩]
      simp only [put, advances, if_true, lineFeed, same, below, dif_neg, not_false_eq_true]
  next =>
    rw [if_neg (fun both => advances both.1)]
    simp only [put, advances, if_false]

end Terminal

namespace Console

def InBuffer (i : Int) : Prop := 0 ≤ i ∧ i < vgaWidth * vgaHeight

/-- The memory holds the terminal's cells, and no other cell was written. -/
structure Screen (m : VideoMem (BitVec 16)) (cell : Fin 25 → Fin 80 → BitVec 16) : Prop where
  buffer : ∀ (r : Fin 25) (col : Fin 80), m.cell (r.val * vgaWidth + col.val) = cell r col
  stores : m.StoredIn InBuffer

structure Shows (s : Console) (t : Terminal) : Prop where
  column : s.tx = t.col.val
  row : s.ty = t.row.val
  screen : Screen s.mem t.cell

/-- The console is on the screen, with the cells of the terminal. -/
structure OnScreen (s : Console) (t : Terminal) : Prop where
  column : 0 ≤ s.tx ∧ s.tx < vgaWidth
  row : 0 ≤ s.ty ∧ s.ty < vgaHeight
  screen : Screen s.mem t.cell

theorem vgaClear_cell (s : Console) (attr : Byte) (i : Int) :
    (s.vgaClear attr).mem.cell i =
      if 0 ≤ i ∧ i < vgaWidth * vgaHeight then textCell attr charSpace else s.mem.cell i := by
  have filled := s.mem.foldl_store_cell 0 (fun _ _ => textCell attr charSpace)
    (vgaWidth * vgaHeight).toNat (fun _ _ _ _ => rfl) i
  have cells : ((vgaWidth * vgaHeight).toNat : Int) = vgaWidth * vgaHeight := by decide
  simp only [Int.zero_add, cells] at filled
  simp only [vgaClear, filled]

theorem copyRow_cell (m : VideoMem (BitVec 16)) (row i : Int) :
    (copyRow m row).cell i =
      if (row - 1) * vgaWidth ≤ i ∧ i < row * vgaWidth then m.cell (i + vgaWidth) else m.cell i := by
  have filled := m.foldl_store_cell ((row - 1) * vgaWidth)
    (fun m' col => m'.cell (row * vgaWidth + col)) vgaWidth.toNat
    (fun m' same k within => same _ (by simp only [vgaWidth] at *; omega)) i
  refine filled.trans ?_
  by_cases current : (row - 1) * vgaWidth ≤ i ∧ i < row * vgaWidth
  next =>
    rw [if_pos current, if_pos (by simp only [vgaWidth] at *; omega)]
    congr 1
    simp only [vgaWidth] at *
    omega
  next => rw [if_neg current, if_neg (by simp only [vgaWidth] at *; omega)]

theorem blankLastRow_cell (m : VideoMem (BitVec 16)) (attr : Byte) (i : Int) :
    (blankLastRow m attr).cell i =
      if (vgaHeight - 1) * vgaWidth ≤ i ∧ i < vgaHeight * vgaWidth then textCell attr charSpace
      else m.cell i := by
  have filled :=
    m.foldl_store_cell ((vgaHeight - 1) * vgaWidth) (fun _ _ => textCell attr charSpace)
    vgaWidth.toNat (fun _ _ _ _ => rfl) i
  exact filled

theorem vgaScrollOnce_cell (s : Console) (i : Int) :
    s.vgaScrollOnce.mem.cell i =
      if 0 ≤ i ∧ i < (vgaHeight - 1) * vgaWidth then s.mem.cell (i + vgaWidth)
      else if (vgaHeight - 1) * vgaWidth ≤ i ∧ i < vgaHeight * vgaWidth then
        textCell s.curAttr charSpace
      else s.mem.cell i := by
  have reached (n : Nat) (i : Int) : ((List.range n).foldl
      (fun (m : VideoMem (BitVec 16)) (row : Nat) => copyRow m (row + 1)) s.mem).cell i =
      if 0 ≤ i ∧ i < n * vgaWidth then s.mem.cell (i + vgaWidth) else s.mem.cell i := by
    induction n generalizing i with
    | zero => rw [if_neg (by simp only [vgaWidth]; omega)]; rfl
    | succ n ih =>
      rw [List.range_succ, List.foldl_append, List.foldl_cons, List.foldl_nil, copyRow_cell, ih, ih]
      by_cases current : (n + 1 - 1 : Int) * vgaWidth ≤ i ∧ i < (n + 1 : Int) * vgaWidth
      next =>
        -- the rows from `n + 1` on are still in place
        rw [if_pos current, if_neg (by simp only [vgaWidth] at *; omega),
          if_pos (by simp only [vgaWidth] at *; omega)]
      next =>
        rw [if_neg current]
        exact if_congr (by simp only [vgaWidth] at *; omega) rfl rfl
  have copied := reached (vgaHeight - 1).toNat i
  have rows : ((vgaHeight - 1).toNat : Int) = vgaHeight - 1 := by decide
  rw [rows] at copied
  simp only [vgaScrollOnce, blankLastRow_cell, copied]
  by_cases kept : 0 ≤ i ∧ i < (vgaHeight - 1) * vgaWidth
  next => rw [if_pos kept, if_neg (by omega), if_pos kept]
  next => rw [if_neg kept, if_neg kept]

theorem copyRow_stored {m : VideoMem (BitVec 16)} (kept : m.StoredIn InBuffer) {row : Int}
    (first : 1 ≤ row) (last : row < vgaHeight) : (copyRow m row).StoredIn InBuffer := by
  refine VideoMem.StoredIn.foldl _ _ (fun m col member stored => stored.store ?_ _) kept
  have within := List.mem_range.mp member
  simp only [InBuffer, vgaWidth, vgaHeight] at *
  omega

theorem blankLastRow_stored {m : VideoMem (BitVec 16)} (kept : m.StoredIn InBuffer) (attr : Byte) :
    (blankLastRow m attr).StoredIn InBuffer := by
  refine VideoMem.StoredIn.foldl _ _ (fun m col member stored => stored.store ?_ _) kept
  have within := List.mem_range.mp member
  simp only [InBuffer, vgaWidth, vgaHeight] at *
  omega

theorem vgaScrollOnce_stored {s : Console} (kept : s.mem.StoredIn InBuffer) :
    s.vgaScrollOnce.mem.StoredIn InBuffer := by
  refine blankLastRow_stored (VideoMem.StoredIn.foldl _ _ (fun m row member stored => ?_) kept) _
  have within := List.mem_range.mp member
  exact copyRow_stored stored (by omega) (by simp only [vgaHeight] at *; omega)

theorem vgaScrollOnce_screen {s : Console} {t : Terminal} (screen : Screen s.mem t.cell) :
    Screen s.vgaScrollOnce.mem (t.scroll s.curAttr).cell := by
  refine ⟨fun r col => ?_, vgaScrollOnce_stored screen.stores⟩
  have row := r.isLt
  have column := col.isLt
  rw [vgaScrollOnce_cell]
  by_cases below : r.val + 1 < 25
  next =>
    have copied := screen.buffer ⟨r.val + 1, below⟩ col
    rw [if_pos (by simp only [vgaWidth, vgaHeight]; omega)]
    simp only [Terminal.scroll, below, dif_pos, ← copied]
    congr 1
    simp only [vgaWidth]
    omega
  next =>
    rw [if_neg (by simp only [vgaWidth, vgaHeight]; omega),
      if_pos (by simp only [vgaWidth, vgaHeight]; omega)]
    simp only [Terminal.scroll, below, dif_neg, not_false_eq_true]

theorem store_screen {m : VideoMem (BitVec 16)} {t : Terminal} (screen : Screen m t.cell)
    (c attr : Byte) :
    Screen (m.store (t.row.val * vgaWidth + t.col.val) (textCell attr c)) (t.write c attr).cell := by
  have row := t.row.isLt
  have column := t.col.isLt
  refine ⟨fun r col => ?_, screen.stores.store ?_ _⟩
  next =>
    have column' := col.isLt
    rw [VideoMem.store_cell]
    simp only [Terminal.write, screen.buffer]
    refine if_congr ?_ rfl rfl
    simp only [vgaWidth, Fin.ext_iff]
    omega
  next =>
    simp only [InBuffer, vgaWidth, vgaHeight]
    omega

theorem wrapColumn_within {s : Console} (within : s.tx < vgaWidth) : s.wrapColumn = s :=
  if_neg (by omega)

theorem wrapColumn_beyond {s : Console} (beyond : vgaWidth ≤ s.tx) :
    s.wrapColumn = { s with tx := 0, ty := int (s.ty + 1) } :=
  if_pos beyond

theorem placed {s : Console} {t : Terminal} (shown : s.Shows t) (c attr : Byte) :
    let placed := (place { s with curAttr := attr } c attr).wrapColumn
    placed.tx = (nextColumn t.col c).val ∧
      placed.ty = t.row.val + rowStep t.col c ∧
      Screen placed.mem (t.drawn c attr).cell ∧ placed.curAttr = attr := by
  have row := t.row.isLt
  have column := t.col.isLt
  have nextRow : int (s.ty + 1) = t.row.val + 1 := by
    rw [shown.row]
    exact int_of_range (by omega) (by omega)
  unfold Terminal.drawn
  unfold rowStep
  dsimp only
  by_cases newline : c = charNewline
  next =>
    subst newline
    simp [place, wrapColumn, nextColumn, AdvancesRow, Printable, nextRow, shown.screen, vgaWidth]
  by_cases carriage : c = charReturn
  next =>
    subst carriage
    simp [place, wrapColumn, nextColumn, AdvancesRow, Printable, newline, shown.row, shown.screen,
      vgaWidth, show charReturn ≠ charTab by decide]
  by_cases tab : c = charTab
  next =>
    subst tab
    have stop : int (s.tx + 4) / 4 * 4 = t.col.val / 4 * 4 + 4 := by
      rw [shown.column, int_of_range (by omega) (by omega)]
      omega
    have moved : place { s with curAttr := attr } charTab attr =
        { s with curAttr := attr, tx := t.col.val / 4 * 4 + 4 } := by
      simp [place, newline, carriage, stop]
    rw [moved]
    by_cases within : t.col.val / 4 * 4 + 4 < 80
    next =>
      have stays : ¬ 76 ≤ t.col.val := by omega
      rw [wrapColumn_within (by simp only [vgaWidth]; omega)]
      simp [nextColumn, AdvancesRow, Printable, newline, carriage, within, stays, shown.row,
        shown.screen]
    next =>
      have wraps : 76 ≤ t.col.val := by omega
      rw [wrapColumn_beyond (by simp only [vgaWidth]; omega)]
      simp [nextColumn, AdvancesRow, Printable, newline, carriage, within, wraps, nextRow,
        shown.screen]
  by_cases back : c = charBackspace
  next =>
    subst back
    have moved : place { s with curAttr := attr } charBackspace attr =
        { s with curAttr := attr, tx := (t.col.val - 1 : Nat) } := by
      have column' := shown.column
      by_cases start : 0 < s.tx
      next =>
        have left : s.tx - 1 = (t.col.val - 1 : Nat) := by omega
        simp only [place, newline, carriage, tab, start, left, if_false, if_true]
      next =>
        have kept : s.tx = (t.col.val - 1 : Nat) := by omega
        simp only [place, newline, carriage, tab, start, if_false, if_true, ← kept]
    rw [moved, wrapColumn_within (by simp only [vgaWidth]; omega)]
    simp [nextColumn, AdvancesRow, Printable, newline, carriage, tab, shown.row, shown.screen]
  next =>
    have right : int (s.tx + 1) = t.col.val + 1 := by
      rw [shown.column]
      exact int_of_range (by omega) (by omega)
    have index : int (int (s.ty * vgaWidth) + s.tx) = t.row.val * vgaWidth + t.col.val := by
      have start : int (t.row.val * vgaWidth) = t.row.val * vgaWidth :=
        int_of_range (by simp only [vgaWidth]; omega) (by simp only [vgaWidth]; omega)
      rw [shown.column, shown.row, start]
      exact int_of_range (by simp only [vgaWidth]; omega) (by simp only [vgaWidth]; omega)
    have stored := store_screen shown.screen c attr
    have moved : place { s with curAttr := attr } c attr =
        { s with
          curAttr := attr, tx := t.col.val + 1
          mem := s.mem.store (t.row.val * vgaWidth + t.col.val) (textCell attr c) } := by
      simp only [place, newline, carriage, tab, back, index, right, if_false]
    rw [moved]
    by_cases within : t.col.val + 1 < 80
    next =>
      have stays : t.col.val ≠ 79 := by omega
      rw [wrapColumn_within (by simp only [vgaWidth]; omega)]
      simp [nextColumn, AdvancesRow, Printable, newline, carriage, tab, back,
        within, stays, shown.row, stored]
    next =>
      have wraps : t.col.val = 79 := by omega
      rw [wraps] at stored
      rw [wrapColumn_beyond (by simp only [vgaWidth]; omega)]
      simpa [nextColumn, AdvancesRow, Printable, newline, carriage, tab, back, wraps, nextRow]
        using stored

theorem vgaPutc_ty {s : Console} {t : Terminal} (shown : s.Shows t) (c attr : Byte) :
    (s.vgaPutc c attr).ty = t.row.val + rowStep t.col c := by
  have scrolled (s : Console) : (if vgaHeight ≤ s.ty then s.vgaScrollOnce else s).ty = s.ty := by
    split <;> rfl
  exact (scrolled _).trans (placed shown c attr).2.1

theorem vgaPutc_tx {s : Console} {t : Terminal} (shown : s.Shows t) (c attr : Byte) :
    (s.vgaPutc c attr).tx = (nextColumn t.col c).val := by
  have scrolled (s : Console) : (if vgaHeight ≤ s.ty then s.vgaScrollOnce else s).tx = s.tx := by
    split <;> rfl
  exact (scrolled _).trans (placed shown c attr).1

theorem vgaPutc_screen {s : Console} {t : Terminal} (shown : s.Shows t) (c attr : Byte) :
    Screen (s.vgaPutc c attr).mem (t.put c attr).cell := by
  have row := t.row.isLt
  obtain ⟨-, line, screen, colour⟩ := placed shown c attr
  rw [Terminal.put_cell]
  by_cases bottom : AdvancesRow t.col c ∧ t.row.val = 24
  next =>
    have full : vgaHeight ≤ (place { s with curAttr := attr } c attr).wrapColumn.ty := by
      have step := (rowStep_pos t.col c).mpr bottom.1
      rw [line, bottom.2]
      simp only [vgaHeight]
      omega
    have copied := vgaScrollOnce_screen screen
    rw [colour] at copied
    rw [if_pos bottom]
    simp only [vgaPutc, full, if_true]
    exact copied
  next =>
    have room : ¬ vgaHeight ≤ (place { s with curAttr := attr } c attr).wrapColumn.ty := by
      have step := rowStep_le t.col c
      rw [line]
      simp only [vgaHeight]
      rcases Nat.eq_zero_or_pos (rowStep t.col c) with still | moved
      · omega
      · have above : t.row.val ≠ 24 := fun last => bottom ⟨(rowStep_pos _ _).mp moved, last⟩
        omega
    rw [if_neg bottom]
    simp only [vgaPutc, room, if_false]
    exact screen

theorem vgaPutc_shows {s : Console} {t : Terminal} (shown : s.Shows t) (c attr : Byte) :
    Shows { s.vgaPutc c attr with ty := min (s.vgaPutc c attr).ty (vgaHeight - 1) }
      (t.put c attr) where
  column := vgaPutc_tx shown c attr
  row := by
    rw [Terminal.put_row, vgaPutc_ty shown]
    simp only [vgaHeight]
    omega
  screen := vgaPutc_screen shown c attr

theorem Shows.onScreen {s : Console} {t : Terminal} (shown : s.Shows t) : s.OnScreen t where
  column := by
    have column := t.col.isLt
    rw [shown.column]
    simp only [vgaWidth]
    omega
  row := by
    have row := t.row.isLt
    rw [shown.row]
    simp only [vgaHeight]
    omega
  screen := shown.screen

theorem vgaClear_stored {s : Console} (kept : s.mem.StoredIn InBuffer) (attr : Byte) :
    (s.vgaClear attr).mem.StoredIn InBuffer := by
  unfold vgaClear
  dsimp only
  refine VideoMem.StoredIn.foldl _ _ (fun m i member stored => stored.store ?_ _) kept
  have within := List.mem_range.mp member
  simp only [InBuffer, vgaWidth, vgaHeight] at *
  omega

theorem vgaInit_shows (cells : Int → BitVec 16) : (powerOn cells).vgaInit.Shows Terminal.blank where
  column := rfl
  row := rfl
  screen := by
    have cleared : (powerOn cells).vgaInit.mem = ((powerOn cells).vgaClear 0x0F).mem := by
      simp only [vgaInit, vgaSetCursor]
    rw [cleared]
    refine ⟨fun r col => ?_, vgaClear_stored (fun i earlier => absurd earlier List.not_mem_nil) _⟩
    have row := r.isLt
    have column := col.isLt
    refine (vgaClear_cell _ _ _).trans (if_pos ?_)
    simp only [vgaWidth, vgaHeight]
    omega

-- From any shown state: the code stays with the terminal as long as the rows left are enough.
theorem puts_onScreen {s : Console} {t : Terminal} (shown : s.Shows t)
    (calls : List (Byte × Byte)) :
    (∀ done, done <+: calls → (s.puts done).OnScreen (t.puts done)) ↔
      t.row.val + rowAdvances t.col (calls.map Prod.fst) ≤ 24 := by
  induction calls generalizing s t with
  | nil =>
    have row := t.row.isLt
    constructor
    next => intro; simp only [List.map_nil, rowAdvances]; omega
    next =>
      intro _ done none
      rw [List.prefix_nil.mp none]
      exact shown.onScreen
  | cons call rest ih =>
    obtain ⟨c, attr⟩ := call
    have row := t.row.isLt
    have line := vgaPutc_ty shown c attr
    simp only [List.map_cons, rowAdvances]
    by_cases room : t.row.val + rowStep t.col c ≤ 24
    next =>
      have height : min (s.vgaPutc c attr).ty (vgaHeight - 1) = (s.vgaPutc c attr).ty := by
        rw [line]
        simp only [vgaHeight]
        omega
      have next := vgaPutc_shows shown c attr
      rw [height] at next
      have later := ih next
      rw [Terminal.put_row, Terminal.put_col] at later
      have total : (∀ done, done <+: (c, attr) :: rest → (s.puts done).OnScreen (t.puts done)) ↔
          ∀ done, done <+: rest → ((s.vgaPutc c attr).puts done).OnScreen ((t.put c attr).puts done) := by
        constructor
        next => exact fun all done early => all _ (List.cons_prefix_cons.mpr ⟨rfl, early⟩)
        next =>
          intro all done early
          cases done with
          | nil => exact shown.onScreen
          | cons first done =>
            obtain ⟨rfl, early'⟩ := List.cons_prefix_cons.mp early
            exact all done early'
      rw [total]
      refine later.trans ?_
      omega
    next =>
      -- the row after this call is 25
      constructor
      next =>
        intro all
        have off := (all [(c, attr)] (by simp)).row.2
        simp only [puts, List.foldl_cons, List.foldl_nil, line, vgaHeight] at off
        omega
      next => omega

/-- After each call the console is on the screen exactly when the output needs no scroll. -/
theorem vgaPutc_staysOnScreen (cells : Int → BitVec 16) (calls : List (Byte × Byte)) :
    (∀ done, done <+: calls →
      ((powerOn cells).vgaInit.puts done).OnScreen (Terminal.blank.puts done)) ↔
      rowAdvances 0 (calls.map Prod.fst) ≤ 24 := by
  refine (puts_onScreen (vgaInit_shows cells) calls).trans ?_
  change 0 + rowAdvances 0 (calls.map Prod.fst) ≤ 24 ↔ _
  rw [Nat.zero_add]

def overrunCalls : List (Byte × Byte) :=
  List.replicate 25 (charNewline, 0x0F) ++ [(0x41, 0x0F)]

theorem vgaPutc_leavesScreen :
    ((powerOn fun _ => 0).vgaInit.puts overrunCalls).mem.cell 2000 = 0x0F41 ∧
      ¬ ((powerOn fun _ => 0).vgaInit.puts overrunCalls).OnScreen (Terminal.blank.puts overrunCalls) := by
  have line : ((powerOn fun _ => 0).vgaInit.puts overrunCalls).ty = 25 := by decide +kernel
  refine ⟨by decide +kernel, fun shown => ?_⟩
  have below := shown.row.2
  rw [line] at below
  exact absurd below (by decide)

end Console

end NovaKernel
