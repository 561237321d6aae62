import NovaKernel.PrintfBounds

set_option autoImplicit false

namespace NovaKernel

namespace Printf

theorem puts_cells {size : Word} (some : size ≠ 0) {s : Sink} (text : List Byte)
    (room : s.idx.toNat + text.length < 2 ^ 32) :
    (text.foldl (putcInto size) s).idx.toNat = s.idx.toNat + text.length ∧
      ∀ i, s.idx.toNat + text.length ≤ i → (text.foldl (putcInto size) s).buf i = s.buf i := by
  induction text generalizing s with
  | nil => exact ⟨rfl, fun _ _ => rfl⟩
  | cons c text ih =>
    rw [List.length_cons] at room ⊢
    have next : (putcInto size s c).idx = s.idx + 1 := by
      rw [putcInto, if_neg some]
      split <;> rfl
    have next_nat : (putcInto size s c).idx.toNat = s.idx.toNat + 1 := by
      rw [next, idx_succ (by omega)]
    have kept : ∀ i, s.idx.toNat + 1 ≤ i → (putcInto size s c).buf i = s.buf i := fun i later => by
      rw [putcInto, if_neg some]
      split
      next => exact if_neg (by omega)
      next => rfl
    obtain ⟨idx, cells⟩ := ih (s := putcInto size s c) (by omega)
    rw [List.foldl_cons]
    refine ⟨by omega, fun i later => ?_⟩
    rw [cells i (by omega), kept i (by omega)]

theorem pieces_cells {size : Word} (some : size ≠ 0) {list : List Piece}
    (small : ∀ piece ∈ list, piece.Small) {s : Sink}
    (room : s.idx.toNat + (list.flatMap Piece.text).length < 2 ^ 32) :
    (list.foldl (Piece.put size) s).idx.toNat = s.idx.toNat + (list.flatMap Piece.text).length ∧
      ∀ i, s.idx.toNat + (list.flatMap Piece.text).length ≤ i →
        (list.foldl (Piece.put size) s).buf i = s.buf i := by
  induction list generalizing s with
  | nil => exact ⟨rfl, fun _ _ => rfl⟩
  | cons piece list ih =>
    obtain ⟨t, put, buf, idx, -⟩ := put_text size (small piece List.mem_cons_self) s
    rw [List.flatMap_cons, List.length_append] at room ⊢
    obtain ⟨first, kept⟩ := puts_cells some (s := t) piece.text (by rw [idx]; omega)
    rw [idx] at first kept
    rw [buf] at kept
    rw [List.foldl_cons, put]
    obtain ⟨last, kept'⟩ := ih (fun piece member => small piece (List.mem_cons_of_mem _ member))
      (s := piece.text.foldl (putcInto size) t) (by omega)
    refine ⟨by omega, fun i later => ?_⟩
    rw [kept' i (by omega), kept i (by omega)]

theorem ksprintf_cells {fmt : List Byte} {args : VaList} (small : SmallFormat fmt args)
    (short : (expansion fmt args).length < 0x1000) (buf : Nat → Byte) :
    (ksprintf fmt args buf).buf (expansion fmt args).length = 0 ∧
      ∀ i, (expansion fmt args).length < i → (ksprintf fmt args buf).buf i = buf i := by
  have room : (0#32).toNat + (expansion fmt args).length < 2 ^ 32 := by
    rw [BitVec.toNat_zero]
    omega
  have some : (0x1000 : Word) ≠ 0 := by decide
  obtain ⟨idx, cells⟩ := pieces_cells some small (s := ⟨buf, 0, true⟩) room
  have idx' : ((pieces fmt args).foldl (Piece.put 0x1000) ⟨buf, 0, true⟩).idx.toNat =
      (expansion fmt args).length := by
    simpa [expansion] using idx
  have below : ((pieces fmt args).foldl (Piece.put 0x1000) ⟨buf, 0, true⟩).idx < 0x1000 := by
    rw [BitVec.lt_def, idx']
    exact short
  rw [ksprintf, kvsnprintf, if_neg (by decide)]
  simp only [formatLoop_eq (Nat.le_refl _), below, if_true, idx']
  refine ⟨trivial, fun i later => ?_⟩
  rw [if_neg (by omega)]
  exact cells i (by simpa [expansion] using Nat.le_of_lt later)

def Within (cap : Nat) (run : (Nat → Byte) → Nat → Byte) : Prop :=
  ∀ buf i, cap ≤ i → run buf i = buf i

theorem ksprintf_within_iff {fmt : List Byte} {args : VaList} (small : SmallFormat fmt args)
    (short : (expansion fmt args).length < 0x1000) (cap : Nat) :
    Within cap (fun buf => (ksprintf fmt args buf).buf) ↔ (expansion fmt args).length < cap := by
  constructor
  · intro within
    by_contra outside
    have same : (ksprintf fmt args fun _ => 1).buf (expansion fmt args).length = 1 :=
      within (fun _ => 1) _ (Nat.le_of_not_lt outside)
    rw [(ksprintf_cells small short _).1] at same
    exact absurd same (by decide)
  · intro inside buf i later
    exact (ksprintf_cells small short buf).2 i (by omega)

/-- What a format with proper widths and precisions expands to, and the strings it prints; read off segment by
segment. -/
structure Expands (fmt : List Byte) (args : VaList) (text : List Byte)
    (strings : List (List Byte)) : Prop where
  small : SmallFormat fmt args
  expansion : expansion fmt args = text
  fits : (∀ piece ∈ pieces fmt args, piece.Fits) ↔ ∀ s ∈ strings, s.length ≤ 80

namespace Expands

variable {fmt text : List Byte} {args : VaList} {strings : List (List Byte)}

theorem nil (args : VaList) : Expands [] args [] [] where
  small piece member := by
    rw [pieces_nil] at member
    exact absurd member List.not_mem_nil
  expansion := by
    rw [Printf.expansion, pieces_nil]
    rfl
  fits := by
    rw [pieces_nil]
    simp

theorem lits {pre : List Byte} (plain : 0x25#8 ∉ pre) (rest : Expands fmt args text strings) :
    Expands (pre ++ fmt) args (pre ++ text) strings := by
  induction pre with
  | nil => exact rest
  | cons c pre ih =>
    rw [List.mem_cons, not_or] at plain
    obtain ⟨small, expansion, fits⟩ := ih plain.2
    have piece := pieces_lit (Ne.symm plain.1) (pre ++ fmt) args
    constructor
    · rw [List.cons_append, SmallFormat, piece]
      exact List.forall_mem_cons.mpr ⟨trivial, small⟩
    · rw [List.cons_append, Printf.expansion, piece, List.flatMap_cons]
      exact congrArg (c :: ·) expansion
    · rw [List.cons_append, piece, List.forall_mem_cons]
      exact (and_iff_right trivial).trans fits

theorem conv {fmt' : List Byte} {spec : Spec} {c : Byte} {own : List (List Byte)}
    (read : readSpec fmt' = (spec, c :: fmt))
    (proper : spec.width < 2 ^ 31 ∧ ∀ prec ∈ spec.prec, prec < 2 ^ 31)
    (short : (Piece.conv spec c (args 0)).Fits ↔ ∀ s ∈ own, s.length ≤ 80)
    (rest : Expands fmt (argsAfter c args) text strings) :
    Expands (0x25#8 :: fmt') args (fieldText spec (convert spec.precision c (args 0)) ++ text)
      (own ++ strings) := by
  obtain ⟨small, expansion, fits⟩ := rest
  have left : (readSpec fmt').2 = c :: fmt := by rw [read]
  have piece := pieces_conv left args
  rw [read] at piece
  constructor
  · rw [SmallFormat, piece]
    exact List.forall_mem_cons.mpr ⟨proper, small⟩
  · rw [Printf.expansion, piece, List.flatMap_cons]
    exact congrArg _ expansion
  · rw [piece, List.forall_mem_cons, List.forall_mem_append]
    exact and_congr short fits

theorem within_iff (expands : Expands fmt args text strings) (short : text.length < 0x1000)
    (cap : Nat) :
    Within cap (fun buf => (ksprintf fmt args buf).buf) ↔ text.length < cap := by
  obtain ⟨small, rfl, -⟩ := expands
  exact ksprintf_within_iff small short cap

theorem inside_iff (expands : Expands fmt args text strings) (short : text.length < 0x1000)
    (buf : Nat → Byte) : (ksprintf fmt args buf).inside = true ↔ ∀ s ∈ strings, s.length ≤ 80 := by
  obtain ⟨small, rfl, fits⟩ := expands
  rw [← fits]
  exact ⟨fits_of_inside (by decide) small,
    fun pieces => (bounded_of_fits (by decide) small pieces (by omega)).inside⟩

end Expands

def strArg (s : List Byte) : Arg := ⟨0, some s⟩

def numArg (v : Word) : Arg := ⟨v, none⟩

def vaList (args : List Arg) : VaList := fun i => args.getD i (numArg 0)

def field (left : Bool) (width : Nat) (tmp : List Byte) : List Byte :=
    fieldText ⟨left, false, width, none⟩ ⟨tmp, false, 0⟩

@[simp] theorem field_zero (left : Bool) (tmp : List Byte) : field left 0 tmp = tmp := by
  cases left <;> simp [field, fieldText]

@[simp] theorem field_length (left : Bool) (width : Nat) (tmp : List Byte) :
    (field left width tmp).length = max width tmp.length := by
  cases left <;> simp [field, fieldText] <;> omega

section Conversions

variable {fmt fmt' text : List Byte} {args : List Arg} {strings : List (List Byte)} {left : Bool}
    {width : Nat}

theorem Expands.str (read : readSpec fmt' = (⟨left, false, width, none⟩, 0x73#8 :: fmt))
    (proper : width < 2 ^ 31) (s : List Byte) (rest : Expands fmt (vaList args) text strings) :
    Expands (0x25#8 :: fmt') (vaList (strArg s :: args)) (field left width s ++ text) (s :: strings) := by
  have body : convert (-1) 0x73#8 (strArg s) = ⟨s, false, 0⟩ := rfl
  have rest' : Expands fmt (argsAfter 0x73#8 (vaList (strArg s :: args))) text strings := rest
  have short : (Piece.conv ⟨left, false, width, none⟩ 0x73#8 (strArg s)).Fits ↔
      ∀ s' ∈ [s], s'.length ≤ 80 := by
    simp [Piece.Fits, strArg]
  have expands := Expands.conv read ⟨proper, by simp⟩ short rest'
  rwa [show vaList (strArg s :: args) 0 = strArg s from rfl,
    show (Spec.precision ⟨left, false, width, none⟩) = -1 from rfl, body] at expands

theorem Expands.unsigned {c : Byte} {base : Nat}
    (read : readSpec fmt' = (⟨left, false, width, none⟩, c :: fmt))
    (known : c = 0x75#8 ∧ base = 10 ∨ c = 0x78#8 ∧ base = 16) (proper : width < 2 ^ 31) (v : Word)
    (rest : Expands fmt (vaList args) text strings) :
    Expands (0x25#8 :: fmt') (vaList (numArg v :: args)) (field left width (u32ToStr v base false) ++ text)
      strings := by
  have fill : zeroFill (-1) (u32ToStr v base false) = u32ToStr v base false := if_neg (by omega)
  have body : convert (-1) c (numArg v) =
      ⟨u32ToStr v base false, false, (u32ToStr v base false).length + 1⟩ := by
    have conversion : convert (-1) c (numArg v) = unsignedBody (-1) base false (numArg v) := by
      rcases known with ⟨rfl, rfl⟩ | ⟨rfl, rfl⟩ <;> rfl
    rw [conversion, unsignedBody, numArg, fill]
  have rest' : Expands fmt (argsAfter c (vaList (numArg v :: args))) text strings := by
    rcases known with ⟨rfl, -⟩ | ⟨rfl, -⟩ <;> exact rest
  have short : (Piece.conv ⟨left, false, width, none⟩ c (numArg v)).Fits ↔
      ∀ s ∈ ([] : List (List Byte)), s.length ≤ 80 := by
    rcases known with ⟨rfl, -⟩ | ⟨rfl, -⟩ <;> simp [Piece.Fits]
  have expands := Expands.conv read ⟨proper, by simp⟩ short rest'
  rwa [show vaList (numArg v :: args) 0 = numArg v from rfl,
    show (Spec.precision ⟨left, false, width, none⟩) = -1 from rfl, body,
    List.nil_append] at expands

theorem Expands.plainStr (s : List Byte) (rest : Expands fmt (vaList args) text strings) :
    Expands (0x25#8 :: 0x73#8 :: fmt) (vaList (strArg s :: args)) (s ++ text) (s :: strings) := by
  have read : readSpec (0x73#8 :: fmt) = (⟨false, false, 0, none⟩, 0x73#8 :: fmt) := rfl
  simpa using Expands.str read (by decide) s rest

theorem Expands.plainUnsigned (v : Word) (rest : Expands fmt (vaList args) text strings) :
    Expands (0x25#8 :: 0x75#8 :: fmt) (vaList (numArg v :: args)) (u32ToStr v 10 false ++ text) strings := by
  have read : readSpec (0x75#8 :: fmt) = (⟨false, false, 0, none⟩, 0x75#8 :: fmt) := rfl
  simpa using Expands.unsigned read (.inl ⟨rfl, rfl⟩) (by decide) v rest

theorem Expands.plainHex (v : Word) (rest : Expands fmt (vaList args) text strings) :
    Expands (0x25#8 :: 0x78#8 :: fmt) (vaList (numArg v :: args)) (u32ToStr v 16 false ++ text) strings := by
  have read : readSpec (0x78#8 :: fmt) = (⟨false, false, 0, none⟩, 0x78#8 :: fmt) := rfl
  simpa using Expands.unsigned read (.inr ⟨rfl, rfl⟩) (by decide) v rest

end Conversions

end Printf

end NovaKernel
