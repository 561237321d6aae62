import NovaKernel.Printf
import Mathlib.Data.List.Basic
import Mathlib.Data.Nat.Digits.Lemmas

set_option autoImplicit false

namespace NovaKernel

namespace Printf

/-- A piece of a format: a character that stands for itself, or a conversion with its argument. -/
inductive Piece
  | lit (c : Byte)
  | conv (spec : Spec) (c : Byte) (arg : Arg)

theorem readFlags_length (fmt : List Byte) (left zero : Bool) :
    (readFlags fmt left zero).2.2.length ≤ fmt.length := by
  induction fmt generalizing left zero with
  | nil => exact Nat.le_refl _
  | cons c fmt ih =>
    rw [readFlags]
    split
    next => exact Nat.le_succ_of_le (ih _ _)
    next =>
      split
      next => exact Nat.le_succ_of_le (ih _ _)
      next => exact Nat.le_refl _

theorem readNumber_length (fmt : List Byte) (n : Nat) :
    (readNumber fmt n).2.length ≤ fmt.length := by
  induction fmt generalizing n with
  | nil => exact Nat.le_refl _
  | cons c fmt ih =>
    rw [readNumber]
    split
    next => exact Nat.le_succ_of_le (ih _)
    next => exact Nat.le_refl _

theorem readPrec_length (fmt : List Byte) : (readPrec fmt).2.length ≤ fmt.length := by
  cases fmt with
  | nil => exact Nat.le_refl _
  | cons c fmt =>
    rw [readPrec]
    split
    next => exact Nat.le_succ_of_le (readNumber_length fmt 0)
    next => exact Nat.le_refl _

theorem readSpec_length (fmt : List Byte) : (readSpec fmt).2.length ≤ fmt.length :=
  Nat.le_trans (readPrec_length _) (Nat.le_trans (readNumber_length _ 0) (readFlags_length fmt false false))

def argsAfter (c : Byte) (args : VaList) : VaList :=
  if takesArg c then fun i => args (i + 1) else args

-- A `%` at the end of the format stands for itself.
def pieces : List Byte → VaList → List Piece
  | [], _ => []
  | c :: fmt, args =>
    if c ≠ 0x25#8 then .lit c :: pieces fmt args
    else match _left : (readSpec fmt).2 with
      | [] => [.lit 0x25#8]
      | conv :: rest => .conv (readSpec fmt).1 conv (args 0) :: pieces rest (argsAfter conv args)
termination_by fmt => fmt.length
decreasing_by
  · simp
  · have shorter := readSpec_length fmt
    rw [_left] at shorter
    simp only [List.length_cons] at shorter ⊢
    omega

theorem pieces_nil (args : VaList) : pieces [] args = [] := by
  rw [pieces]

theorem pieces_lit {c : Byte} (plain : c ≠ 0x25#8) (fmt : List Byte) (args : VaList) :
    pieces (c :: fmt) args = .lit c :: pieces fmt args := by
  rw [pieces, if_pos plain]

theorem pieces_end {fmt : List Byte} (left : (readSpec fmt).2 = []) (args : VaList) :
    pieces (0x25#8 :: fmt) args = [.lit 0x25#8] := by
  rw [pieces, if_neg (by simp)]
  split
  next => rfl
  next _ _ left' =>
    rw [left] at left'
    cases left'

theorem pieces_conv {fmt rest : List Byte} {conv : Byte} (left : (readSpec fmt).2 = conv :: rest)
    (args : VaList) :
    pieces (0x25#8 :: fmt) args =
      .conv (readSpec fmt).1 conv (args 0) :: pieces rest (argsAfter conv args) := by
  rw [pieces, if_neg (by simp)]
  split
  next left' =>
    rw [left] at left'
    cases left'
  next _ _ left' =>
    rw [left] at left'
    cases left'
    rfl

def Spec.precision (spec : Spec) : Int :=
  match spec.prec with
  | none => -1
  | some prec => prec

/-- A body in its field: the padding stands right of it, left of it, or between sign and digits. -/
def fieldText (spec : Spec) (b : Body) : List Byte :=
  let sign := if b.negative then [0x2D#8] else []
  let padding := spec.width - (b.tmp.length + sign.length)
  if spec.left then sign ++ b.tmp ++ List.replicate padding 0x20#8
  else if spec.zero then
    if spec.prec.isNone then sign ++ List.replicate padding 0x30#8 ++ b.tmp else sign ++ b.tmp
  else List.replicate padding 0x20#8 ++ sign ++ b.tmp

namespace Piece

def text : Piece → List Byte
  | lit c => [c]
  | conv spec c arg => fieldText spec (convert spec.precision c arg)

def Small : Piece → Prop
  | lit _ => True
  | conv spec _ _ => spec.width < 2 ^ 31 ∧ ∀ prec ∈ spec.prec, prec < 2 ^ 31

/-- The text of a conversion before it is padded is at most the 80 bytes of `tmp`. -/
def Fits : Piece → Prop
  | lit _ => True
  | conv spec c arg =>
    (c = 0x73#8 → (match spec.prec with
      | none => (arg.str.getD nullText).length
      | some prec => min prec (arg.str.getD nullText).length) ≤ 80) ∧
    (c ∈ [0x64#8, 0x69#8, 0x75#8, 0x78#8, 0x58#8] → ∀ prec ∈ spec.prec, prec ≤ 80)

end Piece

def expansion (fmt : List Byte) (args : VaList) : List Byte := (pieces fmt args).flatMap Piece.text

/-- What C99 promises for a buffer of `size` bytes, scratch arrays included. -/
structure Bounded (size : Word) (text : List Byte) (r : Result) : Prop where
  inside : r.inside = true
  ret : r.ret = text.length
  prefix_eq : ∀ i (before : i < text.length), i < size.toNat - 1 → r.buf i = text[i]
  terminated : r.buf (min text.length (size.toNat - 1)) = 0

theorem digitLoop_eq {base v fuel : Nat} (large : 1 < base) (bound : v < base ^ fuel) :
    digitLoop base fuel v = Nat.digits base v := by
  induction fuel generalizing v with
  | zero =>
    have zero : v = 0 := by simpa using bound
    subst zero
    rw [digitLoop, Nat.digits_zero]
  | succ fuel ih =>
    rw [digitLoop]
    by_cases zero : v = 0
    · rw [if_pos zero, zero, Nat.digits_zero]
    · have less : v / base < base ^ fuel := by
        rw [Nat.div_lt_iff_lt_mul (by omega)]
        rwa [Nat.pow_succ] at bound
      rw [if_neg zero, ih less, Nat.digits_def' large (Nat.pos_of_ne_zero zero)]

def numeral (base v : Nat) : List Nat := if v = 0 then [0] else (Nat.digits base v).reverse

theorem u32ToStr_eq {base : Nat} (large : 1 < base) (v : Word) (upper : Bool) :
    u32ToStr v base upper = (numeral base v.toNat).map (digit upper) := by
  have bound : v.toNat < base ^ 32 :=
    Nat.lt_of_lt_of_le v.isLt (Nat.pow_le_pow_left large 32)
  by_cases zero : v = 0
  · subst zero
    rfl
  · have nonzero : v.toNat ≠ 0 := fun none => zero (BitVec.eq_of_toNat_eq none)
    rw [u32ToStr, if_neg zero, numeral, if_neg nonzero, digitLoop_eq large bound]

theorem numeral_length {base v : Nat} (large : 10 ≤ base) (bound : v < 2 ^ 32) :
    (numeral base v).length ≤ 10 := by
  rw [numeral]
  by_cases zero : v = 0
  · simp [zero]
  · rw [if_neg zero, List.length_reverse, Nat.digits_length_le_iff (by omega)]
    exact Nat.lt_of_lt_of_le bound (Nat.le_trans (by decide) (Nat.pow_le_pow_left large 10))

theorem numeral_ne_nil (base v : Nat) : numeral base v ≠ [] := by
  rw [numeral]
  by_cases zero : v = 0
  · simp [zero]
  · rw [if_neg zero, ne_eq, List.reverse_eq_nil_iff]
    exact Nat.digits_ne_nil_iff_ne_zero.mpr zero

theorem putpad_eq (size : Word) (s : Sink) (c : Byte) (count : Nat) :
    putpad size s c count = (List.replicate count c).foldl (putcInto size) s := rfl

theorem i32_small {n : Nat} (small : n < 2 ^ 31) : i32 n = n := by
  rw [i32, BitVec.toInt_eq_toNat_of_lt]
  · rw [BitVec.toNat_ofNat, Nat.mod_eq_of_lt (by omega)]
  · rw [BitVec.toNat_ofNat, Nat.mod_eq_of_lt (by omega)]
    omega

theorem cWidth_small {spec : Spec} (small : spec.width < 2 ^ 31) : spec.cWidth = spec.width :=
  i32_small small

theorem cPrec_small {spec : Spec} (small : ∀ prec ∈ spec.prec, prec < 2 ^ 31) :
    spec.cPrec = spec.precision := by
  rw [Spec.cPrec, Spec.precision]
  cases written : spec.prec with
  | none => rfl
  | some prec => exact i32_small (small prec (by simp [written]))

theorem precision_neg (spec : Spec) : spec.precision < 0 ↔ spec.prec.isNone := by
  rw [Spec.precision]
  cases spec.prec with
  | none => simp
  | some prec => simp

theorem emit_eq {size : Word} {spec : Spec} (small : spec.width < 2 ^ 31)
    (small' : ∀ prec ∈ spec.prec, prec < 2 ^ 31) (s : Sink) (b : Body) :
    emit size spec s b = (fieldText spec b).foldl (putcInto size) s := by
  have sign : (b.tmp.length : Int) + (if b.negative then 1 else 0) =
      ((b.tmp.length + (if b.negative then [0x2D#8] else []).length : Nat) : Int) := by
    cases b.negative <;> simp
  have padding (body : Nat) :
      (if (body : Int) < (spec.width : Int) then (spec.width : Int) - body else 0) =
        ((spec.width - body : Nat) : Int) := by
    split <;> omega
  have minus (t : Sink) : (if b.negative then putcInto size t 0x2D#8 else t) =
      (if b.negative then [0x2D#8] else []).foldl (putcInto size) t := by
    cases b.negative <;> rfl
  simp only [emit, cWidth_small small, cPrec_small small', precision_neg, sign, padding, minus,
    putpad_eq, fieldText]
  cases hleft : spec.left with
  | true => simp [Spec.cPad, hleft]
  | false =>
    cases hzero : spec.zero with
    | true => cases hprec : spec.prec <;> simp [Spec.cPad, hleft, hzero]
    | false => simp [Spec.cPad, hleft, hzero]

def Piece.put (size : Word) (s : Sink) : Piece → Sink
  | .lit c => putcInto size s c
  | .conv spec c arg =>
    emit size spec (scratch s (convert spec.cPrec c arg)) (convert spec.cPrec c arg)

theorem formatLoop_eq {size : Word} {fuel : Nat} {fmt : List Byte} (enough : fmt.length ≤ fuel)
    (args : VaList) (s : Sink) :
    formatLoop size fuel fmt args s = (pieces fmt args).foldl (Piece.put size) s := by
  induction fuel generalizing fmt args s with
  | zero =>
    obtain rfl := List.eq_nil_of_length_eq_zero (Nat.le_zero.mp enough)
    rw [pieces]
    rfl
  | succ fuel ih =>
    cases fmt with
    | nil =>
      rw [pieces]
      rfl
    | cons c fmt =>
      have room : fmt.length ≤ fuel := Nat.le_of_succ_le_succ enough
      by_cases plain : c = 0x25#8
      · subst plain
        have shorter := readSpec_length fmt
        cases left : (readSpec fmt).2 with
        | nil =>
          rw [pieces_end left, formatLoop, if_neg (by simp)]
          simp only [left]
          rfl
        | cons conv rest =>
          rw [left, List.length_cons] at shorter
          rw [pieces_conv left, formatLoop, if_neg (by simp)]
          simp only [left, ih (show rest.length ≤ fuel by omega)]
          rfl
      · rw [pieces_lit plain, formatLoop, if_pos plain, ih room]
        rfl

/-- The characters written so far, as far as the buffer takes them. -/
structure Sink.Holds (size : Word) (s : Sink) (text : List Byte) : Prop where
  idx_eq : s.idx.toNat = text.length
  cell : ∀ i (before : i < text.length), i < size.toNat - 1 → s.buf i = text[i]

theorem idx_succ {s : Sink} (room : s.idx.toNat + 1 < 2 ^ 32) :
    (s.idx + 1).toNat = s.idx.toNat + 1 := by
  rw [BitVec.toNat_add]
  change (s.idx.toNat + 1) % 2 ^ 32 = _
  exact Nat.mod_eq_of_lt room

theorem holds_put {size : Word} {s : Sink} {text : List Byte} (some : size ≠ 0)
    (holds : s.Holds size text) (room : text.length + 1 < 2 ^ 32) (c : Byte) :
    (putcInto size s c).Holds size (text ++ [c]) ∧ (putcInto size s c).inside = s.inside := by
  have next : (s.idx + 1).toNat = text.length + 1 := by
    rw [idx_succ (by rw [holds.idx_eq]; exact room), holds.idx_eq]
  have length : (text ++ [c]).length = text.length + 1 := by simp
  rw [putcInto, if_neg some]
  by_cases fits : s.idx + 1 < size
  · rw [if_pos fits]
    have fits' : text.length + 1 < size.toNat := by rwa [BitVec.lt_def, next] at fits
    have inside : s.idx < size := by
      rw [BitVec.lt_def, holds.idx_eq]
      omega
    refine ⟨⟨next.trans length.symm, fun i before below => ?_⟩, by simp [inside]⟩
    by_cases last : i = text.length
    · subst last
      simp [holds.idx_eq]
    · have old : i < text.length := by omega
      rw [List.getElem_append_left old]
      exact (if_neg (by rw [holds.idx_eq]; exact last)).trans (holds.cell i old below)
  · rw [if_neg fits]
    have full : size.toNat ≤ text.length + 1 := by rwa [BitVec.lt_def, next, Nat.not_lt] at fits
    refine ⟨⟨next.trans length.symm, fun i before below => ?_⟩, rfl⟩
    have old : i < text.length := by omega
    rw [List.getElem_append_left old]
    exact holds.cell i old below

theorem holds_puts {size : Word} (some : size ≠ 0) {s : Sink} {text : List Byte}
    (holds : s.Holds size text) (more : List Byte) (room : (text ++ more).length < 2 ^ 32) :
    (more.foldl (putcInto size) s).Holds size (text ++ more) ∧
      (more.foldl (putcInto size) s).inside = s.inside := by
  induction more generalizing s text with
  | nil => exact ⟨by simpa using holds, rfl⟩
  | cons c more ih =>
    have room' : text.length + 1 < 2 ^ 32 := by
      simp only [List.length_append, List.length_cons] at room
      omega
    obtain ⟨one, kept⟩ := holds_put some holds room' c
    obtain ⟨all, kept'⟩ := ih one (by simpa using room)
    exact ⟨by simpa using all, kept'.trans kept⟩

-- An overrun is never taken back.
theorem inside_put {size : Word} {s : Sink} {c : Byte}
    (inside : (putcInto size s c).inside = true) :
    s.inside = true := by
  rw [putcInto] at inside
  split at inside
  next => exact inside
  next =>
    split at inside
    next => exact (Bool.and_eq_true_iff.mp inside).1
    next => exact inside

theorem inside_puts {size : Word} {s : Sink} {text : List Byte}
    (inside : (text.foldl (putcInto size) s).inside = true) : s.inside = true := by
  induction text generalizing s with
  | nil => exact inside
  | cons c text ih => exact inside_put (ih inside)

theorem zeroFill_length (prec : Int) (num : List Byte) :
    ((zeroFill prec num).length : Int) = max prec num.length := by
  rw [zeroFill]
  split
  next more =>
    rw [List.length_append, List.length_replicate]
    omega
  next => omega

theorem u32ToStr_length {base : Nat} (large : 10 ≤ base) (v : Word) (upper : Bool) :
    (u32ToStr v base upper).length ≤ 10 := by
  rw [u32ToStr_eq (by omega), List.length_map]
  exact numeral_length large v.isLt

theorem convert_num (prec : Int) (c : Byte) (arg : Arg) : (convert prec c arg).num ≤ 32 := by
  have decimal (v : Word) := u32ToStr_length (Nat.le_refl 10) v false
  have hex (v : Word) (upper : Bool) := u32ToStr_length (show 10 ≤ 16 by decide) v upper
  unfold convert
  repeat' split
  all_goals simp only [charBody, strBody, signedBody, unsignedBody, pointerBody, Nat.zero_le]
  · have := decimal (if arg.word.msb then -arg.word else arg.word)
    omega
  · have := decimal arg.word
    omega
  · have := hex arg.word false
    omega
  · have := hex arg.word true
    omega
  · have := hex arg.word false
    omega

theorem zeroFill_fits {num : List Byte} (short : num.length ≤ 10) (spec : Spec) :
    (zeroFill spec.precision num).length ≤ 80 ↔ ∀ prec ∈ spec.prec, prec ≤ 80 := by
  have length := zeroFill_length spec.precision num
  cases written : spec.prec with
  | none =>
    have value : spec.precision = -1 := by simp [Spec.precision, written]
    rw [value] at length ⊢
    simp only [Option.mem_def, reduceCtorEq, false_implies, implies_true, iff_true]
    omega
  | some prec =>
    have value : spec.precision = prec := by simp [Spec.precision, written]
    rw [value] at length ⊢
    simp only [Option.mem_def, Option.some.injEq, forall_eq']
    omega

theorem strBody_fits (spec : Spec) (arg : Arg) :
    (strBody spec.precision arg).tmp.length ≤ 80 ↔
      (match spec.prec with
      | none => (arg.str.getD nullText).length
      | some prec => min prec (arg.str.getD nullText).length) ≤ 80 := by
  simp only [strBody, precision_neg]
  cases written : spec.prec with
  | none => simp
  | some prec => simp [Spec.precision, written, List.length_take]

-- The only bodies without a bound of their own are strings, and numbers with a precision.
theorem convert_fits (spec : Spec) (c : Byte) (arg : Arg) :
    (convert spec.precision c arg).tmp.length ≤ 80 ↔ (Piece.conv spec c arg).Fits := by
  have decimal (v : Word) := u32ToStr_length (Nat.le_refl 10) v false
  have hex (v : Word) (upper : Bool) := u32ToStr_length (show 10 ≤ 16 by decide) v upper
  simp only [Piece.Fits, convert]
  by_cases isStr : c = 0x73#8
  · subst isStr
    simpa using strBody_fits spec arg
  by_cases isSigned : c = 0x64#8 ∨ c = 0x69#8
  · have known : c ∈ [0x64#8, 0x69#8, 0x75#8, 0x78#8, 0x58#8] := by
      rcases isSigned with rfl | rfl <;> decide
    have notChar : c ≠ 0x63#8 := by rcases isSigned with rfl | rfl <;> decide
    rw [if_neg notChar, if_neg isStr, if_pos isSigned]
    exact ⟨fun fits => ⟨fun same => absurd same isStr, fun _ => (zeroFill_fits (decimal _) spec).mp fits⟩,
      fun fits => (zeroFill_fits (decimal _) spec).mpr (fits.2 known)⟩
  by_cases isUnsigned : c = 0x75#8
  · subst isUnsigned
    simpa [unsignedBody] using zeroFill_fits (decimal arg.word) spec
  by_cases isHex : c = 0x78#8
  · subst isHex
    simpa [unsignedBody] using zeroFill_fits (hex arg.word false) spec
  by_cases isUpper : c = 0x58#8
  · subst isUpper
    simpa [unsignedBody] using zeroFill_fits (hex arg.word true) spec
  have bounded : c ∉ [0x64#8, 0x69#8, 0x75#8, 0x78#8, 0x58#8] := by
    simpa [isUnsigned, isHex, isUpper] using isSigned
  have short : (convert spec.precision c arg).tmp.length ≤ 80 := by
    rw [convert, if_neg isStr, if_neg isSigned, if_neg isUnsigned, if_neg isHex, if_neg isUpper]
    repeat' split
    · simp [charBody]
    · have := hex arg.word false
      simp [pointerBody]
      omega
    · simp
    · simp
  exact ⟨fun _ => ⟨fun same => absurd same isStr, fun known => absurd known bounded⟩,
    fun _ => short⟩

variable {size : Word} {s : Sink} {text : List Byte}

theorem put_text (size : Word) {piece : Piece} (small : piece.Small) (s : Sink) :
    ∃ t : Sink, piece.put size s = piece.text.foldl (putcInto size) t ∧ t.buf = s.buf ∧
      t.idx = s.idx ∧
      (t.inside = true ↔ s.inside = true ∧ piece.Fits) := by
  cases piece with
  | lit c => exact ⟨s, rfl, rfl, rfl, by simp [Piece.Fits]⟩
  | conv spec c arg =>
    obtain ⟨width, prec⟩ := small
    refine ⟨scratch s (convert spec.cPrec c arg), ?_, rfl, rfl, ?_⟩
    · rw [Piece.put, emit_eq width prec, cPrec_small prec]
      rfl
    · rw [cPrec_small prec, ← convert_fits]
      simp [scratch, convert_num]

theorem holds_pieces (some : size ≠ 0) {list : List Piece} (small : ∀ piece ∈ list, piece.Small)
    (holds : s.Holds size text) (room : (text ++ list.flatMap Piece.text).length < 2 ^ 32) :
    (list.foldl (Piece.put size) s).Holds size (text ++ list.flatMap Piece.text) ∧
      ((list.foldl (Piece.put size) s).inside = true ↔
        s.inside = true ∧ ∀ piece ∈ list, piece.Fits) := by
  induction list generalizing s text with
  | nil => simpa using holds
  | cons piece list ih =>
    obtain ⟨t, put, buf, idx, inside⟩ := put_text size (small piece List.mem_cons_self) s
    have holds' : t.Holds size text :=
      ⟨by rw [idx]; exact holds.idx_eq, by rw [buf]; exact holds.cell⟩
    rw [List.flatMap_cons, ← List.append_assoc] at room
    obtain ⟨one, kept⟩ := holds_puts some holds' piece.text (by
      rw [List.length_append] at room
      omega)
    obtain ⟨all, inside'⟩ := ih (fun piece h => small piece (List.mem_cons_of_mem _ h)) one room
    rw [List.foldl_cons, put, List.flatMap_cons, ← List.append_assoc]
    refine ⟨all, ?_⟩
    rw [inside', kept, inside, List.forall_mem_cons, and_assoc]

theorem inside_pieces {list : List Piece} (small : ∀ piece ∈ list, piece.Small)
    (inside : (list.foldl (Piece.put size) s).inside = true) :
    s.inside = true ∧ ∀ piece ∈ list, piece.Fits := by
  induction list generalizing s with
  | nil => simpa using inside
  | cons piece list ih =>
    obtain ⟨inside', rest⟩ := ih (fun piece h => small piece (List.mem_cons_of_mem _ h)) inside
    obtain ⟨t, put, -, -, fits⟩ := put_text size (small piece List.mem_cons_self) s
    rw [put] at inside'
    obtain ⟨before, first⟩ := fits.mp (inside_puts inside')
    exact ⟨before, List.forall_mem_cons.mpr ⟨first, rest⟩⟩

def SmallFormat (fmt : List Byte) (args : VaList) : Prop := ∀ piece ∈ pieces fmt args, piece.Small

theorem finish {r : Sink} (some : size ≠ 0) (holds : r.Holds size text) (inside : r.inside = true)
    (short : text.length < 2 ^ 31) :
    Bounded size text
      ⟨fun i => if i = (if r.idx < size then r.idx.toNat else size.toNat - 1) then 0 else r.buf i,
        r.idx.toInt, r.inside⟩ := by
  have positive : 0 < size.toNat := by
    have nonzero : size.toNat ≠ 0 := fun zero => some (BitVec.eq_of_toNat_eq zero)
    omega
  have last : (if r.idx < size then r.idx.toNat else size.toNat - 1) =
      min text.length (size.toNat - 1) := by
    simp only [BitVec.lt_def, holds.idx_eq]
    split <;> omega
  refine ⟨inside, ?_, fun i before below => ?_, ?_⟩
  · change r.idx.toInt = _
    rw [BitVec.toInt_eq_toNat_of_lt (by rw [holds.idx_eq]; omega), holds.idx_eq]
  · change (if i = _ then 0 else r.buf i) = _
    rw [last, if_neg (by omega)]
    exact holds.cell i before below
  · exact if_pos last.symm

theorem fits_of_inside {fmt : List Byte} {args : VaList} {buf : Nat → Byte} (some : size ≠ 0)
    (small : SmallFormat fmt args) (inside : (kvsnprintf size fmt args buf).inside = true) :
    ∀ piece ∈ pieces fmt args, piece.Fits := by
  rw [kvsnprintf, if_neg some] at inside
  simp only [formatLoop_eq (Nat.le_refl _)] at inside
  exact (inside_pieces small inside).2

theorem bounded_of_fits {fmt : List Byte} {args : VaList} {buf : Nat → Byte} (some : size ≠ 0)
    (small : SmallFormat fmt args) (fits : ∀ piece ∈ pieces fmt args, piece.Fits)
    (short : (expansion fmt args).length < 2 ^ 31) :
    Bounded size (expansion fmt args) (kvsnprintf size fmt args buf) := by
  have start : Sink.Holds size ⟨buf, 0, true⟩ [] := ⟨rfl, fun i before => absurd before (by simp)⟩
  obtain ⟨holds, inside⟩ := holds_pieces some small start (by
    change (expansion fmt args).length < 2 ^ 32
    omega)
  rw [kvsnprintf, if_neg some]
  simp only [formatLoop_eq (Nat.le_refl _)]
  exact finish some holds (inside.mpr ⟨rfl, fits⟩) short

/-- `kvsnprintf` keeps its promise exactly when every conversion's text fits `tmp` and the whole
expansion is shorter than 2^31. -/
theorem kvsnprintf_bounded_iff (size : Word) (fmt : List Byte) (args : VaList) (buf : Nat → Byte)
    (some : size ≠ 0) (small : SmallFormat fmt args) :
    Bounded size (expansion fmt args) (kvsnprintf size fmt args buf) ↔
      (∀ piece ∈ pieces fmt args, piece.Fits) ∧ (expansion fmt args).length < 2 ^ 31 := by
  constructor
  · intro bounded
    refine ⟨fits_of_inside some small bounded.inside, ?_⟩
    have signed : (kvsnprintf size fmt args buf).ret < 2 ^ 31 := by
      rw [kvsnprintf, if_neg some]
      exact BitVec.toInt_lt
    rw [bounded.ret] at signed
    exact_mod_cast signed
  · rintro ⟨fits, short⟩
    exact bounded_of_fits some small fits short

def strFormat : List Byte := [0x25#8, 0x73#8]

theorem pieces_strFormat (args : VaList) :
    pieces strFormat args = [.conv ⟨false, false, 0, none⟩ 0x73#8 (args 0)] := by
  rw [strFormat, pieces_conv rfl, pieces_nil]
  rfl

theorem small_strFormat (args : VaList) : SmallFormat strFormat args := by
  intro piece member
  rw [pieces_strFormat, List.mem_singleton] at member
  subst member
  exact ⟨by decide, by simp⟩

def strArgs (s : List Byte) : VaList := fun _ => ⟨0, some s⟩

theorem kvsnprintf_bounded_abc :
    Bounded 3 (expansion strFormat (strArgs [0x61#8, 0x62#8, 0x63#8]))
      (kvsnprintf 3 strFormat (strArgs [0x61#8, 0x62#8, 0x63#8]) fun _ => 0) := by
  refine (kvsnprintf_bounded_iff _ _ _ _ (by decide) (small_strFormat _)).mpr ⟨?_, ?_⟩
  · rw [pieces_strFormat]
    simp [Piece.Fits, strArgs]
  · rw [expansion, pieces_strFormat]
    decide

/-- A string of 81 characters does not fit `tmp`. -/
theorem kvsnprintf_overruns :
    ¬ ∀ (size : Word) (fmt : List Byte) (args : VaList) (buf : Nat → Byte), size ≠ 0 →
      SmallFormat fmt args → Bounded size (expansion fmt args) (kvsnprintf size fmt args buf) := by
  intro all
  have bounded := all 0x1000 strFormat (strArgs (List.replicate 81 0x61#8)) (fun _ => 0) (by decide)
    (small_strFormat _)
  have fits := fits_of_inside (by decide) (small_strFormat _) bounded.inside
  rw [pieces_strFormat] at fits
  have short := (fits _ (List.mem_singleton_self _)).1 rfl
  simp [strArgs] at short

end Printf

end NovaKernel
