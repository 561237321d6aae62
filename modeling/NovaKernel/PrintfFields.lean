import NovaKernel.PrintfBounds

set_option autoImplicit false

namespace NovaKernel

namespace Printf

inductive Flag
  | minus
  | zero
  deriving DecidableEq

def Flag.char : Flag → Byte
  | minus => 0x2D#8
  | zero => 0x30#8

inductive IntConv
  | d
  | i
  | u
  | x
  | upperX

namespace IntConv

def char : IntConv → Byte
  | d => 0x64#8
  | i => 0x69#8
  | u => 0x75#8
  | x => 0x78#8
  | upperX => 0x58#8

def signed : IntConv → Bool
  | d | i => true
  | u | x | upperX => false

def base : IntConv → Nat
  | d | i | u => 10
  | x | upperX => 16

def upper : IntConv → Bool
  | upperX => true
  | d | i | u | x => false

def magnitude (conv : IntConv) (v : Word) : Nat := if conv.signed then v.toInt.natAbs else v.toNat

def negative (conv : IntConv) (v : Word) : Bool := conv.signed && decide (v.toInt < 0)

end IntConv

def decimal (digits : List (Fin 10)) : Nat := digits.foldl (fun n d => n * 10 + d.val) 0

def digitChar (d : Fin 10) : Byte := BitVec.ofNat 8 (0x30 + d.val)

structure IntFormat where
  flags : List Flag
  width : List (Fin 10)
  prec : Option (List (Fin 10))
  conv : IntConv
  -- a leading 0 is a flag
  leading : width.head? ≠ some 0

namespace IntFormat

def left (f : IntFormat) : Bool := Flag.minus ∈ f.flags

def zero (f : IntFormat) : Bool := Flag.zero ∈ f.flags

def precText (f : IntFormat) : List Byte :=
  match f.prec with
  | none => []
  | some prec => 0x2E#8 :: prec.map digitChar

def chars (f : IntFormat) : List Byte :=
  0x25#8 :: (f.flags.map Flag.char ++ (f.width.map digitChar ++ (f.precText ++ [f.conv.char])))

def widthValue (f : IntFormat) : Nat := decimal f.width

def precValue (f : IntFormat) : Option Nat := f.prec.map decimal

def spec (f : IntFormat) : Spec := ⟨f.left, f.zero, f.widthValue, f.precValue⟩

def sign (f : IntFormat) (v : Word) : List Byte := if f.conv.negative v then [0x2D#8] else []

/-- At least as many digits as the precision asks for, and no leading zero beyond those; their value
is the argument's. -/
structure Digits (f : IntFormat) (v : Word) (digits : List Nat) : Prop where
  below : ∀ d ∈ digits, d < f.conv.base
  value : Nat.ofDigits f.conv.base digits.reverse = f.conv.magnitude v
  enough : max 1 (f.precValue.getD 1) ≤ digits.length
  minimal : max 1 (f.precValue.getD 1) < digits.length → digits.head? ≠ some 0

def padded (f : IntFormat) (sign text : List Byte) : List Byte :=
  let padding := f.widthValue - (sign.length + text.length)
  if f.left then sign ++ text ++ List.replicate padding 0x20#8
  else if f.zero ∧ f.precValue = none then sign ++ List.replicate padding 0x30#8 ++ text
  else List.replicate padding 0x20#8 ++ sign ++ text

/-- The text is the field that C's `printf` writes. -/
def Writes (f : IntFormat) (v : Word) (text : List Byte) : Prop :=
  ∃ digits, f.Digits v digits ∧ text = f.padded (f.sign v) (digits.map (digit f.conv.upper))

/-- A zero flag without a minus flag and with a precision, in a field wider than its text. -/
def Unpadded (f : IntFormat) (v : Word) : Prop :=
  f.zero ∧ ¬ f.left ∧ ∃ prec, f.precValue = some prec ∧
    (f.sign v).length + max prec (numeral f.conv.base (f.conv.magnitude v)).length < f.widthValue

end IntFormat

def Result.text (r : Result) : List Byte := (List.range r.ret.toNat).map r.buf

theorem digitChar_toNat (d : Fin 10) : (digitChar d).toNat = 0x30 + d.val := by
  rw [digitChar, BitVec.toNat_ofNat]
  omega

theorem isDigit_digitChar (d : Fin 10) : isDigit (digitChar d) = true := by
  have low : 0x30#8 ≤ digitChar d := by
    rw [BitVec.le_def, digitChar_toNat]
    simp
  have high : digitChar d ≤ 0x39#8 := by
    rw [BitVec.le_def, digitChar_toNat]
    simp
    omega
  simp [isDigit, low, high]

def NoDigit (rest : List Byte) : Prop := ∀ c ∈ rest.head?, isDigit c = false

theorem readNumber_stop {rest : List Byte} (stop : NoDigit rest) (n : Nat) :
    readNumber rest n = (n, rest) := by
  cases rest with
  | nil => rfl
  | cons c rest => rw [readNumber, stop c (by simp), if_neg (by simp)]

theorem readNumber_digits (digits : List (Fin 10)) {rest : List Byte} (stop : NoDigit rest)
    (n : Nat) :
    readNumber (digits.map digitChar ++ rest) n =
      (digits.foldl (fun n d => n * 10 + d.val) n, rest) := by
  induction digits generalizing n with
  | nil => exact readNumber_stop stop n
  | cons d digits ih =>
    rw [List.map_cons, List.cons_append, readNumber, if_pos (isDigit_digitChar d), digitChar_toNat,
      Nat.add_sub_cancel_left, ih]
    rfl

def NoFlag (rest : List Byte) : Prop := ∀ c ∈ rest.head?, c ≠ 0x2D#8 ∧ c ≠ 0x30#8

theorem digitChar_noFlag {d : Fin 10} (nonzero : d ≠ 0) :
    digitChar d ≠ 0x2D#8 ∧ digitChar d ≠ 0x30#8 := by
  revert d
  decide

theorem readFlags_stop {rest : List Byte} (stop : NoFlag rest) (left zero : Bool) :
    readFlags rest left zero = (left, zero, rest) := by
  cases rest with
  | nil => rfl
  | cons c rest =>
    obtain ⟨notMinus, notZero⟩ := stop c (by simp)
    rw [readFlags, if_neg notMinus, if_neg notZero]

theorem readFlags_flags (flags : List Flag) {rest : List Byte} (stop : NoFlag rest)
    (left zero : Bool) :
    readFlags (flags.map Flag.char ++ rest) left zero =
      (left || decide (Flag.minus ∈ flags), zero || decide (Flag.zero ∈ flags), rest) := by
  induction flags generalizing left zero with
  | nil => simpa using readFlags_stop stop left zero
  | cons flag flags ih =>
    cases flag with
    | minus =>
      rw [List.map_cons, List.cons_append, Flag.char, readFlags, if_pos rfl, ih]
      simp
    | zero =>
      rw [List.map_cons, List.cons_append, Flag.char, readFlags, if_neg (by decide), if_pos rfl, ih]
      simp

namespace IntFormat

variable (f : IntFormat)

theorem conv_noDigit : NoDigit [f.conv.char] := by
  intro c h
  obtain rfl : f.conv.char = c := by simpa using h
  cases f.conv <;> decide

theorem prec_noDigit : NoDigit (f.precText ++ [f.conv.char]) := by
  cases written : f.prec with
  | none =>
    rw [precText, written]
    exact f.conv_noDigit
  | some prec =>
    rw [precText, written]
    intro c h
    obtain rfl : 0x2E#8 = c := by simpa using h
    decide

theorem width_noFlag : NoFlag (f.width.map digitChar ++ (f.precText ++ [f.conv.char])) := by
  cases written : f.width with
  | nil =>
    cases written' : f.prec with
    | none =>
      simp only [precText, written', List.map_nil, List.nil_append]
      intro c h
      obtain rfl : f.conv.char = c := by simpa using h
      cases f.conv <;> decide
    | some prec =>
      simp only [precText, written', List.map_nil, List.nil_append]
      intro c h
      obtain rfl : 0x2E#8 = c := by simpa using h
      decide
  | cons d width =>
    intro c h
    obtain rfl : digitChar d = c := by simpa using h
    exact digitChar_noFlag fun zero => f.leading (by rw [written, zero]; rfl)

theorem readPrec_text : readPrec (f.precText ++ [f.conv.char]) = (f.precValue, [f.conv.char]) := by
  cases written : f.prec with
  | none =>
    have plain : f.conv.char ≠ 0x2E#8 := by cases f.conv <;> decide
    rw [precText, written, List.nil_append, readPrec, if_neg plain, precValue, written]
    rfl
  | some prec =>
    rw [precText, written, List.cons_append, readPrec, if_pos rfl,
      readNumber_digits prec f.conv_noDigit, precValue, written]
    rfl

theorem readSpec_chars : readSpec f.chars.tail = (f.spec, [f.conv.char]) := by
  simp only [chars, List.tail_cons, readSpec, readFlags_flags f.flags f.width_noFlag,
    readNumber_digits f.width f.prec_noDigit, readPrec_text]
  rfl

theorem pieces_chars (args : VaList) :
    pieces f.chars args = [.conv f.spec f.conv.char (args 0)] := by
  have read := f.readSpec_chars
  have left : (readSpec f.chars.tail).2 = f.conv.char :: [] := by rw [read]
  have pieces' := pieces_conv left args
  rw [read, pieces_nil] at pieces'
  exact pieces'

end IntFormat

theorem neg_toNat_of_msb {v : Word} (negative : v.msb = true) : (-v).toNat = v.toInt.natAbs := by
  have high : 2 ^ 31 ≤ v.toNat := by
    have := BitVec.msb_eq_decide v
    rw [negative] at this
    simpa using this.symm
  have bound := v.isLt
  rw [BitVec.toNat_neg, BitVec.toInt_eq_msb_cond, if_pos negative]
  omega

theorem toNat_of_not_msb {v : Word} (positive : v.msb = false) : v.toNat = v.toInt.natAbs := by
  rw [BitVec.toInt_eq_msb_cond, if_neg (by simp [positive])]
  omega

theorem numeral_below {base : Nat} (large : 1 < base) (v : Nat) :
    ∀ d ∈ numeral base v, d < base := by
  intro d member
  rw [numeral] at member
  by_cases zero : v = 0
  · rw [if_pos zero, List.mem_singleton] at member
    omega
  · rw [if_neg zero, List.mem_reverse] at member
    exact Nat.digits_lt_base large member

theorem numeral_value (base v : Nat) : Nat.ofDigits base (numeral base v).reverse = v := by
  rw [numeral]
  by_cases zero : v = 0
  · simp [zero]
  · rw [if_neg zero, List.reverse_reverse, Nat.ofDigits_digits]

theorem numeral_head {base v : Nat} (long : 1 < (numeral base v).length) :
    (numeral base v).head? ≠ some 0 := by
  rw [numeral] at long ⊢
  by_cases zero : v = 0
  · rw [if_pos zero] at long
    simp at long
  · have nonempty := Nat.digits_ne_nil_iff_ne_zero (b := base) |>.mpr zero
    rw [if_neg zero, List.head?_reverse, List.getLast?_eq_some_getLast nonempty]
    intro last
    exact Nat.getLast_digit_ne_zero base zero (Option.some.inj last)

namespace IntFormat

variable (f : IntFormat) (v : Word)

theorem base_large : 10 ≤ f.conv.base := by
  cases f.conv <;> decide

def codeDigits : List Nat :=
  List.replicate (f.precValue.getD 0 - (numeral f.conv.base (f.conv.magnitude v)).length) 0 ++
    numeral f.conv.base (f.conv.magnitude v)

theorem codeDigits_length :
    (f.codeDigits v).length =
      max (f.precValue.getD 0) (numeral f.conv.base (f.conv.magnitude v)).length := by
  rw [codeDigits, List.length_append, List.length_replicate]
  omega

theorem codeDigits_digits : f.Digits v (f.codeDigits v) := by
  have large := f.base_large
  have one : 1 ≤ (numeral f.conv.base (f.conv.magnitude v)).length :=
    List.length_pos_iff.mpr (numeral_ne_nil _ _)
  have length := f.codeDigits_length v
  refine ⟨fun d member => ?_, ?_, ?_, fun long => ?_⟩
  · rcases List.mem_append.mp member with zeros | digits
    · rw [(List.mem_replicate.mp zeros).2]
      omega
    · exact numeral_below (by omega) _ d digits
  · rw [codeDigits, List.reverse_append, List.reverse_replicate, Nat.ofDigits_append_replicate_zero]
    exact numeral_value _ _
  · rw [length]
    cases f.precValue with
    | none => simpa using one
    | some prec =>
      simp only [Option.getD_some]
      omega
  · rw [length] at long
    have none' : f.precValue.getD 0 - (numeral f.conv.base (f.conv.magnitude v)).length = 0 ∧
        1 < (numeral f.conv.base (f.conv.magnitude v)).length := by
      cases written : f.precValue with
      | none =>
        simp only [written, Option.getD_none] at long ⊢
        omega
      | some prec =>
        simp only [written, Option.getD_some] at long ⊢
        omega
    rw [codeDigits, none'.1]
    exact numeral_head none'.2

theorem zeroFill_digits (num : List Nat) (upper : Bool) :
    zeroFill f.spec.precision (num.map (digit upper)) =
      (List.replicate (f.precValue.getD 0 - num.length) 0 ++ num).map (digit upper) := by
  have zero : digit upper 0 = 0x30#8 := by cases upper <;> rfl
  rw [zeroFill, List.length_map, List.map_append, List.map_replicate, zero]
  cases written : f.precValue with
  | none =>
    have prec : f.spec.precision = -1 := by rw [Spec.precision, spec, written]
    rw [prec]
    simp only [Option.getD_none, Nat.zero_sub, List.replicate_zero, List.nil_append]
    exact if_neg (by omega)
  | some prec =>
    have precision : f.spec.precision = prec := by rw [Spec.precision, spec, written]
    rw [precision]
    simp only [Option.getD_some]
    by_cases more : (num.length : Int) < prec
    · have count : ((prec : Int) - num.length).toNat = prec - num.length := by omega
      rw [if_pos more, count]
    · have none' : prec - num.length = 0 := by omega
      rw [if_neg more, none', List.replicate_zero, List.nil_append]

theorem signed_body (arg : Arg) (signed : f.conv.signed = true) (base : f.conv.base = 10)
    (upper : f.conv.upper = false) :
    (signedBody f.spec.precision arg).tmp = (f.codeDigits arg.word).map (digit f.conv.upper) ∧
      (signedBody f.spec.precision arg).negative = f.conv.negative arg.word := by
  have sign : arg.word.msb = decide (arg.word.toInt < 0) := BitVec.msb_eq_toInt
  have value : (if arg.word.msb then -arg.word else arg.word).toNat = f.conv.magnitude arg.word := by
    rw [IntConv.magnitude, if_pos signed]
    cases negative : arg.word.msb with
    | true => exact neg_toNat_of_msb negative
    | false => exact toNat_of_not_msb negative
  simp only [signedBody, u32ToStr_eq (show 1 < 10 by decide), value]
  refine ⟨?_, by rw [IntConv.negative, signed, Bool.true_and, sign]⟩
  rw [zeroFill_digits, codeDigits, base, upper]

theorem unsigned_body (arg : Arg) (unsigned : f.conv.signed = false) :
    (unsignedBody f.spec.precision f.conv.base f.conv.upper arg).tmp =
        (f.codeDigits arg.word).map (digit f.conv.upper) ∧
      (unsignedBody f.spec.precision f.conv.base f.conv.upper arg).negative =
        f.conv.negative arg.word := by
  have large := f.base_large
  have value : f.conv.magnitude arg.word = arg.word.toNat := by
    rw [IntConv.magnitude, unsigned]
    rfl
  simp only [unsignedBody, u32ToStr_eq (show 1 < f.conv.base by omega)]
  exact ⟨by rw [zeroFill_digits, codeDigits, value], by rw [IntConv.negative, unsigned]; rfl⟩

theorem convert_body (arg : Arg) :
    (convert f.spec.precision f.conv.char arg).tmp =
      (f.codeDigits arg.word).map (digit f.conv.upper) ∧
      (convert f.spec.precision f.conv.char arg).negative = f.conv.negative arg.word := by
  cases conv : f.conv with
  | d =>
    have body := f.signed_body arg (by rw [conv]; rfl) (by rw [conv]; rfl) (by rw [conv]; rfl)
    rwa [conv] at body
  | i =>
    have body := f.signed_body arg (by rw [conv]; rfl) (by rw [conv]; rfl) (by rw [conv]; rfl)
    rwa [conv] at body
  | u =>
    have body := f.unsigned_body arg (by rw [conv]; rfl)
    rwa [conv] at body
  | x =>
    have body := f.unsigned_body arg (by rw [conv]; rfl)
    rwa [conv] at body
  | upperX =>
    have body := f.unsigned_body arg (by rw [conv]; rfl)
    rwa [conv] at body

def codeText : List Byte := (f.codeDigits v).map (digit f.conv.upper)

theorem codeText_length :
    (f.codeText v).length =
      max (f.precValue.getD 0) (numeral f.conv.base (f.conv.magnitude v)).length := by
  rw [codeText, List.length_map, codeDigits_length]

theorem expansion_eq (args : VaList) :
    expansion f.chars args =
      if f.left then f.sign (args 0).word ++ f.codeText (args 0).word ++
        List.replicate (f.widthValue - ((f.sign (args 0).word).length + (f.codeText (args 0).word).length))
          0x20#8
      else if f.zero then
        if f.precValue.isNone then f.sign (args 0).word ++
          List.replicate
            (f.widthValue - ((f.sign (args 0).word).length + (f.codeText (args 0).word).length)) 0x30#8 ++
          f.codeText (args 0).word
        else f.sign (args 0).word ++ f.codeText (args 0).word
      else List.replicate
          (f.widthValue - ((f.sign (args 0).word).length + (f.codeText (args 0).word).length)) 0x20#8 ++
        f.sign (args 0).word ++ f.codeText (args 0).word := by
  obtain ⟨tmp, negative⟩ := f.convert_body (args 0)
  rw [expansion, pieces_chars, List.flatMap_singleton, Piece.text, fieldText, tmp, negative]
  simp only [sign, codeText, spec, Nat.add_comm]

theorem padded_length (sign text : List Byte) : f.widthValue ≤ (f.padded sign text).length := by
  rw [padded]
  split
  next =>
    simp only [List.length_append, List.length_replicate]
    omega
  next =>
    split
    next =>
      simp only [List.length_append, List.length_replicate]
      omega
    next =>
      simp only [List.length_append, List.length_replicate]
      omega

-- Of the four paddings the code leaves one out.
theorem expansion_padded (args : VaList) (padded : ¬ f.Unpadded (args 0).word) :
    expansion f.chars args = f.padded (f.sign (args 0).word) (f.codeText (args 0).word) := by
  rw [expansion_eq, IntFormat.padded]
  by_cases left : f.left = true
  · rw [if_pos left, if_pos left]
  rw [if_neg left, if_neg left]
  by_cases zero : f.zero = true
  · cases written : f.precValue with
    | none => rw [if_pos zero, if_pos (by rfl), if_pos ⟨zero, rfl⟩]
    | some prec =>
      have none' : f.widthValue - ((f.sign (args 0).word).length + (f.codeText (args 0).word).length) = 0 := by
        have narrow : ¬ (f.sign (args 0).word).length +
            max prec (numeral f.conv.base (f.conv.magnitude (args 0).word)).length < f.widthValue :=
          fun wide => padded ⟨zero, left, prec, written, wide⟩
        rw [codeText_length, written, Option.getD_some]
        omega
      rw [if_pos zero, none']
      simp
  · rw [if_neg zero, if_neg fun both => zero both.1]

theorem expansion_unpadded (args : VaList) (unpadded : f.Unpadded (args 0).word) :
    (expansion f.chars args).length < f.widthValue := by
  obtain ⟨zero, left, prec, written, wide⟩ := unpadded
  rw [expansion_eq, if_neg left, if_pos zero, if_neg (by simp [written]), List.length_append,
    codeText_length, written, Option.getD_some]
  exact wide

theorem writes_iff (args : VaList) :
    f.Writes (args 0).word (expansion f.chars args) ↔ ¬ f.Unpadded (args 0).word := by
  constructor
  · rintro ⟨digits, -, same⟩ unpadded
    have short := f.expansion_unpadded args unpadded
    have long := f.padded_length (f.sign (args 0).word) (digits.map (digit f.conv.upper))
    rw [← same] at long
    omega
  · intro padded
    exact ⟨_, f.codeDigits_digits _, f.expansion_padded args padded⟩

end IntFormat

theorem text_of_bounded {size : Word} {text : List Byte} {r : Result}
    (bounded : Bounded size text r) (room : text.length < size.toNat) : r.text = text := by
  apply List.ext_getElem
  · rw [Result.text, bounded.ret]
    simp
  · intro i hi hi'
    simp only [Result.text, List.getElem_map, List.getElem_range]
    exact bounded.prefix_eq i hi' (by omega)

section Narrow

variable {f : IntFormat} (width : f.widthValue ≤ 60) (prec : ∀ p ∈ f.precValue, p ≤ 60)

include width prec

theorem narrow_length (args : VaList) : (expansion f.chars args).length ≤ 61 := by
  have sign : (f.sign (args 0).word).length ≤ 1 := by
    rw [IntFormat.sign]
    split <;> simp
  have text : (f.codeText (args 0).word).length ≤ 60 := by
    have number : (numeral f.conv.base (f.conv.magnitude (args 0).word)).length ≤ 10 := by
      refine numeral_length f.base_large ?_
      have bound := (args 0).word.isLt
      have low := BitVec.le_toInt (args 0).word
      have high := BitVec.toInt_lt (x := (args 0).word)
      rw [IntConv.magnitude]
      split
      next => omega
      next => exact bound
    rw [IntFormat.codeText_length]
    cases written : f.precValue with
    | none => simp only [Option.getD_none]; omega
    | some p =>
      have := prec p (by simp [written])
      simp only [Option.getD_some]
      omega
  rw [IntFormat.expansion_eq]
  split
  next =>
    simp only [List.length_append, List.length_replicate]
    omega
  next =>
    split
    next =>
      split
      next =>
        simp only [List.length_append, List.length_replicate]
        omega
      next =>
        simp only [List.length_append]
        omega
    next =>
      simp only [List.length_append, List.length_replicate]
      omega

theorem narrow_text (args : VaList) (buf : Nat → Byte) {size : Word} (room : 64 ≤ size.toNat) :
    (kvsnprintf size f.chars args buf).text = expansion f.chars args := by
  have short := narrow_length width prec args
  have some : size ≠ 0 := by
    rintro rfl
    exact absurd room (by decide)
  refine text_of_bounded (bounded_of_fits some ?_ ?_ (by omega)) (by omega)
  · intro piece member
    rw [f.pieces_chars, List.mem_singleton] at member
    subst member
    exact ⟨Nat.lt_of_le_of_lt width (by decide),
      fun p h => Nat.lt_of_le_of_lt (prec p h) (by decide)⟩
  · intro piece member
    rw [f.pieces_chars, List.mem_singleton] at member
    subst member
    refine ⟨fun isStr => ?_, fun _ p h => Nat.le_trans (prec p h) (by decide)⟩
    exfalso
    revert isStr
    cases f.conv <;> decide

/-- An integer field is the one C's `printf` writes, except that a zero flag with a precision leaves
the padding out. -/
theorem integer_field_iff (args : VaList) (buf : Nat → Byte) (size : Word)
    (room : 64 ≤ size.toNat) :
    f.Writes (args 0).word (kvsnprintf size f.chars args buf).text ↔
      ¬ f.Unpadded (args 0).word := by
  rw [narrow_text width prec args buf room]
  exact f.writes_iff args

end Narrow

def minusSeven : VaList := fun _ => ⟨BitVec.ofInt 32 (-7), none⟩

theorem integer_field_left :
    IntFormat.Writes ⟨[.minus], [6], none, .d, by decide⟩ (BitVec.ofInt 32 (-7))
      (kvsnprintf 64 (IntFormat.chars ⟨[.minus], [6], none, .d, by decide⟩) minusSeven fun _ => 0).text :=
  (integer_field_iff (f := ⟨[.minus], [6], none, .d, by decide⟩) (by decide) (by decide) minusSeven
    (fun _ => 0) 64 (by decide)).mpr (by
      rintro ⟨zero, -⟩
      exact absurd zero (by decide))

/-- `"%05.3d"` of -7 is `-007`, one space short of its width. -/
theorem integer_field_unpadded :
    ¬ ∀ (f : IntFormat) (args : VaList) (buf : Nat → Byte) (size : Word), f.widthValue ≤ 60 →
      (∀ p ∈ f.precValue, p ≤ 60) → 64 ≤ size.toNat →
      f.Writes (args 0).word (kvsnprintf size f.chars args buf).text := by
  intro all
  let f : IntFormat := ⟨[.zero], [5], some [3], .d, by decide⟩
  have width : f.widthValue ≤ 60 := by decide
  have prec : ∀ p ∈ f.precValue, p ≤ 60 := by decide
  have writes := all f minusSeven (fun _ => 0) 64 width prec (by decide)
  rw [narrow_text width prec minusSeven _ (by decide)] at writes
  have seven : f.conv.magnitude (minusSeven 0).word = 7 := by decide
  refine (f.writes_iff minusSeven).mp writes ⟨by decide, by decide, 3, by decide, ?_⟩
  rw [seven]
  simp [numeral, f, IntConv.base]
  decide

end Printf

end NovaKernel
