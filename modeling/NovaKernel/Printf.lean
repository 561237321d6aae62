import NovaKernel.Common

set_option autoImplicit false

namespace NovaKernel

namespace Printf

/-- A variable argument: the word that is passed, and the string it points to if it is a pointer
other than `NULL`. Strings are given without their terminator. -/
structure Arg where
  word : Word
  str : Option (List Byte)

abbrev VaList := Nat → Arg

/-- The buffer, the index shared by the emitters, and whether every store so far was inside its array. -/
structure Sink where
  buf : Nat → Byte
  idx : Word
  inside : Bool

def putcInto (size : Word) (s : Sink) (c : Byte) : Sink :=
  if size = 0 then s
  else if s.idx + 1 < size then
    { buf := fun i => if i = s.idx.toNat then c else s.buf i
      idx := s.idx + 1
      inside := s.inside && decide (s.idx < size) }
  else { s with idx := s.idx + 1 }

def putpad (size : Word) (s : Sink) (c : Byte) (count : Int) : Sink :=
  (List.replicate count.toNat c).foldl (putcInto size) s

def digit (upper : Bool) (d : Nat) : Byte :=
  BitVec.ofNat 8 (if d < 10 then 0x30 + d else if upper then 0x37 + d else 0x57 + d)

/-- `while (v) { tmp[i++] = v % base; v /= base; }`, for at most 32 digits. -/
def digitLoop (base : Nat) : Nat → Nat → List Nat
  | 0, _ => []
  | fuel + 1, v => if v = 0 then [] else v % base :: digitLoop base fuel (v / base)

def u32ToStr (v : Word) (base : Nat) (upper : Bool) : List Byte :=
  let tmp := if v = 0 then [0] else digitLoop base 32 v.toNat
  tmp.reverse.map (digit upper)

def readFlags : List Byte → Bool → Bool → Bool × Bool × List Byte
  | [], left, zero => (left, zero, [])
  | c :: fmt, left, zero =>
    if c = 0x2D#8 then readFlags fmt true zero
    else if c = 0x30#8 then readFlags fmt left true
    else (left, zero, c :: fmt)

def isDigit (c : Byte) : Bool := decide (0x30#8 ≤ c) && decide (c ≤ 0x39#8)

def readNumber : List Byte → Nat → Nat × List Byte
  | [], n => (n, [])
  | c :: fmt, n =>
    if isDigit c then readNumber fmt (n * 10 + (c.toNat - 0x30)) else (n, c :: fmt)

def readPrec : List Byte → Option Nat × List Byte
  | [] => (none, [])
  | c :: fmt =>
    if c = 0x2E#8 then
      let (prec, fmt) := readNumber fmt 0
      (some prec, fmt)
    else (none, c :: fmt)

/-- What stands between `%` and the conversion character; the numbers as they are written. -/
structure Spec where
  left : Bool
  zero : Bool
  width : Nat
  prec : Option Nat

def readSpec (fmt : List Byte) : Spec × List Byte :=
  let (left, zero, fmt) := readFlags fmt false false
  let (width, fmt) := readNumber fmt 0
  let (prec, fmt) := readPrec fmt
  (⟨left, zero, width, prec⟩, fmt)

def i32 (n : Nat) : Int := (BitVec.ofNat 32 n).toInt

namespace Spec

def cWidth (spec : Spec) : Int := i32 spec.width

def cPrec (spec : Spec) : Int :=
  match spec.prec with
  | none => -1
  | some prec => i32 prec

def cPad (spec : Spec) : Byte := if spec.zero && !spec.left then 0x30#8 else 0x20#8

end Spec

/-- What a conversion leaves in `tmp`, `negative`, and how many bytes it stored in `num`. -/
structure Body where
  tmp : List Byte
  negative : Bool
  num : Nat

def nullText : List Byte := [0x28#8, 0x6E#8, 0x75#8, 0x6C#8, 0x6C#8, 0x29#8]

def zeroFill (prec : Int) (num : List Byte) : List Byte :=
  if (num.length : Int) < prec then List.replicate (prec - num.length).toNat 0x30#8 ++ num else num

def charBody (arg : Arg) : Body := ⟨[arg.word.setWidth 8], false, 0⟩

def strBody (prec : Int) (arg : Arg) : Body :=
  let s := arg.str.getD nullText
  ⟨if prec < 0 then s else s.take prec.toNat, false, 0⟩

def signedBody (prec : Int) (arg : Arg) : Body :=
  let negative := arg.word.msb
  let v := if negative then -arg.word else arg.word
  let num := u32ToStr v 10 false
  ⟨zeroFill prec num, negative, num.length + 1⟩

def unsignedBody (prec : Int) (base : Nat) (upper : Bool) (arg : Arg) : Body :=
  let num := u32ToStr arg.word base upper
  ⟨zeroFill prec num, false, num.length + 1⟩

def pointerBody (arg : Arg) : Body :=
  let num := u32ToStr arg.word 16 false
  ⟨0x30#8 :: 0x78#8 :: num, false, num.length + 1⟩

def convert (prec : Int) (c : Byte) (arg : Arg) : Body :=
  if c = 0x63#8 then charBody arg
  else if c = 0x73#8 then strBody prec arg
  else if c = 0x64#8 ∨ c = 0x69#8 then signedBody prec arg
  else if c = 0x75#8 then unsignedBody prec 10 false arg
  else if c = 0x78#8 then unsignedBody prec 16 false arg
  else if c = 0x58#8 then unsignedBody prec 16 true arg
  else if c = 0x70#8 then pointerBody arg
  else if c = 0x25#8 then ⟨[0x25#8], false, 0⟩
  else ⟨[0x25#8, c], false, 0⟩

def takesArg (c : Byte) : Bool :=
  c ∈ [0x63#8, 0x73#8, 0x64#8, 0x69#8, 0x75#8, 0x78#8, 0x58#8, 0x70#8]

def scratch (s : Sink) (b : Body) : Sink :=
  { s with inside := s.inside && decide (b.tmp.length ≤ 80) && decide (b.num ≤ 32) }

def emit (size : Word) (spec : Spec) (s : Sink) (b : Body) : Sink :=
  let body : Int := b.tmp.length + if b.negative then 1 else 0
  let padding := if body < spec.cWidth then spec.cWidth - body else 0
  let s := if !spec.left ∧ spec.cPad = 0x20#8 then putpad size s 0x20#8 padding else s
  let s := if b.negative then putcInto size s 0x2D#8 else s
  let s := if !spec.left ∧ spec.cPad = 0x30#8 ∧ spec.cPrec < 0 then putpad size s 0x30#8 padding else s
  let s := b.tmp.foldl (putcInto size) s
  if spec.left then putpad size s 0x20#8 padding else s

def formatLoop (size : Word) : Nat → List Byte → VaList → Sink → Sink
  | 0, _, _, s => s
  | _ + 1, [], _, s => s
  | fuel + 1, c :: fmt, args, s =>
    if c ≠ 0x25#8 then formatLoop size fuel fmt args (putcInto size s c)
    else
      let (spec, fmt) := readSpec fmt
      match fmt with
      | [] => putcInto size s 0x25#8
      | conv :: fmt =>
        let b := convert spec.cPrec conv (args 0)
        let args := if takesArg conv then fun i => args (i + 1) else args
        formatLoop size fuel fmt args (emit size spec (scratch s b) b)

structure Result where
  buf : Nat → Byte
  ret : Int
  inside : Bool

def kvsnprintf (size : Word) (fmt : List Byte) (args : VaList) (buf : Nat → Byte) : Result :=
  if size = 0 then ⟨buf, 0, true⟩
  else
    let s := formatLoop size fmt.length fmt args ⟨buf, 0, true⟩
    let last := if s.idx < size then s.idx.toNat else size.toNat - 1
    ⟨fun i => if i = last then 0 else s.buf i, s.idx.toInt, s.inside⟩

def ksprintf (fmt : List Byte) (args : VaList) (buf : Nat → Byte) : Result :=
  kvsnprintf 0x1000 fmt args buf

end Printf

end NovaKernel
