import NovaKernel.Common
import NovaKernel.Lib.Words
import Mathlib.Logic.Function.Basic

set_option autoImplicit false

namespace NovaKernel

namespace Shell

def lineMax : Nat := 128
def argvMax : Nat := 16

def chars (text : List Char) : List Byte := text.map fun c => BitVec.ofNat 8 c.toNat

/-- The string at an address; the first argument bounds the scan. -/
def cString (line : Nat → Byte) : Nat → Nat → List Byte
  | 0, _ => []
  | n + 1, s => if line s = 0 then [] else line s :: cString line n (s + 1)

def skipWhile (p : Byte → Bool) (line : Nat → Byte) : Nat → Nat → Nat
  | 0, s => s
  | n + 1, s => if p (line s) then skipWhile p line n (s + 1) else s

def isBlank (c : Byte) : Bool := c = 0x20#8 ∨ c = 0x09#8

def inWord (c : Byte) : Bool := c ≠ 0 ∧ !isBlank c

/-- The loop of `split`, with the room left in the vector: the tokens' addresses, and the line with
a NUL behind each. -/
def splitFrom (line : Nat → Byte) (s : Nat) : Nat → List Nat × (Nat → Byte)
  | 0 => ([], line)
  | room + 1 =>
    let s := skipWhile isBlank line lineMax s
    if line s = 0 then ([], line)
    else
      let e := skipWhile inWord line lineMax s
      if line e = 0 then ([s], line)
      else
        let (argv, line) := splitFrom (Function.update line e 0) (e + 1) room
        (s :: argv, line)

-- One place of the vector is kept for the NULL at its end.
def split (line : Nat → Byte) (max : Nat) : List Nat × (Nat → Byte) := splitFrom line 0 (max - 1)

def tokens (line : Nat → Byte) : List (List Byte) :=
  let (argv, line) := split line argvMax
  argv.map (cString line lineMax)

def pushTail (tail : List Byte) (c : Byte) : List Byte :=
  if tail.length < lineMax - 2 then tail ++ [c] else tail

def rejoinFrom : List (List Byte) → List Byte → List Byte
  | [], tail => tail
  | arg :: args, tail =>
    if tail.length < lineMax - 2 then rejoinFrom args (arg.foldl pushTail (pushTail tail 0x20#8)) else tail

def rejoin : List (List Byte) → List Byte
  | [] => []
  | arg :: args => rejoinFrom args (arg.foldl pushTail [])

inductive Action
  | nothing
  | simple (name : List Byte)
  | cat (name : List Byte)
  | hexdump (name : List Byte)
  | stat (name : List Byte)
  | rm (name : List Byte)
  | run (name : List Byte)
  | write (tail : List Byte) (append : Bool)
  | echo (tail : List Byte)
  | err (message : String)
  | unknown (name : List Byte)
  deriving DecidableEq

def simpleNames : List (List Byte) :=
  [chars ['h', 'e', 'l', 'p'], chars ['c', 'l', 'e', 'a', 'r'], chars ['m', 'e', 'm', 'i', 'n', 'f', 'o'],
    chars ['t', 'a', 's', 'k', 's'], chars ['p', 's'], chars ['u', 'p', 't', 'i', 'm', 'e'], chars ['g', 'u', 'i'],
    chars ['a', 'b', 'o', 'u', 't'], chars ['l', 's'], chars ['r', 'e', 'b', 'o', 'o', 't'], chars ['d', 'f']]

def catName : List Byte := chars ['c', 'a', 't']
def hexdumpName : List Byte := chars ['h', 'e', 'x', 'd', 'u', 'm', 'p']
def statName : List Byte := chars ['s', 't', 'a', 't']
def rmName : List Byte := chars ['r', 'm']
def runName : List Byte := chars ['r', 'u', 'n']
def writeName : List Byte := chars ['w', 'r', 'i', 't', 'e']
def appendName : List Byte := chars ['a', 'p', 'p', 'e', 'n', 'd']
def echoName : List Byte := chars ['e', 'c', 'h', 'o']

def withOperand (args : List (List Byte)) (missing : String) (run : List Byte → Action) : Action :=
  match args with
  | [] => .err missing
  | name :: _ => run name

def dispatch (c : List Byte) (args : List (List Byte)) : Action :=
  if c ∈ simpleNames then .simple c
  else if c = catName then withOperand args "cat: missing file operand (try `ls`)\n" .cat
  else if c = hexdumpName then withOperand args "hexdump: missing file operand\n" .hexdump
  else if c = statName then withOperand args "stat: missing file operand\n" .stat
  else if c = writeName ∨ c = appendName then
    if args.length < 2 then
      .err (if c = writeName then "write: usage: write <file> <text>\n"
        else "append: usage: append <file> <text>\n")
    else .write (rejoin args) (c = appendName)
  else if c = rmName then withOperand args "rm: missing file operand\n" .rm
  else if c = runName then withOperand args "run: missing program name\n" .run
  else if c = echoName then .echo (rejoin args)
  else .unknown c

def execute (line : Nat → Byte) : Action :=
  match tokens line with
  | [] => .nothing
  | c :: args => dispatch c args

/-- How `cmd_write` takes its argument apart: the name up to the first space, and the text. -/
def writeArgs (args : List Byte) : Option (List Byte × List Byte) :=
  let rest := args.dropWhile (· = 0x20#8)
  match rest.dropWhile (· ≠ 0x20#8) with
  | [] => none
  | _ :: text => some (rest.takeWhile (· ≠ 0x20#8), text.dropWhile (· = 0x20#8))

end Shell

end NovaKernel
