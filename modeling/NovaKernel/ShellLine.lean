import NovaKernel.Keyboard
import NovaKernel.ShellBuffers

set_option autoImplicit false

namespace NovaKernel

def Keyboard.keyboardGetc (kb : Keyboard) : Nat × Keyboard :=
  if kb.queue.head = kb.queue.tail then (0, kb)
  else
    (kb.queue.cells kb.queue.tail,
      { kb with queue := { kb.queue with tail := Circular.next Keyboard.kbBufSize kb.queue.tail } })

namespace Shell

def histMax : Nat := 8

structure Editor where
  line : Nat → Byte
  lineLen : Nat
  hist : Nat → Nat → Byte
  histCount : Nat
  histPos : Int

namespace Editor

def fresh : Editor where
  line _ := 0
  lineLen := 0
  hist _ _ := 0
  histCount := 0
  histPos := -1

def strcmpEq (a b : Nat → Byte) : Bool := cString a lineMax 0 = cString b lineMax 0

def slen (s : Nat → Byte) : Nat := (cString s lineMax 0).length

-- `strncpy(dst, src, LINE_MAX - 1)` and the terminator.
def copyLine (dst src : Nat → Byte) : Nat → Byte :=
  Function.update (strncpy dst (cString src lineMax 0) (lineMax - 1)) (lineMax - 1) 0

def remember (ed : Editor) : Editor :=
  if ed.line 0 = 0 then ed
  else if 0 < ed.histCount ∧ strcmpEq (ed.hist ((ed.histCount - 1) % histMax)) ed.line then ed
  else
    let slot := ed.histCount % histMax
    { ed with
      hist := Function.update ed.hist slot (copyLine (ed.hist slot) ed.line)
      histCount := (ed.histCount + 1) % 2 ^ 32
      histPos := -1 }

def histGet (ed : Editor) (back : Nat) : Option (Nat → Byte) :=
  if histMax ≤ back ∨ ed.histCount ≤ back then none else some (ed.hist ((ed.histCount - 1 - back) % histMax))

def recallLine (ed : Editor) (h : Nat → Byte) : Editor := { ed with line := copyLine ed.line h }

def measure (ed : Editor) : Editor := { ed with lineLen := slen ed.line }

def older (ed : Editor) : Editor :=
  let want := if ed.histPos < 0 then 0 else (ed.histPos + 1).toNat
  match ed.histGet want with
  | none => ed
  | some h => ({ ed with histPos := want }.recallLine h).measure

def newer (ed : Editor) : Editor :=
  if 0 < ed.histPos then
    let ed := { ed with histPos := ed.histPos - 1 }
    match ed.histGet ed.histPos.toNat with
    | none => ed.measure
    | some h => (ed.recallLine h).measure
  else { ed with histPos := -1, line := Function.update ed.line 0 0 }.measure

def pushChar (ed : Editor) (c : Byte) : Editor :=
  if ed.lineLen < lineMax - 1 then
    { ed with line := Function.update ed.line ed.lineLen c, lineLen := ed.lineLen + 1 }
  else ed

def builtins : List (List Byte) :=
  [chars ['h', 'e', 'l', 'p'], chars ['c', 'l', 'e', 'a', 'r'], chars ['m', 'e', 'm', 'i', 'n', 'f', 'o'],
    chars ['t', 'a', 's', 'k', 's'], chars ['p', 's'], chars ['l', 's'], catName, hexdumpName, runName, echoName,
    chars ['u', 'p', 't', 'i', 'm', 'e'], chars ['g', 'u', 'i'], chars ['a', 'b', 'o', 'u', 't'],
    chars ['r', 'e', 'b', 'o', 'o', 't'], statName, chars ['d', 'f'], writeName, appendName, rmName]

def tokenStart (line : Nat → Byte) : Nat → Nat
  | 0 => 0
  | n + 1 => if line n ≠ 0x20#8 then tokenStart line n else n + 1

-- `strncmp(a, &line[s], n) == 0`
def strncmpEq (line : Nat → Byte) : List Byte → Nat → Nat → Bool
  | _, _, 0 => true
  | [], s, _ + 1 => line s = 0
  | c :: a, s, n + 1 => if c = line s then strncmpEq line a (s + 1) n else false

def sameName (line : Nat → Byte) : List Byte → Nat → Nat → Bool
  | _, _, 0 => true
  | [], _, _ + 1 => false
  | c :: name, s, n + 1 => if c = upcase (line s) then sameName line name (s + 1) n else false

def lowcase (c : Byte) : Byte := if 0x41 ≤ c.toNat ∧ c.toNat ≤ 0x5A then c + 32 else c

def complete (files : List (List Byte)) (ed : Editor) : Editor :=
  let start := tokenStart ed.line ed.lineLen
  let tlen := ed.lineLen - start
  if tlen = 0 then ed
  else
    let found :=
      if start = 0 then builtins.filter fun name => strncmpEq ed.line name 0 tlen
      else files.filter fun name => sameName ed.line name start tlen
    match found with
    | [name] => ((name.drop tlen).map lowcase).foldl pushChar ed
    | _ => ed

def upKey : Nat := 0x100 + 'A'.toNat
def downKey : Nat := 0x100 + 'B'.toNat

-- The two codes of a serial terminal.
def mapKey (c : Nat) : Nat := if c = 0x0D then 0x0A else if c = 0x7F then 0x08 else c

def text (ed : Editor) : List Byte := (List.range ed.lineLen).map ed.line

def key (files : List (List Byte)) (ed : Editor) (code : Nat) : Editor :=
  let c := mapKey code
  if c = 0x0A then
    let ed := { ed with line := Function.update ed.line ed.lineLen 0 }.remember
    -- `execute` splits the line in place.
    { ed with line := (split ed.line argvMax).2, lineLen := 0, histPos := -1 }
  else if c = 0x08 then (if 0 < ed.lineLen then { ed with lineLen := ed.lineLen - 1 } else ed)
  else if c = 0x09 then ed.complete files
  else if c = upKey then ed.older
  else if c = downKey then ed.newer
  else if 0x20 ≤ c ∧ c < 0x100 then ed.pushChar (BitVec.ofNat 8 c)
  else ed

end Editor

structure Console where
  kb : Keyboard
  ed : Editor

namespace Console

def boot : Console := ⟨Keyboard.fresh, .fresh⟩

-- The code of one round: the keyboard's, or else what the serial port has.
def code (c : Console) (serial : Option Byte) : Nat :=
  if c.kb.keyboardGetc.1 = 0 then (serial.getD 0).toNat else c.kb.keyboardGetc.1

def round (serial : Option Byte) (files : List (List Byte)) (c : Console) : Console where
  kb := c.kb.keyboardGetc.2
  ed := if c.code serial = 0 then c.ed else c.ed.key files (c.code serial)

def enters (c : Console) (serial : Option Byte) : List (List Byte) :=
  if Editor.mapKey (c.code serial) = 0x0A then [c.ed.text] else []

def interrupt (c : Console) (sc : Byte) : Console :=
  { c with kb := Keyboard.keyboardHandler c.kb sc }

/-- The commands entered on the way to a state, the oldest first. -/
inductive Entered : List (List Byte) → Console → Prop
  | boot : Entered [] boot
  | interrupt {cmds : List (List Byte)} {c : Console} (sc : Byte) : Entered cmds c →
    Entered cmds (c.interrupt sc)
  | round {cmds : List (List Byte)} {c : Console} (serial : Option Byte) {files : List (List Byte)} :
      (∀ file ∈ files, ∀ b ∈ file, b ≠ 0) → Entered cmds c →
        Entered (cmds ++ c.enters serial) (c.round serial files)
  -- A running command reads a key itself, as the desktop does.
  | taken {cmds : List (List Byte)} {c : Console} :
      Entered cmds c → Entered cmds { c with kb := c.kb.keyboardGetc.2 }

end Console

end Shell

end NovaKernel
