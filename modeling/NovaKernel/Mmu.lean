import NovaKernel.Common
import NovaKernel.Mm
import Mathlib.Tactic.IntervalCases

set_option autoImplicit false

namespace NovaKernel

def pteP : Word := 0x1
def pteW : Word := 0x2
def pteU : Word := 0x4

-- `f | flags` for the address `f` of a frame.
def entry (frame : Nat) (flags : Word) : Word :=
  BitVec.ofNat 32 (frame * frameSize) ||| flags

-- `pte >> 12`, which is also the frame of `pte & 0xFFFFF000`.
def frameOf (w : Word) : Nat :=
  (w >>> 12).toNat

def hasFlag (w flag : Word) : Bool :=
  w &&& flag != 0

theorem address_bit (frame i : Nat) (low : i < 12) :
    (BitVec.ofNat 32 (frame * frameSize)).getLsbD i = false := by
  have shifted : (frame * 2 ^ 12).testBit i = (decide (12 ≤ i) && frame.testBit (i - 12)) :=
    Nat.testBit_mul_two_pow frame i 12
  rw [BitVec.getLsbD_ofNat, frameSize, show (0x1000 : Nat) = 2 ^ 12 from rfl, shifted]
  simp [Nat.not_le.mpr low]

theorem mask_bit {mask : Word} (narrow : mask.toNat < 0x1000) {i : Nat} (high : 12 ≤ i) :
    mask.getLsbD i = false := by
  rw [← BitVec.testBit_toNat]
  have bound : 2 ^ 12 ≤ 2 ^ i := Nat.pow_le_pow_right (by decide) high
  exact Nat.testBit_lt_two_pow (lt_of_lt_of_le narrow bound)

theorem entry_and (frame : Nat) (flags mask : Word) (narrow : mask.toNat < 0x1000) :
    entry frame flags &&& mask = flags &&& mask := by
  apply BitVec.eq_of_getLsbD_eq
  intro i _
  rcases Nat.lt_or_ge i 12 with low | high
  · simp [entry, address_bit frame i low]
  · simp [entry, mask_bit narrow high]

theorem hasFlag_entry (frame : Nat) (flags mask : Word) (narrow : mask.toNat < 0x1000) :
    hasFlag (entry frame flags) mask = hasFlag flags mask := by
  rw [hasFlag, entry_and frame flags mask narrow, hasFlag]

@[simp] theorem present_entry (frame : Nat) (flags : Word) :
    hasFlag (entry frame flags) pteP = hasFlag flags pteP :=
  hasFlag_entry frame flags pteP (by decide)

@[simp] theorem writable_entry (frame : Nat) (flags : Word) :
    hasFlag (entry frame flags) pteW = hasFlag flags pteW :=
  hasFlag_entry frame flags pteW (by decide)

@[simp] theorem user_entry (frame : Nat) (flags : Word) :
    hasFlag (entry frame flags) pteU = hasFlag flags pteU :=
  hasFlag_entry frame flags pteU (by decide)

theorem frameOf_entry {frame : Nat} {flags : Word} (bounded : frame < frameCount)
    (narrow : flags.toNat < 0x1000) : frameOf (entry frame flags) = frame := by
  simp only [frameCount, frameSize] at bounded
  simp only [frameOf, entry, frameSize, BitVec.toNat_ushiftRight, BitVec.toNat_or,
    BitVec.toNat_ofNat]
  rw [Nat.mod_eq_of_lt (by omega), Nat.shiftRight_or_distrib, Nat.shiftRight_eq_div_pow,
    Nat.shiftRight_eq_div_pow, Nat.mul_div_cancel _ (by decide), Nat.div_eq_of_lt narrow,
    Nat.or_zero]

theorem entry_downgrade (frame : Nat) {flags flags' : Word} (narrow : flags.toNat < 0x1000)
    (cleared : flags &&& ~~~pteW = flags') :
    entry frame flags &&& ~~~pteW = entry frame flags' := by
  subst cleared
  apply BitVec.eq_of_getLsbD_eq
  intro i within
  rcases Nat.lt_or_ge i 12 with low | high
  · simp only [entry, BitVec.getLsbD_and, BitVec.getLsbD_or, address_bit frame i low,
      Bool.false_or]
  · have flag := mask_bit narrow high
    have bit : pteW.getLsbD i = false := mask_bit (by decide) high
    simp only [entry, BitVec.getLsbD_and, BitVec.getLsbD_or, BitVec.getLsbD_not, flag, bit,
      Bool.or_false, Bool.not_false, Bool.and_true, within, decide_true]

@[simp] theorem frameOf_downgrade (w : Word) : frameOf (w &&& ~~~pteW) = frameOf w := by
  have high : (w &&& ~~~pteW) >>> 12 = w >>> 12 := by
    apply BitVec.eq_of_getLsbD_eq
    intro i _
    have bit : pteW.getLsbD (12 + i) = false := mask_bit (by decide) (by omega)
    simp only [BitVec.getLsbD_ushiftRight, BitVec.getLsbD_and, BitVec.getLsbD_not, bit,
      Bool.not_false, Bool.and_true]
    by_cases inside : 12 + i < 32
    · simp [inside]
    · simp [inside, BitVec.getLsbD_of_ge w (12 + i) (by omega)]
  rw [frameOf, high, frameOf]

@[simp] theorem hasFlag_zero (flag : Word) : hasFlag 0#32 flag = false := by
  simp [hasFlag]

def byteAt (w : Word) (k : Nat) : Byte :=
  w.extractLsb' (8 * k) 8

def setByte (w : Word) (k : Nat) (b : Byte) : Word :=
  (w &&& ~~~(0xFF#32 <<< (8 * k))) ||| (b.setWidth 32 <<< (8 * k))

theorem byteAt_setByte (w : Word) (b : Byte) {j k : Nat} (hj : j < 4) (hk : k < 4) :
    byteAt (setByte w k b) j = if j = k then b else byteAt w j := by
  apply BitVec.eq_of_getLsbD_eq
  intro i within
  interval_cases j <;> interval_cases k <;> simp [byteAt, setByte] <;> interval_cases i <;> simp

/-- What a page walk yields: the frame reached and the rights along the way. -/
structure Translation where
  frame : Nat
  writable : Bool
  user : Bool
  deriving DecidableEq

-- `mem` is physical memory: a frame number and a word index inside the frame.
-- `tlb` holds the translations cached since CR3 was last loaded.
@[ext] structure Machine where
  mm : Mm
  mem : Nat → Nat → Word
  cr3 : Nat
  tlb : List (Nat × Translation)

namespace Machine

def setWord (s : Machine) (frame idx : Nat) (w : Word) : Machine :=
  { s with mem := Function.update s.mem frame (Function.update (s.mem frame) idx w) }

def setFrame (s : Machine) (frame : Nat) (contents : Nat → Word) : Machine :=
  { s with mem := Function.update s.mem frame contents }

-- The MMU walk of virtual page `v`: it reads the tables at their physical addresses.
def walk (s : Machine) (v : Nat) : Option Translation :=
  let pde := s.mem s.cr3 (v / 1024)
  if hasFlag pde pteP then
    let pte := s.mem (frameOf pde) (v % 1024)
    if hasFlag pte pteP then
      some { frame := frameOf pte
             writable := hasFlag pde pteW && hasFlag pte pteW
             user := hasFlag pde pteU && hasFlag pte pteU }
    else none
  else none

end Machine

/-- How a ring-0 access to a virtual page finds its frame; `none` is a page fault,
which ring 0 does not survive. The flag tells a store from a load. -/
abbrev Access := Machine → Nat → Bool → Option Nat

-- Every pointer reaches the frame it names.
def physical : Access := fun _ v _ => some v

-- Pointers go through the loaded page tables, and CR0.WP is set.
def translated : Access := fun s v store =>
  (s.walk v).bind fun t => if store && !t.writable then none else some t.frame

def userPgStart : Nat := 512
def userPgEnd : Nat := 768

def InUserWindow (v : Nat) : Prop := userPgStart ≤ v ∧ v < userPgEnd

instance (v : Nat) : Decidable (InUserWindow v) :=
  inferInstanceAs (Decidable (_ ∧ _))

-- As `translated`, but a pointer that is not mapped to itself outside the user window faults.
def identityOnly : Access := fun s v store =>
  if translated s v store = some v ∧ ¬ InUserWindow v then some v else none

namespace Machine

def load (acc : Access) (s : Machine) (page idx : Nat) : Option Word :=
  (acc s page false).map fun frame => s.mem frame idx

def store (acc : Access) (s : Machine) (page idx : Nat) (w : Word) : Option Machine :=
  (acc s page true).map fun frame => s.setWord frame idx w

def copyPage (acc : Access) (s : Machine) (dst src : Nat) : Option Machine :=
  (acc s dst true).bind fun d => (acc s src false).map fun f => s.setFrame d (s.mem f)

@[simp] theorem setWord_mm (s : Machine) (frame idx : Nat) (w : Word) :
    (s.setWord frame idx w).mm = s.mm := rfl
@[simp] theorem setFrame_mm (s : Machine) (frame : Nat) (contents : Nat → Word) :
    (s.setFrame frame contents).mm = s.mm := rfl
@[simp] theorem setFrame_cr3 (s : Machine) (frame : Nat) (contents : Nat → Word) :
    (s.setFrame frame contents).cr3 = s.cr3 := rfl

theorem setWord_eq_setFrame (s : Machine) (frame idx : Nat) (w : Word) :
    s.setWord frame idx w = s.setFrame frame (Function.update (s.mem frame) idx w) := rfl

@[simp] theorem setFrame_idem (s : Machine) (frame : Nat) (old new : Nat → Word) :
    (s.setFrame frame old).setFrame frame new = s.setFrame frame new := by
  simp [setFrame]

@[simp] theorem setFrame_mem_self (s : Machine) (frame : Nat) (contents : Nat → Word) :
    (s.setFrame frame contents).mem frame = contents := by
  simp [setFrame]

@[simp] theorem setFrame_self (s : Machine) (frame : Nat) :
    s.setFrame frame (s.mem frame) = s := by
  simp [setFrame]

theorem setWord_mem (s : Machine) (frame idx : Nat) (w : Word) (g j : Nat) :
    (s.setWord frame idx w).mem g j = if g = frame ∧ j = idx then w else s.mem g j := by
  by_cases sameFrame : g = frame
  · subst sameFrame
    by_cases sameIdx : j = idx <;> simp [setWord, sameIdx]
  · simp [setWord, sameFrame]

theorem setWord_mem_ne (s : Machine) {frame g : Nat} (idx : Nat) (w : Word) (other : g ≠ frame) :
    (s.setWord frame idx w).mem g = s.mem g := by
  simp [setWord, other]

theorem setFrame_mem_ne (s : Machine) {frame g : Nat} (contents : Nat → Word) (other : g ≠ frame) :
    (s.setFrame frame contents).mem g = s.mem g := by
  simp [setFrame, other]

theorem setFrame_mem (s : Machine) (frame : Nat) (contents : Nat → Word) (g : Nat) :
    (s.setFrame frame contents).mem g = if g = frame then contents else s.mem g := by
  by_cases same : g = frame <;> simp [setFrame, same]

theorem walk_congr {s s' : Machine} {v : Nat} (cr3 : s'.cr3 = s.cr3)
    (pde : s'.mem s.cr3 (v / 1024) = s.mem s.cr3 (v / 1024))
    (pte : s'.mem (frameOf (s.mem s.cr3 (v / 1024))) (v % 1024) =
      s.mem (frameOf (s.mem s.cr3 (v / 1024))) (v % 1024)) : s'.walk v = s.walk v := by
  simp only [walk, cr3, pde, pte]

end Machine

/-- An access that agrees with the page tables on every page mapped to itself below the
user window. -/
def Faithful (acc : Access) : Prop :=
  ∀ s v store, v < userPgStart → translated s v store = some v → acc s v store = some v

theorem translated_faithful : Faithful translated := fun _ _ _ _ reached => reached

theorem identityOnly_faithful : Faithful identityOnly := by
  intro s v store below reached
  have outside : ¬ InUserWindow v := fun inside => Nat.not_le.mpr below inside.1
  simp [identityOnly, reached, outside]

end NovaKernel
