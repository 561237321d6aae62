import NovaKernel.Common
import Mathlib.Data.List.Induction

set_option autoImplicit false

namespace NovaKernel

/-- One 8259. `icw` is the initialization word its data port expects next, 0 when that port is
the mask register. -/
structure Chip where
  icw : Nat
  offset : Byte
  cascade : Byte
  mode : Byte
  imr : Byte

namespace Chip

def command (c : Chip) (v : Byte) : Chip :=
  if v &&& 0x10#8 ≠ 0#8 then { c with icw := 2, imr := 0#8 } else c

def data (c : Chip) (v : Byte) : Chip :=
  match c.icw with
  | 2 => { c with icw := 3, offset := v }
  | 3 => { c with icw := 4, cascade := v }
  | 4 => { c with icw := 0, mode := v }
  | _ => { c with imr := v }

end Chip

structure Pic where
  master : Chip
  slave : Chip

namespace Pic

def pic1Cmd : Nat := 0x20

def pic1Data : Nat := 0x21

def pic2Cmd : Nat := 0xA0

def pic2Data : Nat := 0xA1

def outb (p : Pic) (port : Nat) (v : Byte) : Pic :=
  if port = pic1Cmd then { p with master := p.master.command v }
  else if port = pic1Data then { p with master := p.master.data v }
  else if port = pic2Cmd then { p with slave := p.slave.command v }
  else if port = pic2Data then { p with slave := p.slave.data v }
  else p

-- Only the data ports are read, and only outside the initialization.
def inb (p : Pic) (port : Nat) : Byte :=
  if port = pic1Data then p.master.imr else p.slave.imr

def picInit (p : Pic) : Pic :=
  let p := p.outb pic1Cmd 0x11#8
  let p := p.outb pic2Cmd 0x11#8
  let p := p.outb pic1Data 0x20#8
  let p := p.outb pic2Data 0x28#8
  let p := p.outb pic1Data 0x04#8
  let p := p.outb pic2Data 0x02#8
  let p := p.outb pic1Data 0x01#8
  let p := p.outb pic2Data 0x01#8
  let p := p.outb pic1Data 0xFF#8
  p.outb pic2Data 0xFF#8

def irqPort (irq : Nat) : Nat := if irq < 8 then pic1Data else pic2Data

def irqBit (irq : Nat) : Nat := if irq < 8 then irq else irq - 8

def irqEnable (p : Pic) (irq : Nat) : Pic :=
  let mask := p.inb (irqPort irq)
  p.outb (irqPort irq) (mask &&& ~~~(1#8 <<< irqBit irq))

def irqDisable (p : Pic) (irq : Nat) : Pic :=
  let mask := p.inb (irqPort irq)
  p.outb (irqPort irq) (mask ||| (1#8 <<< irqBit irq))

def mouseIrq : Nat := 12

/-- Line `n` can reach the CPU: its own mask bit is clear, and for a slave line the cascade bit too. -/
def Deliverable (p : Pic) (n : Nat) : Prop :=
  if n < 8 then p.master.imr.getLsbD n = false
  else p.slave.imr.getLsbD (n - 8) = false ∧ p.master.imr.getLsbD 2 = false

/-- A line that a device can be on: all of 0 to 15 but the cascade. -/
abbrev Line := { n : Nat // n < 16 ∧ n ≠ 2 }

inductive Call
  | enable (line : Line)
  | disable (line : Line)

def Call.line : Call → Line
  | enable line | disable line => line

def Call.enables : Call → Bool
  | enable _ => true
  | disable _ => false

def perform (p : Pic) : Call → Pic
  | .enable line => p.irqEnable line
  | .disable line => p.irqDisable line

def after (p : Pic) (calls : List Call) : Pic := calls.foldl perform p.picInit

/-- The last call that names a line is `irq_enable`. -/
def lastEnables (calls : List Call) (line : Line) : Bool :=
  ((calls.filter (·.line = line)).getLast?.map Call.enables).getD false

-- The two chips take masks, and the cascade bit is set, as it is from the start.
structure Ready (p : Pic) : Prop where
  master : p.master.icw = 0
  slave : p.slave.icw = 0
  cascade : p.master.imr.getLsbD 2 = true

def masked (p : Pic) (n : Nat) : Bool :=
  if n < 8 then p.master.imr.getLsbD n else p.slave.imr.getLsbD (n - 8)

theorem deliverable_iff {p : Pic} (ready : p.Ready) (n : Nat) :
    p.Deliverable n ↔ n < 8 ∧ p.masked n = false := by
  by_cases low : n < 8
  · simp [Deliverable, masked, low]
  · simp [Deliverable, low, ready.cascade]

theorem clear_bit (mask : Byte) (bit j : Nat) (inside : j < 8) :
    (mask &&& ~~~(1#8 <<< bit)).getLsbD j = (mask.getLsbD j && !decide (j = bit)) := by
  rw [← BitVec.twoPow_eq]
  simp only [BitVec.getLsbD_and, BitVec.getLsbD_not, BitVec.getLsbD_twoPow, inside]
  by_cases same : j = bit
  · subst same
    simp [inside]
  · simp [same, Ne.symm same]

theorem set_bit (mask : Byte) (bit j : Nat) (inside : j < 8) :
    (mask ||| (1#8 <<< bit)).getLsbD j = (mask.getLsbD j || decide (j = bit)) := by
  rw [← BitVec.twoPow_eq]
  simp only [BitVec.getLsbD_or, BitVec.getLsbD_twoPow]
  by_cases same : j = bit
  · subst same
    simp [inside]
  · simp [same, Ne.symm same]

variable {p : Pic} {n irq : Nat}

theorem outb_line (ready : p.Ready) (irq : Nat) (v : Byte) :
    p.outb (irqPort irq) v =
      if irq < 8 then { p with master := { p.master with imr := v } }
      else { p with slave := { p.slave with imr := v } } := by
  by_cases low : irq < 8
  · have port : irqPort irq = pic1Data := if_pos low
    simp [port, outb, pic1Data, pic1Cmd, Chip.data, ready.master, low]
  · have port : irqPort irq = pic2Data := if_neg low
    simp [port, outb, pic2Data, pic2Cmd, pic1Data, pic1Cmd, Chip.data, ready.slave, low]

theorem inb_line (p : Pic) (irq : Nat) :
    p.inb (irqPort irq) = if irq < 8 then p.master.imr else p.slave.imr := by
  by_cases low : irq < 8
  · simp [inb, irqPort, low]
  · simp [inb, irqPort, low, pic1Data, pic2Data]

-- The two calls differ only in the byte they write back.
theorem masked_write (ready : p.Ready) (inside : n < 16) (bound : irq < 16) (v : Byte)
    (value : Bool) (written : ∀ j < 8, v.getLsbD j =
      if j = irqBit irq then value else (p.inb (irqPort irq)).getLsbD j) :
    (p.outb (irqPort irq) v).masked n = if n = irq then value else p.masked n := by
  rw [outb_line ready]
  rw [inb_line] at written
  by_cases low : irq < 8 <;> by_cases low' : n < 8
  · have bit := written n low'
    simp only [irqBit, low, if_true] at bit
    simp only [masked, low, low', if_true]
    exact bit
  · have apart : n ≠ irq := by omega
    simp [masked, low, low', apart]
  · have apart : n ≠ irq := by omega
    simp [masked, low, low', apart]
  · have bit := written (n - 8) (by omega)
    simp only [irqBit, low, if_false] at bit
    have same : n - 8 = irq - 8 ↔ n = irq := by omega
    simp only [masked, low, low', if_false]
    rw [bit]
    simp only [same]

theorem masked_enable (ready : p.Ready) (inside : n < 16) (bound : irq < 16) :
    (p.irqEnable irq).masked n = if n = irq then false else p.masked n := by
  refine masked_write ready inside bound _ false fun j hj => ?_
  rw [clear_bit _ _ _ hj]
  by_cases same : j = irqBit irq
  · simp [same]
  · simp [same]

theorem masked_disable (ready : p.Ready) (inside : n < 16) (bound : irq < 16) :
    (p.irqDisable irq).masked n = if n = irq then true else p.masked n := by
  refine masked_write ready inside bound _ true fun j hj => ?_
  rw [set_bit _ _ _ hj]
  by_cases same : j = irqBit irq
  · simp [same]
  · simp [same]

-- The cascade is a bit of the master that no call names.
theorem ready_write (ready : p.Ready) (v : Byte)
    (kept : (p.outb (irqPort irq) v).masked 2 = p.masked 2) : (p.outb (irqPort irq) v).Ready := by
  have cascade : (p.outb (irqPort irq) v).master.imr.getLsbD 2 = true := kept.trans ready.cascade
  rw [outb_line ready] at cascade ⊢
  by_cases low : irq < 8
  · rw [if_pos low] at cascade ⊢
    exact ⟨ready.master, ready.slave, cascade⟩
  · rw [if_neg low] at cascade ⊢
    exact ⟨ready.master, ready.slave, cascade⟩

theorem masked_perform (ready : p.Ready) (inside : n < 16) (call : Call) :
    (p.perform call).masked n = if n = call.line then !call.enables else p.masked n := by
  cases call with
  | enable line => exact masked_enable ready inside line.property.1
  | disable line => exact masked_disable ready inside line.property.1

theorem ready_perform (ready : p.Ready) (call : Call) : (p.perform call).Ready := by
  cases call with
  | enable line =>
    have kept := masked_enable ready (show 2 < 16 by decide) line.property.1
    rw [if_neg line.property.2.symm] at kept
    exact ready_write ready _ kept
  | disable line =>
    have kept := masked_disable ready (show 2 < 16 by decide) line.property.1
    rw [if_neg line.property.2.symm] at kept
    exact ready_write ready _ kept

theorem picInit_eq (p : Pic) :
    p.picInit = ⟨⟨0, 0x20#8, 0x04#8, 0x01#8, 0xFF#8⟩, ⟨0, 0x28#8, 0x02#8, 0x01#8, 0xFF#8⟩⟩ := by
  simp [picInit, outb, pic1Cmd, pic1Data, pic2Cmd, pic2Data, Chip.command, Chip.data]

theorem ready_init (p : Pic) : p.picInit.Ready := by
  rw [picInit_eq]
  exact ⟨rfl, rfl, by decide⟩

theorem masked_init (inside : n < 16) : p.picInit.masked n = true := by
  rw [picInit_eq, masked]
  split
  next => simp only [show (0xFF#8) = BitVec.allOnes 8 from rfl, BitVec.getLsbD_allOnes]; simpa
  next => simp only [show (0xFF#8) = BitVec.allOnes 8 from rfl, BitVec.getLsbD_allOnes]; simp; omega

theorem after_snoc (p : Pic) (calls : List Call) (call : Call) :
    p.after (calls ++ [call]) = (p.after calls).perform call := by
  simp [after]

theorem ready_after (p : Pic) (calls : List Call) : (p.after calls).Ready := by
  induction calls using List.reverseRecOn with
  | nil => exact ready_init p
  | append_singleton calls call ih =>
    rw [after_snoc]
    exact ready_perform ih call

theorem masked_after (p : Pic) (calls : List Call) (line : Line) :
    (p.after calls).masked line = !lastEnables calls line := by
  induction calls using List.reverseRecOn with
  | nil => exact masked_init line.property.1
  | append_singleton calls call ih =>
    rw [after_snoc, masked_perform (ready_after p calls) line.property.1]
    by_cases named : call.line = line
    · simp [named, lastEnables, List.filter_append]
    · rw [if_neg fun same => named (Subtype.ext same.symm), ih]
      simp [named, lastEnables, List.filter_append]

theorem deliverable_after (p : Pic) (calls : List Call) (line : Line) :
    (p.after calls).Deliverable line ↔ line.val < 8 ∧ lastEnables calls line = true := by
  rw [deliverable_iff (ready_after p calls), masked_after]
  simp

/-- The law of the two masks, for one history of calls. -/
structure Delivers (p : Pic) (calls : List Call) : Prop where
  last : ∀ line : Line, (p.after calls).Deliverable line ↔ lastEnables calls line = true
  others : ∀ earlier call later, calls = earlier ++ call :: later → ∀ line : Line, line ≠ call.line →
    ((p.after (earlier ++ [call])).Deliverable line ↔ (p.after earlier).Deliverable line)

theorem deliverable_others (p : Pic) (earlier : List Call) (call : Call) (line : Line)
    (other : line ≠ call.line) :
    (p.after (earlier ++ [call])).Deliverable line ↔ (p.after earlier).Deliverable line := by
  rw [deliverable_after, deliverable_after]
  simp [lastEnables, List.filter_append, other.symm]

/-- The law holds exactly for the histories that leave no line of the slave enabled. -/
theorem delivers_iff (p : Pic) (calls : List Call) :
    p.Delivers calls ↔ ∀ line : Line, 8 ≤ line.val → lastEnables calls line = false := by
  constructor
  · intro delivers line high
    by_cases enabled : lastEnables calls line = true
    · have low := ((deliverable_after p calls line).mp ((delivers.last line).mpr enabled)).1
      omega
    · exact Bool.eq_false_iff.mpr enabled
  · intro disabled
    refine ⟨fun line => ?_, fun earlier call later _ => deliverable_others p earlier call⟩
    rw [deliverable_after]
    refine ⟨And.right, fun enabled => ⟨?_, enabled⟩⟩
    by_cases low : line.val < 8
    · exact low
    · rw [disabled line (by omega)] at enabled
      cases enabled

/-- The mouse driver's own call leaves its line masked by the cascade. -/
theorem mouse_masked : ¬ ∀ (p : Pic) (calls : List Call), p.Delivers calls := by
  intro all
  have law := all ⟨⟨0, 0, 0, 0, 0⟩, ⟨0, 0, 0, 0, 0⟩⟩ [.enable ⟨mouseIrq, by decide⟩]
  have reached := (deliverable_after _ _ _).mp ((law.last ⟨mouseIrq, by decide⟩).mpr (by decide))
  exact absurd reached.1 (by decide)

end Pic

end NovaKernel
