import NovaKernel.Pic
import Mathlib.Data.List.Find

set_option autoImplicit false

namespace NovaKernel

namespace PicService

structure Latch where
  chip : Chip
  irr : Nat → Bool
  isr : Nat → Bool

namespace Latch

variable (c : Latch)

-- A nonspecific end of interrupt clears the line of the highest priority in service.
def command (v : Byte) : Latch :=
  if v &&& 0x10#8 ≠ 0#8 then ⟨c.chip.command v, fun _ => false, fun _ => false⟩
  else if v = 0x20#8 then
    match (List.range 8).find? c.isr with
    | none => c
    | some n => { c with isr := Function.update c.isr n false }
  else c

def data (v : Byte) : Latch := { c with chip := c.chip.data v }

def asks (n : Nat) : Bool := c.irr n && !c.chip.imr.getLsbD n

/-- The line the chip asks for: the first that is requested and not masked, unless a line of that priority or a higher
one is in service. -/
def request : Option Nat :=
  match (List.range 8).find? c.asks with
  | none => none
  | some n => if (List.range (n + 1)).any c.isr then none else some n

def serve (n : Nat) : Latch :=
    { c with irr := Function.update c.irr n false, isr := Function.update c.isr n true }

def withdraw (n : Nat) : Latch := { c with irr := Function.update c.irr n false }

end Latch

structure Latches where
  master : Latch
  slave : Latch

namespace Latches

open Pic

variable (s : Latches)

def toPic : Pic := ⟨s.master.chip, s.slave.chip⟩

def outb (port : Nat) (v : Byte) : Latches :=
  if port = pic1Cmd then { s with master := s.master.command v }
  else if port = pic1Data then { s with master := s.master.data v }
  else if port = pic2Cmd then { s with slave := s.slave.command v }
  else if port = pic2Data then { s with slave := s.slave.data v }
  else s

def picEoi (irq : Nat) : Latches :=
  let s := if 8 ≤ irq then s.outb pic2Cmd 0x20#8 else s
  s.outb pic1Cmd 0x20#8

def picInit : Latches :=
  let s := s.outb pic1Cmd 0x11#8
  let s := s.outb pic2Cmd 0x11#8
  let s := s.outb pic1Data 0x20#8
  let s := s.outb pic2Data 0x28#8
  let s := s.outb pic1Data 0x04#8
  let s := s.outb pic2Data 0x02#8
  let s := s.outb pic1Data 0x01#8
  let s := s.outb pic2Data 0x01#8
  let s := s.outb pic1Data 0xFF#8
  s.outb pic2Data 0xFF#8

def irqEnable (irq : Nat) : Latches :=
  let mask := s.toPic.inb (irqPort irq)
  s.outb (irqPort irq) (mask &&& ~~~(1#8 <<< irqBit irq))

def irqDisable (irq : Nat) : Latches :=
  let mask := s.toPic.inb (irqPort irq)
  s.outb (irqPort irq) (mask ||| (1#8 <<< irqBit irq))

def raise (n : Nat) : Latches :=
  if n < 8 then { s with master := { s.master with irr := Function.update s.master.irr n true } }
  else { s with slave := { s.slave with irr := Function.update s.slave.irr (n - 8) true } }

def withdraw (n : Nat) : Latches :=
  if n < 8 then { s with master := s.master.withdraw n } else { s with slave := s.slave.withdraw (n - 8) }

-- The slave's INT is the master's line 2.
def cascaded : Latch :=
  { s.master with irr := Function.update s.master.irr 2 s.slave.request.isSome }

def int : Option Nat := s.cascaded.request

/-- The CPU takes the interrupt: the vector, and the lines that are now in service. A request that is withdrawn while
it is acknowledged is answered with the chip's line 7. -/
def acknowledge (withdrawn : Bool) : Option (Nat × Latches) :=
  match s.int with
  | none => none
  | some n =>
    if n = 2 then
      let s := { s with master := { s.master with isr := Function.update s.master.isr 2 true } }
      match s.slave.request with
      | none => some (s.slave.chip.offset.toNat + 7, s)
      | some m =>
        if withdrawn then some (s.slave.chip.offset.toNat + 7, { s with slave := s.slave.withdraw m })
        else some (s.slave.chip.offset.toNat + m, { s with slave := s.slave.serve m })
    else if withdrawn then some (s.master.chip.offset.toNat + 7, { s with master := s.master.withdraw n })
    else some (s.master.chip.offset.toNat + n, { s with master := s.master.serve n })

def interrupt (withdrawn : Bool) : Option Nat × Latches :=
  match s.acknowledge withdrawn with
  | none => (none, s)
  | some (vector, s) =>
    if 32 ≤ vector ∧ vector ≤ 47 then (some (vector - 32), s.picEoi (vector - 32)) else (none, s)

end Latches

structure Lines where
  pending : Nat → Bool
  masked : Nat → Bool

namespace Lines

def order : List Nat := [0, 1] ++ (List.range 8).map (8 + ·) ++ [3, 4, 5, 6, 7]

variable (l : Lines)

def Ready (n : Nat) : Bool := l.pending n && !l.masked n && (n < 8 || !l.masked 2)

def next : Option Nat := order.find? l.Ready

def interrupt (withdrawn : Bool) : Option Nat × Lines :=
  match l.next with
  | none => (none, l)
  | some n =>
    (some (if withdrawn then (if n < 8 then 7 else 15) else n),
      { l with pending := Function.update l.pending n false })

end Lines

abbrev Irq := { n : Nat // n < 16 }

inductive Event
  | raise (line : Pic.Line)
  | withdraw (line : Pic.Line)
  | enable (irq : Irq)
  | disable (irq : Irq)
  | interrupt (withdrawn : Bool)

def Latches.step (s : Latches) : Event → Option Nat × Latches
  | .raise line => (none, s.raise line)
  | .withdraw line => (none, s.withdraw line)
  | .enable irq => (none, s.irqEnable irq)
  | .disable irq => (none, s.irqDisable irq)
  | .interrupt withdrawn => s.interrupt withdrawn

def Lines.step (l : Lines) : Event → Option Nat × Lines
  | .raise line => (none, { l with pending := Function.update l.pending line true })
  | .withdraw line => (none, { l with pending := Function.update l.pending line false })
  | .enable irq => (none, { l with masked := Function.update l.masked irq false })
  | .disable irq => (none, { l with masked := Function.update l.masked irq true })
  | .interrupt withdrawn => l.interrupt withdrawn

def Latches.run : List Event → Latches → List Nat × Latches
  | [], s => ([], s)
  | e :: es, s =>
    let (irq, s) := s.step e
    let (irqs, s) := run es s
    (irq.toList ++ irqs, s)

def Lines.run : List Event → Lines → List Nat × Lines
  | [], l => ([], l)
  | e :: es, l =>
    let (irq, l) := l.step e
    let (irqs, l) := run es l
    (irq.toList ++ irqs, l)

section Chip

variable {c : Latch} (idle : ∀ n < 8, c.isr n = false)
include idle

theorem request_idle : c.request = (List.range 8).find? c.asks := by
  rw [Latch.request]
  cases found : (List.range 8).find? c.asks with
  | none => rfl
  | some n =>
    have inside := List.mem_range.mp (List.mem_of_find?_eq_some found)
    have quiet : (List.range (n + 1)).any c.isr = false := by
      rw [List.any_eq_false]
      intro j member
      rw [idle j (by have := List.mem_range.mp member; omega)]
      decide
    simp only [quiet, Bool.false_eq_true, if_false]

theorem eoi_idle : c.command 0x20#8 = c := by
  have none' : (List.range 8).find? c.isr = none := by
    rw [List.find?_eq_none]
    intro j member
    rw [idle j (List.mem_range.mp member)]
    decide
  rw [Latch.command, if_neg (by decide), if_pos rfl, none']

theorem eoi_served {n : Nat} (inside : n < 8) (irr : Nat → Bool) :
    Latch.command ⟨c.chip, irr, Function.update c.isr n true⟩ 0x20#8 =
      ⟨c.chip, irr, Function.update c.isr n false⟩ := by
  have found : (List.range 8).find? (Function.update c.isr n true) = some n := by
    rw [List.find?_range_eq_some]
    refine ⟨Function.update_self _ _ _, List.mem_range.mpr inside, fun j below => ?_⟩
    rw [Function.update_of_ne (Nat.ne_of_lt below), idle j (by omega)]
    rfl
  rw [Latch.command, if_neg (by decide), if_pos rfl]
  simp only [found, Function.update_idem]

end Chip

theorem idle_cleared {c : Latch} (idle : ∀ n < 8, c.isr n = false) (n : Nat) :
    ∀ j < 8, Function.update c.isr n false j = false := by
  intro j below
  by_cases here : j = n
  · rw [here, Function.update_self]
  · rw [Function.update_of_ne here, idle j below]

theorem picEoi_low (s : Latches) {irq : Nat} (low : irq < 8) :
    s.picEoi irq = { s with master := s.master.command 0x20#8 } := by
  have slave : ¬ 8 ≤ irq := by omega
  rw [Latches.picEoi, if_neg slave]
  rfl

theorem picEoi_high (s : Latches) {irq : Nat} (high : 8 ≤ irq) :
    s.picEoi irq = ⟨s.master.command 0x20#8, s.slave.command 0x20#8⟩ := by
  rw [Latches.picEoi, if_pos high]
  rfl

/-- The two chips hold the requests and the masks, and no line is in service. -/
structure Corresponds (s : Latches) (l : Lines) : Prop where
  master : ∀ n < 8, s.master.isr n = false
  slave : ∀ n < 8, s.slave.isr n = false
  ready : s.master.chip.icw = 0 ∧ s.slave.chip.icw = 0
  offsets : s.master.chip.offset = 0x20#8 ∧ s.slave.chip.offset = 0x28#8
  low : ∀ n < 8, n ≠ 2 → s.master.irr n = l.pending n
  high : ∀ n < 8, s.slave.irr n = l.pending (8 + n)
  masked : ∀ n < 16, s.toPic.masked n = l.masked n

namespace Corresponds

variable {s : Latches} {l : Lines} (same : Corresponds s l)
include same

theorem master_mask {n : Nat} (inside : n < 8) : s.master.chip.imr.getLsbD n = l.masked n := by
  have mask := same.masked n (by omega)
  rwa [Pic.masked, if_pos inside] at mask

theorem slave_mask {n : Nat} (inside : n < 8) : s.slave.chip.imr.getLsbD n = l.masked (8 + n) := by
  have mask := same.masked (8 + n) (by omega)
  have place : 8 + n - 8 = n := by omega
  rwa [Pic.masked, if_neg (by omega), place] at mask

theorem asks_low {n : Nat} (inside : n < 8) (other : n ≠ 2) : s.cascaded.asks n = l.Ready n := by
  have irr : s.cascaded.irr n = l.pending n :=
    (Function.update_of_ne other _ _).trans (same.low n inside other)
  have mask : s.cascaded.chip.imr.getLsbD n = l.masked n := same.master_mask inside
  rw [Latch.asks, Lines.Ready, irr, mask, decide_eq_true inside, Bool.true_or, Bool.and_true]

theorem slave_request : s.slave.request =
    (List.range 8).find? fun n => l.pending (8 + n) && !l.masked (8 + n) := by
  rw [request_idle same.slave]
  refine List.find?_congr fun n member => ?_
  have inside := List.mem_range.mp member
  rw [Latch.asks, same.high n inside, same.slave_mask inside]

theorem find_high : ((List.range 8).map (8 + ·)).find? l.Ready =
    if l.masked 2 then none else s.slave.request.map (8 + ·) := by
  rw [List.find?_map, same.slave_request]
  have above : ∀ n, (l.Ready ∘ (8 + ·)) n =
      (l.pending (8 + n) && !l.masked (8 + n) && !l.masked 2) := fun n => by
    have high : ¬ 8 + n < 8 := by omega
    rw [Function.comp_apply, Lines.Ready, decide_eq_false high, Bool.false_or]
  rw [List.find?_congr fun n _ => above n]
  cases l.masked 2 with
  | true =>
    simp only [Bool.not_true, Bool.and_false, if_true]
    rw [List.find?_eq_none.mpr fun _ _ => Bool.false_ne_true]
    rfl
  | false => simp only [Bool.not_false, Bool.and_true, Bool.false_eq_true, if_false]

theorem next_cases : (s.int = none ∧ l.next = none) ∨
    (∃ n < 8, n ≠ 2 ∧ s.int = some n ∧ l.next = some n) ∨
    ∃ m < 8, s.int = some 2 ∧ s.slave.request = some m ∧ l.next = some (8 + m) := by
  have lines : List.range 8 = [0, 1] ++ ([2] ++ [3, 4, 5, 6, 7]) := rfl
  have first : [0, 1].find? s.cascaded.asks = [0, 1].find? l.Ready :=
    List.find?_congr fun n member => by
    simp only [List.mem_cons, List.not_mem_nil, or_false] at member
    exact same.asks_low (by omega) (by omega)
  have last : [3, 4, 5, 6, 7].find? s.cascaded.asks = [3, 4, 5, 6, 7].find? l.Ready :=
    List.find?_congr fun n member => by
      simp only [List.mem_cons, List.not_mem_nil, or_false] at member
      exact same.asks_low (by omega) (by omega)
  have mask : s.cascaded.chip.imr.getLsbD 2 = l.masked 2 := same.master_mask (by decide)
  have cascade : s.cascaded.asks 2 = (s.slave.request.isSome && !l.masked 2) := by
    have irr : s.cascaded.irr 2 = s.slave.request.isSome := Function.update_self 2 _ s.master.irr
    rw [Latch.asks, irr, mask]
  have asked : s.int = ([0, 1].find? l.Ready).or ((if s.slave.request.isSome && !l.masked 2 then some 2 else none).or
      ([3, 4, 5, 6, 7].find? l.Ready)) := by
    rw [Latches.int, request_idle (c := s.cascaded) same.master, lines, List.find?_append,
      List.find?_append, first,
      last, List.find?_singleton, cascade]
  have next : l.next = ([0, 1].find? l.Ready).or ((if l.masked 2 then none else s.slave.request.map (8 + ·)).or
      ([3, 4, 5, 6, 7].find? l.Ready)) := by
    rw [Lines.next, Lines.order, List.append_assoc, List.find?_append, List.find?_append,
      same.find_high]
  cases front : [0, 1].find? l.Ready with
  | some n =>
    rw [front, Option.some_or] at asked next
    have member := List.mem_of_find?_eq_some front
    simp only [List.mem_cons, List.not_mem_nil, or_false] at member
    exact .inr (.inl ⟨n, by omega, by omega, asked, next⟩)
  | none =>
    rw [front, Option.none_or] at asked next
    have rear : (s.int = [3, 4, 5, 6, 7].find? l.Ready ∧ l.next = [3, 4, 5, 6, 7].find? l.Ready) →
        (s.int = none ∧ l.next = none) ∨ ∃ n < 8, n ≠ 2 ∧ s.int = some n ∧ l.next = some n := by
      rintro ⟨asked, next⟩
      cases back : [3, 4, 5, 6, 7].find? l.Ready with
      | none => exact .inl ⟨asked.trans back, next.trans back⟩
      | some n =>
        have member := List.mem_of_find?_eq_some back
        simp only [List.mem_cons, List.not_mem_nil, or_false] at member
        exact .inr ⟨n, by omega, by omega, asked.trans back, next.trans back⟩
    cases masked : l.masked 2 with
    | true =>
      simp only [masked, Bool.not_true, Bool.and_false, Bool.false_eq_true, if_false, if_true,
        Option.none_or]
        at asked next
      rcases rear ⟨asked, next⟩ with nothing | some
      · exact .inl nothing
      · exact .inr (.inl some)
    | false =>
      cases wanted : s.slave.request with
      | none =>
        simp only [masked, wanted, Option.isSome_none, Bool.false_and, Bool.false_eq_true, if_false,
          Option.map_none,
          Option.none_or] at asked next
        rcases rear ⟨asked, next⟩ with nothing | some
        · exact .inl nothing
        · exact .inr (.inl some)
      | some m =>
        simp only [masked, wanted, Option.isSome_some, Bool.not_false, Bool.and_true,
          Bool.false_eq_true, if_false,
          if_true, Option.map_some, Option.some_or] at asked next
        have inside : m < 8 := by
          rw [same.slave_request] at wanted
          exact List.mem_range.mp (List.mem_of_find?_eq_some wanted)
        exact .inr (.inr ⟨m, inside, asked, rfl, next⟩)

theorem requested_low {n : Nat} (inside : n < 8) (other : n ≠ 2) (b : Bool) :
    Corresponds { s with master := { s.master with irr := Function.update s.master.irr n b } }
      { l with pending := Function.update l.pending n b } where
  master := same.master
  slave := same.slave
  ready := same.ready
  offsets := same.offsets
  low j below apart := by
    by_cases here : j = n
    · subst here
      exact (Function.update_self j b s.master.irr).trans (Function.update_self j b l.pending).symm
    · exact (Function.update_of_ne here _ _).trans ((same.low j below apart).trans
        (Function.update_of_ne here _ _).symm)
  high j below := by
    have apart : 8 + j ≠ n := by omega
    exact (same.high j below).trans (Function.update_of_ne apart _ _).symm
  masked := same.masked

theorem requested_high (m : Nat) (b : Bool) :
    Corresponds { s with slave := { s.slave with irr := Function.update s.slave.irr m b } }
      { l with pending := Function.update l.pending (8 + m) b } where
  master := same.master
  slave := same.slave
  ready := same.ready
  offsets := same.offsets
  low j below apart := by
    have other : j ≠ 8 + m := by omega
    exact (same.low j below apart).trans (Function.update_of_ne other _ _).symm
  high j below := by
    by_cases here : j = m
    · subst here
      exact (Function.update_self j b s.slave.irr).trans
        (Function.update_self (8 + j) b l.pending).symm
    · have apart : 8 + j ≠ 8 + m := by omega
      exact (Function.update_of_ne here _ _).trans ((same.high j below).trans
        (Function.update_of_ne apart _ _).symm)
  masked := same.masked

theorem cleared_low (n : Nat) :
    Corresponds { s with master := { s.master with isr := Function.update s.master.isr n false } } l :=
  { same with master := idle_cleared same.master n }

theorem cleared_high (n : Nat) :
    Corresponds { s with slave := { s.slave with isr := Function.update s.slave.isr n false } } l :=
  { same with slave := idle_cleared same.slave n }

theorem interrupt (withdrawn : Bool) : (s.interrupt withdrawn).1 = (l.interrupt withdrawn).1 ∧
    Corresponds (s.interrupt withdrawn).2 (l.interrupt withdrawn).2 := by
  obtain ⟨offset₁, offset₂⟩ := same.offsets
  rcases same.next_cases with ⟨quiet, none'⟩ | ⟨n, inside, other, asked, next⟩ | ⟨m, inside, asked, wanted, next⟩
  · rw [Latches.interrupt, Latches.acknowledge, quiet, Lines.interrupt, none']
    exact ⟨rfl, same⟩
  · rw [Lines.interrupt, next, Latches.interrupt, Latches.acknowledge, asked]
    simp only [if_neg other, offset₁]
    cases withdrawn with
    | true =>
      have spurious : (0x20#8).toNat + 7 - 32 = 7 := rfl
      have vector : 32 ≤ (0x20#8).toNat + 7 ∧ (0x20#8).toNat + 7 ≤ 47 := by decide
      simp only [if_true, if_pos vector, spurious, if_pos inside]
      rw [picEoi_low _ (by decide), eoi_idle (c := s.master.withdraw n) same.master]
      exact ⟨trivial, same.requested_low inside other false⟩
    | false =>
      have number : (0x20#8).toNat + n - 32 = n := Nat.add_sub_cancel_left 32 n
      have vector : 32 ≤ (0x20#8).toNat + n ∧ (0x20#8).toNat + n ≤ 47 := ⟨Nat.le_add_right 32 n, by
        change 32 + n ≤ 47
        omega⟩
      simp only [Bool.false_eq_true, if_false, if_pos vector, number]
      rw [picEoi_low _ inside, Latch.serve]
      simp only [eoi_served same.master inside]
      exact ⟨trivial, (same.requested_low inside other false).cleared_low n⟩
  · rw [Lines.interrupt, next, Latches.interrupt, Latches.acknowledge, asked]
    have high : ¬ 8 + m < 8 := by omega
    simp only [if_true, wanted, offset₂, if_neg high]
    cases withdrawn with
    | true =>
      have spurious : (0x28#8).toNat + 7 - 32 = 15 := rfl
      have vector : 32 ≤ (0x28#8).toNat + 7 ∧ (0x28#8).toNat + 7 ≤ 47 := by decide
      simp only [if_true, if_pos vector, spurious]
      rw [picEoi_high _ (by decide)]
      simp only [eoi_served same.master (n := 2) (by decide),
        eoi_idle (c := s.slave.withdraw m) same.slave]
      exact ⟨trivial, (same.requested_high m false).cleared_low 2⟩
    | false =>
      have number : (0x28#8).toNat + m - 32 = 8 + m := by
        change 40 + m - 32 = 8 + m
        omega
      have vector : 32 ≤ (0x28#8).toNat + m ∧ (0x28#8).toNat + m ≤ 47 := by
        change 32 ≤ 40 + m ∧ 40 + m ≤ 47
        omega
      simp only [Bool.false_eq_true, if_false, if_pos vector, number]
      rw [picEoi_high _ (by omega), Latch.serve]
      simp only [eoi_served same.master (n := 2) (by decide), eoi_served same.slave inside]
      exact ⟨trivial, ((same.requested_high m false).cleared_low 2).cleared_high m⟩

theorem raise (line : Pic.Line) (b : Bool) :
    Corresponds (if line.val < 8 then
        { s with master := { s.master with irr := Function.update s.master.irr line b } }
      else { s with slave := { s.slave with irr := Function.update s.slave.irr (line - 8) b } })
      { l with pending := Function.update l.pending line b } := by
  obtain ⟨n, bound, other⟩ := line
  by_cases low : n < 8
  · simp only [if_pos low]
    exact same.requested_low low other b
  · have place : 8 + (n - 8) = n := by omega
    have moved := same.requested_high (n - 8) b
    rw [place] at moved
    simp only [if_neg low]
    exact moved

theorem remask (irq : Irq) (v : Byte) (b : Bool)
    (written : ∀ j < 8, v.getLsbD j =
      if j = Pic.irqBit irq then b else (s.toPic.inb (Pic.irqPort irq)).getLsbD j) :
    Corresponds (s.outb (Pic.irqPort irq) v) { l with masked := Function.update l.masked irq b } := by
  obtain ⟨irq, bound⟩ := irq
  rw [Pic.inb_line] at written
  obtain ⟨icw₁, icw₂⟩ := same.ready
  by_cases low : irq < 8
  · have port : Pic.irqPort irq = Pic.pic1Data := if_pos low
    have stored : s.outb Pic.pic1Data v =
        { s with master := { s.master with chip := { s.master.chip with imr := v } } } := by
      simp [Latches.outb, Latch.data, Chip.data, icw₁, Pic.pic1Data, Pic.pic1Cmd]
    simp only [port, stored]
    simp only [Pic.irqBit, if_pos low] at written
    refine { same with masked := fun j below => ?_ }
    change _ = Function.update l.masked irq b j
    by_cases here : j = irq
    · subst here
      rw [Function.update_self, Pic.masked, if_pos low]
      exact (written j low).trans (if_pos rfl)
    · rw [Function.update_of_ne here, ← same.masked j below, Pic.masked, Pic.masked]
      by_cases first : j < 8
      · rw [if_pos first, if_pos first]
        exact (written j first).trans (if_neg here)
      · rw [if_neg first, if_neg first]
        rfl
  · have port : Pic.irqPort irq = Pic.pic2Data := if_neg low
    have stored : s.outb Pic.pic2Data v =
        { s with slave := { s.slave with chip := { s.slave.chip with imr := v } } } := by
      simp [Latches.outb, Latch.data, Chip.data, icw₂, Pic.pic1Data, Pic.pic1Cmd, Pic.pic2Data,
        Pic.pic2Cmd]
    simp only [port, stored]
    simp only [Pic.irqBit, if_neg low] at written
    refine { same with masked := fun j below => ?_ }
    change _ = Function.update l.masked irq b j
    by_cases here : j = irq
    · subst here
      rw [Function.update_self, Pic.masked, if_neg low]
      exact (written (j - 8) (by omega)).trans (if_pos rfl)
    · rw [Function.update_of_ne here, ← same.masked j below, Pic.masked, Pic.masked]
      by_cases first : j < 8
      · rw [if_pos first, if_pos first]
        rfl
      · rw [if_neg first, if_neg first]
        exact (written (j - 8) (by omega)).trans (if_neg (by omega))

theorem step (e : Event) : (s.step e).1 = (l.step e).1 ∧ Corresponds (s.step e).2 (l.step e).2 := by
  cases e with
  | raise line => exact ⟨rfl, same.raise line true⟩
  | withdraw line => exact ⟨rfl, same.raise line false⟩
  | enable irq =>
    refine ⟨rfl, same.remask irq _ false fun j below => ?_⟩
    rw [Pic.clear_bit _ _ _ below]
    by_cases here : j = Pic.irqBit irq
    · simp [here]
    · simp [here]
  | disable irq =>
    refine ⟨rfl, same.remask irq _ true fun j below => ?_⟩
    rw [Pic.set_bit _ _ _ below]
    by_cases here : j = Pic.irqBit irq
    · simp [here]
    · simp [here]
  | interrupt withdrawn => exact same.interrupt withdrawn

theorem run (events : List Event) :
    (Latches.run events s).1 = (Lines.run events l).1 ∧
      Corresponds (Latches.run events s).2 (Lines.run events l).2 := by
  induction events generalizing s l with
  | nil => exact ⟨rfl, same⟩
  | cons e events ih =>
    obtain ⟨irq, after⟩ := same.step e
    obtain ⟨irqs, final⟩ := ih after
    refine ⟨?_, final⟩
    rw [Latches.run, Lines.run]
    simp only [irq, irqs]

end Corresponds

def quietLines : Lines where
  pending _ := false
  masked _ := true

theorem command_chip (c : Latch) (v : Byte) : (c.command v).chip = c.chip.command v := by
  rw [Latch.command, Chip.command]
  by_cases init : v &&& 0x10#8 ≠ 0#8
  · simp only [if_pos init]
  · rw [if_neg init, if_neg init]
    split
    next =>
      split
      next => rfl
      next => rfl
    next => rfl

theorem outb_toPic (s : Latches) (port : Nat) (v : Byte) :
    (s.outb port v).toPic = s.toPic.outb port v := by
  rw [Latches.outb, Pic.outb]
  split
  next => exact congrArg (Pic.mk · s.slave.chip) (command_chip s.master v)
  next =>
    split
    next => rfl
    next =>
      split
      next => exact congrArg (Pic.mk s.master.chip) (command_chip s.slave v)
      next =>
        split
        next => rfl
        next => rfl

theorem picInit_toPic (s : Latches) : s.picInit.toPic = s.toPic.picInit := by
  simp only [Latches.picInit, Pic.picInit, outb_toPic]

theorem picInit_corresponds (s : Latches) : Corresponds s.picInit quietLines := by
  have init := Pic.picInit_eq s.toPic
  rw [← picInit_toPic] at init
  have requests : s.picInit.master.irr = (fun _ => false) ∧ s.picInit.slave.irr = (fun _ => false) ∧
      s.picInit.master.isr = (fun _ => false) ∧ s.picInit.slave.isr = (fun _ => false) := by
    simp [Latches.picInit, Latches.outb, Pic.pic1Cmd, Pic.pic1Data, Pic.pic2Cmd, Pic.pic2Data,
      Latch.command, Latch.data]
  obtain ⟨irr₁, irr₂, isr₁, isr₂⟩ := requests
  have master := congrArg Pic.master init
  have slave := congrArg Pic.slave init
  refine ⟨fun n _ => congrFun isr₁ n, fun n _ => congrFun isr₂ n,
    ⟨congrArg Chip.icw master, congrArg Chip.icw slave⟩, ⟨congrArg Chip.offset master, congrArg Chip.offset slave⟩,
    fun n _ _ => congrFun irr₁ n, fun n _ => congrFun irr₂ (8 + n), fun n below => ?_⟩
  rw [picInit_toPic]
  exact Pic.masked_init below

/-- From any state of the chips, after `pic_init` and in every order of requests, withdrawn requests, mask changes and
interrupts, the lines are dispatched as one queue in the order of their priorities, and between interrupts no line is
in service. -/
theorem run_lines (s : Latches) (events : List Event) :
    (Latches.run events s.picInit).1 = (Lines.run events quietLines).1 ∧
      ∀ n < 8, (Latches.run events s.picInit).2.master.isr n = false ∧
        (Latches.run events s.picInit).2.slave.isr n = false := by
  obtain ⟨irqs, final⟩ := (picInit_corresponds s).run events
  exact ⟨irqs, fun n below => ⟨final.master n below, final.slave n below⟩⟩

end PicService

end NovaKernel
