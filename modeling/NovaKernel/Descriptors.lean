import NovaKernel.IsrStubs

set_option autoImplicit false

namespace NovaKernel

namespace Descriptors

abbrev Half := BitVec 16

structure GdtEntry where
  limitLow : Half
  baseLow : Half
  baseMid : Byte
  access : Byte
  granularity : Byte
  baseHigh : Byte

structure IdtEntry where
  baseLow : Half
  sel : Half
  zero : Byte
  flags : Byte
  baseHigh : Half

def GdtEntry.blank : GdtEntry := ⟨0, 0, 0, 0, 0, 0⟩

def IdtEntry.blank : IdtEntry := ⟨0, 0, 0, 0, 0⟩

def GdtEntry.set (base limit : Word) (access gran : Byte) : GdtEntry where
  limitLow := (limit &&& 0xFFFF#32).setWidth 16
  baseLow := (base &&& 0xFFFF#32).setWidth 16
  baseMid := ((base >>> 16) &&& 0xFF#32).setWidth 8
  access := access
  granularity := ((limit >>> 16) &&& 0x0F#32).setWidth 8 ||| (gran &&& 0xF0#8)
  baseHigh := ((base >>> 24) &&& 0xFF#32).setWidth 8

def IdtEntry.set (base : Word) (sel : Half) (flags : Byte) : IdtEntry where
  baseLow := (base &&& 0xFFFF#32).setWidth 16
  baseHigh := ((base >>> 16) &&& 0xFFFF#32).setWidth 16
  sel := sel
  zero := 0
  flags := flags

/-- The tables with the limits and the task register the CPU holds, and the memory of the TSS. -/
structure Tables where
  gdt : Nat → GdtEntry
  idt : Nat → IdtEntry
  gdtLimit : Nat
  idtLimit : Nat
  tr : Nat
  memory : Word → Word

namespace Tables

def gdtSetEntry (i : Nat) (base limit : Word) (access gran : Byte) (t : Tables) : Tables :=
  { t with gdt := Function.update t.gdt i (GdtEntry.set base limit access gran) }

def gdtInit (t : Tables) : Tables :=
  let t := t.gdtSetEntry 0 0 0 0 0
  let t := t.gdtSetEntry 1 0 0xFFFFF 0x9A 0xCF
  let t := t.gdtSetEntry 2 0 0xFFFFF 0x92 0xCF
  let t := t.gdtSetEntry 3 0 0xFFFFF 0xFA 0xCF
  let t := t.gdtSetEntry 4 0 0xFFFFF 0xF2 0xCF
  { t with gdtLimit := 8 * 6 - 1 }

def gdtSetTss (base limit : Word) (t : Tables) : Tables := t.gdtSetEntry 5 base limit 0x89 0x00

def idtSetEntry (n : Nat) (base : Word) (sel : Half) (flags : Byte) (t : Tables) : Tables :=
  { t with idt := Function.update t.idt n (IdtEntry.set base sel flags) }

def setStub (stub : Nat → Word) (t : Tables) (i : Nat) : Tables :=
  let vec := if i < 48 then i else 128
  let flags := if vec = 128 then 0xEE#8 else 0x8E#8
  t.idtSetEntry vec (stub vec) 0x08 flags

def idtInit (stub : Nat → Word) (t : Tables) : Tables :=
  let t := (List.range 49).foldl (setStub stub) { t with idt := fun _ => IdtEntry.blank }
  { t with idtLimit := 8 * 256 - 1 }

def setWord (a v : Word) (t : Tables) : Tables := { t with memory := Function.update t.memory a v }

-- The TSS is 104 bytes long, with `esp0` at offset 4 and `ss0` at offset 8.
def userInit (tss sysStackTop : Word) (t : Tables) : Tables :=
  let t := { t with memory := fun a => if (a - tss).toNat < 104 then 0 else t.memory a }
  let t := t.setWord (tss + 8) 0x10
  let t := t.setWord (tss + 4) sysStackTop
  { t.gdtSetTss tss (104 - 1) with tr := 0x28 }

def userSetKernelStack (tss top : Word) (t : Tables) : Tables :=
  if top ≠ 0 then t.setWord (tss + 4) top else t

end Tables

namespace GdtEntry

variable (e : GdtEntry)

def base : Nat := e.baseLow.toNat + e.baseMid.toNat * 2 ^ 16 + e.baseHigh.toNat * 2 ^ 24

-- With the granularity bit the limit counts pages.
def limit : Nat :=
  let raw := e.limitLow.toNat + e.granularity.toNat % 16 * 2 ^ 16
  if e.granularity.getLsbD 7 then raw * 0x1000 + 0xFFF else raw

def present : Bool := e.access.getLsbD 7

def dpl : Nat := e.access.toNat / 32 % 4

def segment : Bool := e.access.getLsbD 4

def executable : Bool := e.access.getLsbD 3

def writable : Bool := e.access.getLsbD 1

end GdtEntry

namespace IdtEntry

variable (e : IdtEntry)

def offset : Nat := e.baseLow.toNat + e.baseHigh.toNat * 2 ^ 16

def present : Bool := e.flags.getLsbD 7

def dpl : Nat := e.flags.toNat / 32 % 4

def kind : Nat := e.flags.toNat % 32

end IdtEntry

/-- How the CPU answers an interrupt: it enters a handler, on another stack if the handler is more privileged, or it
raises an exception with an error code. -/
inductive Delivery
  | enters (stack : Option (Nat × Nat)) (cs eip : Nat) (masks : Bool)
  | fault (vector code : Nat)

namespace Tables

variable (t : Tables)

def segmentOf (selector : Nat) : GdtEntry := t.gdt (selector / 8)

def holds (selector : Nat) : Bool := 8 ≤ selector && selector / 8 * 8 + 7 ≤ t.gdtLimit

def tssWord (offset : Nat) : Nat :=
  (t.memory (BitVec.ofNat 32 ((t.segmentOf t.tr).base + offset))).toNat

def innerStack (dpl : Nat) : Option (Nat × Nat) :=
  let ss := t.tssWord (8 + 8 * dpl)
  let s := t.segmentOf ss
  if t.holds ss && ss % 4 == dpl && s.segment && !s.executable && s.writable && s.dpl == dpl && s.present then
    some (ss, t.tssWord (4 + 8 * dpl))
  else none

def ext (software : Bool) : Nat := if software then 0 else 1

def deliver (software : Bool) (cpl n : Nat) : Delivery :=
  let gate := t.idt n
  let sel := gate.sel.toNat
  let code := t.segmentOf sel
  if t.idtLimit < 8 * n + 7 then .fault 13 (8 * n + 2 + ext software)
  else if gate.kind ≠ 0x0E ∧ gate.kind ≠ 0x0F then .fault 13 (8 * n + 2 + ext software)
  else if software = true ∧ gate.dpl < cpl then .fault 13 (8 * n + 2 + ext software)
  else if gate.present = false then .fault 11 (8 * n + 2 + ext software)
  else if t.holds sel = false then .fault 13 (sel + ext software)
  else if code.segment = false ∨ code.executable = false ∨ cpl < code.dpl then .fault 13 (sel + ext software)
  else if code.present = false then .fault 11 (sel + ext software)
  else if code.limit < gate.offset then .fault 13 (ext software)
  else if code.dpl < cpl then
    match t.innerStack code.dpl with
    | none => .fault 10 (t.tssWord (8 + 8 * code.dpl) + ext software)
    | some stack => .enters (some stack) sel gate.offset (gate.kind == 0x0E)
  else .enters none sel gate.offset (gate.kind == 0x0E)

def interrupt (software : Bool) (n : Nat) (code : Option Nat) (c : Cpu) :
    Except (Nat × Nat) (Nat × Cpu) :=
  match t.deliver software (c.cs % 4) n with
  | .fault vector error => .error (vector, error)
  | .enters stack cs eip masks =>
    let e := match stack with
      | none => c
      | some (ss, esp) => ({ c with ss := ss, esp := esp }.push c.ss).push c.esp
    let e := ((e.push c.eflags).push c.cs).push c.eip
    let e := { e with
      cs := cs
      eflags := if masks then c.eflags - c.eflags / 0x200 % 2 * 0x200 else c.eflags }
    .ok (eip, match code with
      | none => e
      | some v => e.push v)

end Tables

def booted (stub : Nat → Word) (tss sysStackTop : Word) (tops : List Word) (t : Tables) : Tables :=
  tops.foldl (fun t top => t.userSetKernelStack tss top)
    (((t.gdtInit).idtInit stub).userInit tss sysStackTop)

def kernelStack (sysStackTop : Word) (tops : List Word) : Word :=
  tops.foldl (fun esp0 top => if top ≠ 0 then top else esp0) sysStackTop

theorem offset_eq (base : Word) (sel : Half) (flags : Byte) :
    (IdtEntry.set base sel flags).offset = base.toNat := by
  have bound := base.isLt
  have low : base.toNat &&& 65535 = base.toNat % 2 ^ 16 := Nat.and_two_pow_sub_one_eq_mod _ 16
  have high : base.toNat / 2 ^ 16 &&& 65535 = base.toNat / 2 ^ 16 % 2 ^ 16 :=
    Nat.and_two_pow_sub_one_eq_mod _ 16
  simp only [IdtEntry.offset, IdtEntry.set, BitVec.toNat_setWidth, BitVec.toNat_and,
    BitVec.toNat_ushiftRight, BitVec.toNat_ofNat, Nat.shiftRight_eq_div_pow]
  norm_num at low high ⊢
  rw [low, high]
  omega

theorem base_eq (base limit : Word) (access gran : Byte) :
    (GdtEntry.set base limit access gran).base = base.toNat := by
  have bound := base.isLt
  have low : base.toNat &&& 65535 = base.toNat % 2 ^ 16 := Nat.and_two_pow_sub_one_eq_mod _ 16
  have byte : ∀ x : Nat, x &&& 255 = x % 2 ^ 8 := fun x => Nat.and_two_pow_sub_one_eq_mod x 8
  simp only [GdtEntry.base, GdtEntry.set, BitVec.toNat_setWidth, BitVec.toNat_and,
    BitVec.toNat_ushiftRight, BitVec.toNat_ofNat, Nat.shiftRight_eq_div_pow]
  norm_num at low byte ⊢
  rw [low, byte, byte]
  omega

def gate (base : Word) (flags : Byte) : IdtEntry := IdtEntry.set base 0x08 flags

theorem setStub_idt (stub : Nat → Word) (t : Tables) {k : Nat} (inside : k < 48) :
    (t.setStub stub k).idt = Function.update t.idt k (gate (stub k) 0x8E) := by
  have vector : ¬ k = 128 := by omega
  rw [Tables.setStub]
  simp only [if_pos inside, if_neg vector]
  rfl

theorem idt_fold (stub : Nat → Word) (t : Tables) {k : Nat} (small : k ≤ 48) (n : Nat) :
    ((List.range k).foldl (Tables.setStub stub) { t with idt := fun _ => IdtEntry.blank }).idt n =
      if n < k then gate (stub n) 0x8E else IdtEntry.blank := by
  induction k with
  | zero => rfl
  | succ k ih =>
    rw [List.range_succ, List.foldl_append, List.foldl_cons, List.foldl_nil,
      setStub_idt stub _ small]
    by_cases here : n = k
    · subst here
      rw [Function.update_self, if_pos (Nat.lt_succ_self n)]
    · rw [Function.update_of_ne here, ih (Nat.le_of_succ_le small)]
      by_cases below : n < k
      · rw [if_pos below, if_pos (Nat.lt_succ_of_lt below)]
      · rw [if_neg below, if_neg (by omega)]

theorem idtInit_idt (stub : Nat → Word) (t : Tables) (n : Nat) : (t.idtInit stub).idt n =
    if n = 128 then gate (stub 128) 0xEE else if n < 48 then gate (stub n) 0x8E else IdtEntry.blank := by
  have last : ∀ u : Tables, (u.setStub stub 48).idt =
      Function.update u.idt 128 (gate (stub 128) 0xEE) := fun _ => rfl
  have whole : (t.idtInit stub).idt =
      (Tables.setStub stub ((List.range 48).foldl (Tables.setStub stub) { t with idt := fun _ => IdtEntry.blank })
        48).idt := by
    rw [Tables.idtInit, List.range_succ, List.foldl_append, List.foldl_cons, List.foldl_nil]
  rw [whole, last]
  by_cases call : n = 128
  · subst call
    rw [Function.update_self, if_pos rfl]
  · rw [Function.update_of_ne call, if_neg call, idt_fold stub t (Nat.le_refl 48)]

structure Installed (stub : Nat → Word) (esp0 : Word) (t : Tables) : Prop where
  idt : ∀ n, t.idt n =
    if n = 128 then gate (stub 128) 0xEE else if n < 48 then gate (stub n) 0x8E else IdtEntry.blank
  code : t.gdt 1 = GdtEntry.set 0 0xFFFFF 0x9A 0xCF
  data : t.gdt 2 = GdtEntry.set 0 0xFFFFF 0x92 0xCF
  limits : t.gdtLimit = 47 ∧ t.idtLimit = 2047
  ss0 : t.tssWord 8 = 0x10
  esp0 : t.tssWord 4 = esp0.toNat

theorem tss_place (tss : Word) (offset : Nat) :
    BitVec.ofNat 32 (tss.toNat + offset) = tss + BitVec.ofNat 32 offset := by
  rw [BitVec.ofNat_add, BitVec.ofNat_toNat, BitVec.setWidth_eq]

section Boot

variable (stub : Nat → Word) (tss sysStackTop : Word) (t : Tables)

theorem idtInit_gdt : (t.idtInit stub).gdt = t.gdt ∧ (t.idtInit stub).gdtLimit = t.gdtLimit := by
  have kept : ∀ (l : List Nat) (u : Tables), (l.foldl (Tables.setStub stub) u).gdt = u.gdt ∧
      (l.foldl (Tables.setStub stub) u).gdtLimit = u.gdtLimit := by
    intro l
    induction l with
    | nil => exact fun u => ⟨rfl, rfl⟩
    | cons i l ih => exact fun u => ih (u.setStub stub i)
  rw [Tables.idtInit]
  generalize List.range 49 = l
  exact kept l { t with idt := fun _ => IdtEntry.blank }

theorem userInit_gdt : (t.userInit tss sysStackTop).gdt = Function.update t.gdt 5
    (GdtEntry.set tss (104 - 1) 0x89 0x00) :=
  rfl

theorem userInit_memory : (t.userInit tss sysStackTop).memory = Function.update
    (Function.update (fun a => if (a - tss).toNat < 104 then 0 else t.memory a) (tss + 8) 0x10) (tss + 4) sysStackTop :=
  rfl

theorem userInit_tssWord (offset : Nat) : (t.userInit tss sysStackTop).tssWord offset =
    ((t.userInit tss sysStackTop).memory (tss + BitVec.ofNat 32 offset)).toNat := by
  have register : (t.userInit tss sysStackTop).tr = 0x28 := rfl
  have place : 0x28 / 8 = 5 := rfl
  rw [Tables.tssWord, register, Tables.segmentOf, place, userInit_gdt, Function.update_self,
    base_eq, tss_place]

theorem gdtInit_gdt : t.gdtInit.gdt 1 = GdtEntry.set 0 0xFFFFF 0x9A 0xCF ∧
    t.gdtInit.gdt 2 = GdtEntry.set 0 0xFFFFF 0x92 0xCF := by
  have gdt : t.gdtInit.gdt = Function.update (Function.update (Function.update (Function.update (Function.update t.gdt
      0 (GdtEntry.set 0 0 0 0)) 1 (GdtEntry.set 0 0xFFFFF 0x9A 0xCF)) 2 (GdtEntry.set 0 0xFFFFF 0x92 0xCF))
      3 (GdtEntry.set 0 0xFFFFF 0xFA 0xCF)) 4 (GdtEntry.set 0 0xFFFFF 0xF2 0xCF) := rfl
  rw [gdt]
  constructor
  · rw [Function.update_of_ne (by decide), Function.update_of_ne (by decide),
      Function.update_of_ne (by decide), Function.update_self]
  · rw [Function.update_of_ne (by decide), Function.update_of_ne (by decide), Function.update_self]

theorem installed_init : Installed stub sysStackTop (((t.gdtInit).idtInit stub).userInit tss sysStackTop) := by
  obtain ⟨gdt, limit⟩ := idtInit_gdt stub t.gdtInit
  obtain ⟨code, data⟩ := gdtInit_gdt t
  have idt := idtInit_idt stub t.gdtInit
  have width : (t.gdtInit.idtInit stub).idtLimit = 2047 := by
    rw [Tables.idtInit]
  generalize t.gdtInit.idtInit stub = u at gdt limit idt width ⊢
  refine ⟨idt, ?_, ?_, ⟨limit, width⟩, ?_, ?_⟩
  · rw [userInit_gdt, Function.update_of_ne (by decide), gdt, code]
  · rw [userInit_gdt, Function.update_of_ne (by decide), gdt, data]
  · rw [userInit_tssWord, userInit_memory]
    have place : tss + BitVec.ofNat 32 8 = tss + 8 := rfl
    have apart : tss + 8 ≠ tss + 4 := by
      intro same
      have := congrArg (· - tss) same
      simp at this
    rw [place, Function.update_of_ne apart, Function.update_self]
    rfl
  · rw [userInit_tssWord, userInit_memory]
    have place : tss + BitVec.ofNat 32 4 = tss + 4 := rfl
    rw [place, Function.update_self]

theorem Installed.setStack {u : Tables} {esp0 : Word} (installed : Installed stub esp0 u)
    (base : (u.segmentOf u.tr).base = tss.toNat) (top : Word) :
    Installed stub (if top ≠ 0 then top else esp0) (u.userSetKernelStack tss top) ∧
      ((u.userSetKernelStack tss top).segmentOf (u.userSetKernelStack tss top).tr).base =
        tss.toNat := by
  rw [Tables.userSetKernelStack]
  by_cases some' : top ≠ 0
  · rw [if_pos some', if_pos some']
    have word : ∀ offset, (u.setWord (tss + 4) top).tssWord offset =
        (Function.update u.memory (tss + 4) top (tss + BitVec.ofNat 32 offset)).toNat := by
      intro offset
      have same : ((u.setWord (tss + 4) top).segmentOf (u.setWord (tss + 4) top).tr).base =
          tss.toNat := base
      rw [Tables.tssWord, same, tss_place]
      rfl
    have apart : tss + 8 ≠ tss + 4 := by
      intro same
      have := congrArg (· - tss) same
      simp at this
    refine ⟨⟨installed.idt, installed.code, installed.data, installed.limits, ?_, ?_⟩, base⟩
    · have before := installed.ss0
      rw [Tables.tssWord, base, tss_place] at before
      have place : tss + BitVec.ofNat 32 8 = tss + 8 := rfl
      rw [word, place, Function.update_of_ne apart]
      exact before
    · have place : tss + BitVec.ofNat 32 4 = tss + 4 := rfl
      rw [word, place, Function.update_self]
  · rw [if_neg some', if_neg some']
    exact ⟨installed, base⟩

theorem installed_booted (tops : List Word) :
    Installed stub (kernelStack sysStackTop tops) (booted stub tss sysStackTop tops t) := by
  have later : ∀ (tops : List Word) (u : Tables) (esp0 : Word), Installed stub esp0 u →
      (u.segmentOf u.tr).base = tss.toNat →
      Installed stub (tops.foldl (fun esp0 top => if top ≠ 0 then top else esp0) esp0)
        (tops.foldl (fun t top => t.userSetKernelStack tss top) u) := by
    intro tops
    induction tops with
    | nil => exact fun u esp0 installed _ => installed
    | cons top tops ih =>
      intro u esp0 installed base
      obtain ⟨installed', base'⟩ := installed.setStack stub tss base top
      exact ih _ _ installed' base'
  refine later tops _ sysStackTop (installed_init stub tss sysStackTop t) ?_
  have register : (((t.gdtInit).idtInit stub).userInit tss sysStackTop).tr = 0x28 := rfl
  have place : 0x28 / 8 = 5 := rfl
  rw [register, Tables.segmentOf, place, userInit_gdt, Function.update_self, base_eq]

end Boot

section Entering

variable {stub : Nat → Word} {esp0 : Word} {t : Tables} (installed : Installed stub esp0 t)
include installed

theorem Installed.innerStack : t.innerStack 0 = some (0x10, esp0.toNat) := by
  have held : t.holds 0x10 = true := by
    rw [Tables.holds, installed.limits.1]
    rfl
  have data : t.segmentOf 0x10 = GdtEntry.set 0 0xFFFFF 0x92 0xCF := installed.data
  rw [Tables.innerStack]
  simp only [Nat.mul_zero, Nat.add_zero, installed.ss0, installed.esp0, held, data]
  rfl

theorem Installed.deliver_gate {n : Nat} {base : Word} {flags : Byte}
    (entry : t.idt n = gate base flags) (vector : n < 256) (kind : flags.toNat % 32 = 0x0E)
    (present : flags.getLsbD 7 = true) (software : Bool) (cpl : Nat) :
    t.deliver software cpl n =
      if software = true ∧ flags.toNat / 32 % 4 < cpl then .fault 13 (8 * n + 2 + Tables.ext software)
      else .enters (if cpl = 0 then none else some (0x10, esp0.toNat)) 0x08 base.toNat true := by
  have whole : ¬ t.idtLimit < 8 * n + 7 := by
    rw [installed.limits.2]
    omega
  have sel : (t.idt n).sel.toNat = 0x08 := by
    rw [entry]
    rfl
  have interrupt : (t.idt n).kind = 0x0E := by rw [entry]; exact kind
  have dpl : (t.idt n).dpl = flags.toNat / 32 % 4 := by rw [entry]; rfl
  have there : (t.idt n).present = true := by rw [entry]; exact present
  have offset : (t.idt n).offset = base.toNat := by rw [entry]; exact offset_eq base 0x08 flags
  have held : t.holds 0x08 = true := by
    rw [Tables.holds, installed.limits.1]
    rfl
  have code : t.segmentOf 0x08 = GdtEntry.set 0 0xFFFFF 0x9A 0xCF := installed.code
  have segment : (GdtEntry.set 0 0xFFFFF 0x9A 0xCF).segment = true ∧
      (GdtEntry.set 0 0xFFFFF 0x9A 0xCF).executable = true ∧
        (GdtEntry.set 0 0xFFFFF 0x9A 0xCF).dpl = 0 ∧
      (GdtEntry.set 0 0xFFFFF 0x9A 0xCF).present = true := by decide
  have limit : (GdtEntry.set 0 0xFFFFF 0x9A 0xCF).limit = 0xFFFFFFFF := by decide
  have inside : ¬ 0xFFFFFFFF < base.toNat := by have := base.isLt; omega
  obtain ⟨isSegment, executable, level, ready⟩ := segment
  rw [Tables.deliver]
  simp only [whole, interrupt, sel, dpl, there, offset, held, code, isSegment, executable, level,
    ready, limit, inside,
    installed.innerStack, if_false, ne_eq, not_true, false_and, Bool.true_eq_false, Nat.not_lt_zero,
    or_self, beq_self_eq_true]
  split
  next => rfl
  next =>
    rcases Nat.eq_zero_or_pos cpl with rfl | outer
    · rfl
    · rw [if_pos outer, if_neg (Nat.ne_of_gt outer)]

theorem Installed.deliver_call (software : Bool) (cpl : Nat) (ring : cpl ≤ 3) :
    t.deliver software cpl 128 =
    .enters (if cpl = 0 then none else some (0x10, esp0.toNat)) 0x08 (stub 128).toNat true := by
  have entry := installed.idt 128
  rw [if_pos rfl] at entry
  have low : ¬ (software = true ∧ (0xEE : Byte).toNat / 32 % 4 < cpl) :=
    fun h => absurd h.2 (Nat.not_lt.mpr ring)
  rw [installed.deliver_gate entry (by decide) (by decide) (by decide), if_neg low]

theorem Installed.deliver_stub {n : Nat} (stubbed : n < 48) (software : Bool) (cpl : Nat) :
    t.deliver software cpl n =
    if software = true ∧ 0 < cpl then .fault 13 (8 * n + 2 + Tables.ext software)
    else .enters (if cpl = 0 then none else some (0x10, esp0.toNat)) 0x08 (stub n).toNat true := by
  have entry := installed.idt n
  have other : ¬ n = 128 := by omega
  rw [if_neg other, if_pos stubbed] at entry
  exact installed.deliver_gate entry (by omega) (by decide) (by decide) software cpl

theorem Installed.deliver_blank {n : Nat} (vector : n < 256) (noStub : ¬ n < 48) (other : n ≠ 128)
    (software : Bool)
    (cpl : Nat) : t.deliver software cpl n = .fault 13 (8 * n + 2 + Tables.ext software) := by
  have entry := installed.idt n
  rw [if_neg other, if_neg noStub] at entry
  have whole : ¬ t.idtLimit < 8 * n + 7 := by
    rw [installed.limits.2]
    omega
  have kind : (t.idt n).kind = 0 := by
    rw [entry]
    rfl
  rw [Tables.deliver]
  simp only [whole, kind, if_false]
  rfl

end Entering

/-- In the kernel's tables, with any calls of `user_set_kernel_stack` made so far, an exception or an IRQ starts its
stub with what `Cpu.gate` pushes on the last stack that was set, an `int` does so in ring 0 and, for the system calls
alone, in ring 3, and any other vector is a general protection fault. -/
theorem interrupt_gate (stub : Nat → Word) (tss sysStackTop : Word) (tops : List Word) (t : Tables)
    (c : Cpu) (ring : c.cs % 4 = 0 ∨ c.cs % 4 = 3) (software : Bool) (n : Fin 256)
    (code : Option Nat) :
    (booted stub tss sysStackTop tops t).interrupt software n code c =
      if (n < 48 ∨ n = 128) ∧ ¬ (software = true ∧ c.fromUser = true ∧ n ≠ 128) then
        .ok ((stub n).toNat, c.gate (kernelStack sysStackTop tops).toNat code)
      else .error (13, 8 * n.val + 2 + Tables.ext software) := by
  have installed := installed_booted stub tss sysStackTop t tops
  generalize booted stub tss sysStackTop tops t = tables at installed ⊢
  have entered : ∀ base : Word, tables.deliver software (c.cs % 4) n =
      .enters (if c.cs % 4 = 0 then none else some (0x10, (kernelStack sysStackTop tops).toNat)) 0x08
        base.toNat true →
      tables.interrupt software n code c =
        .ok (base.toNat, c.gate (kernelStack sysStackTop tops).toNat code) := by
    intro base delivery
    rw [Tables.interrupt, delivery]
    rcases ring with kernel | user
    · have inner : c.fromUser = false := decide_eq_false (by omega)
      simp only [if_pos kernel, Cpu.gate, inner, Bool.false_eq_true, if_false]
      rfl
    · have outer : c.fromUser = true := decide_eq_true user
      have level : ¬ c.cs % 4 = 0 := by omega
      simp only [if_neg level, Cpu.gate, outer, if_true]
      rfl
  have refused : tables.deliver software (c.cs % 4) n =
    .fault 13 (8 * n + 2 + Tables.ext software) →
      tables.interrupt software n code c = .error (13, 8 * n.val + 2 + Tables.ext software) := by
    intro delivery
    rw [Tables.interrupt, delivery]
  have number : n = 128 ↔ n.val = 128 := by omega
  by_cases call : n.val = 128
  · have open' : (n < 48 ∨ n = 128) ∧ ¬ (software = true ∧ c.fromUser = true ∧ n ≠ 128) :=
      ⟨.inr (number.mpr call), fun h => h.2.2 (number.mpr call)⟩
    rw [if_pos open']
    refine entered _ ?_
    rw [call]
    exact installed.deliver_call software _ (by omega)
  by_cases stubbed : n.val < 48
  · have delivery := installed.deliver_stub stubbed software (c.cs % 4)
    by_cases closed : software = true ∧ 0 < c.cs % 4
    · have user : c.fromUser = true := decide_eq_true (by omega)
      rw [if_neg fun h => h.2 ⟨closed.1, user, fun same => call (number.mp same)⟩]
      exact refused (delivery.trans (if_pos closed))
    · have open' : (n < 48 ∨ n = 128) ∧ ¬ (software = true ∧ c.fromUser = true ∧ n ≠ 128) := by
        refine ⟨.inl stubbed, fun h => closed ⟨h.1, ?_⟩⟩
        have user : c.cs % 4 = 3 := of_decide_eq_true h.2.1
        omega
      rw [if_pos open']
      exact entered _ (delivery.trans (if_neg closed))
  · have neither : ¬ (n < 48 ∨ n = 128) := fun h => h.elim stubbed fun same => call (number.mp same)
    rw [if_neg fun h => neither h.1]
    exact refused (installed.deliver_blank n.isLt stubbed call software _)

def calling : Cpu :=
  ⟨0x23, 0x23, 0x23, 0x23, 0, 0, 0, 0xBFFFF0, 0, 0, 0, 1, 0x400000, 0x1B, 0x202, 0x23, fun _ => 0⟩

theorem interrupt_gate_call :
    (booted (fun n => BitVec.ofNat 32 (0x100000 + 16 * n)) 0x120000 0x130000 [0x140000, 0, 0x150000]
      ⟨fun _ => .blank, fun _ => .blank, 0, 0, 0, fun _ => 0⟩).interrupt true 128 none calling =
      .ok (0x100800, calling.gate 0x150000 none) := by
  have answer := interrupt_gate (fun n => BitVec.ofNat 32 (0x100000 + 16 * n)) 0x120000 0x130000
    [0x140000, 0, 0x150000] ⟨fun _ => .blank, fun _ => .blank, 0, 0, 0, fun _ => 0⟩ calling (by decide) true 128
    none
  exact answer.trans (if_pos (by decide))

end Descriptors

end NovaKernel
