import NovaKernel.AddrSpacesOps
import NovaKernel.Lib.Transition

set_option autoImplicit false

namespace NovaKernel

open Machine

structure Sys where
  machine : Machine
  live : Finset Nat

inductive Event
  | create (result : Option Nat)
  | mapRegion (cr3 vaddr nbytes : Nat) (ok : Bool)
  | fork (parent : Nat) (result : Option Nat)
  | switch (cr3 : Nat)
  | destroy (cr3 : Nat)
  | cowFault (cr2 : Nat) (err : Word) (resolved : Bool)
  | cacheFill (v : Nat)
  | read (v off : Nat) (value : Byte)
  | write (v off : Nat) (value : Byte)

def InUse (s : Machine) (v : Nat) (t : Translation) : Prop :=
  (v, t) ∈ s.tlb ∨ s.walk v = some t

namespace Machine

def getByte (s : Machine) (frame off : Nat) : Byte :=
  byteAt (s.mem frame (off / 4)) (off % 4)

def putByte (s : Machine) (frame off : Nat) (value : Byte) : Machine :=
  s.setWord frame (off / 4) (setByte (s.mem frame (off / 4)) (off % 4) value)

theorem getByte_putByte (s : Machine) (frame off : Nat) (value : Byte) (g o : Nat) :
    (s.putByte frame off value).getByte g o =
      if g = frame ∧ o = off then value else s.getByte g o := by
  rw [getByte, putByte, setWord_mem]
  by_cases word : g = frame ∧ o / 4 = off / 4
  · rw [if_pos word, byteAt_setByte _ _ (Nat.mod_lt _ (by decide)) (Nat.mod_lt _ (by decide))]
    obtain ⟨rfl, sameWord⟩ := word
    by_cases byte : o % 4 = off % 4
    · have same : o = off := by omega
      simp [same]
    · have other : o ≠ off := fun h => byte (by rw [h])
      simp [byte, other, getByte, sameWord]
  · have other : ¬ (g = frame ∧ o = off) := fun h => word ⟨h.1, by rw [h.2]⟩
    rw [if_neg word, if_neg other, getByte]

end Machine

-- A ring-3 store. The error code of a protection fault on it is P | W | U.
inductive UserWrite (acc : Access) (v off : Nat) (value : Byte) : Machine → Machine → Prop
  | direct {s : Machine} {t : Translation} :
      InUse s v t → t.user = true → t.writable = true →
      UserWrite acc v off value s (s.putByte t.frame off value)
  | retried {s s₁ u : Machine} {t : Translation} :
      InUse s v t → t.user = true → t.writable = false →
      pagingCowFault acc s (v * 0x1000 + off) 7 = some (true, s₁) →
      UserWrite acc v off value s₁ u → UserWrite acc v off value s u

inductive Step (acc : Access) : Sys → Event → Sys → Prop
  | create {s : Sys} {result : Option Nat} {m : Machine} :
      pagingCreateAddrSpace acc s.machine = some (result, m) →
      Step acc s (.create result) ⟨m, result.elim s.live fun pd => insert pd s.live⟩
  | mapRegion {s : Sys} {cr3 vaddr nbytes : Nat} {ok : Bool} {m : Machine} :
      cr3 ∈ s.live → userPgStart * 0x1000 ≤ vaddr → vaddr + nbytes ≤ userPgEnd * 0x1000 →
      pagingMapUserRegion acc s.machine cr3 vaddr nbytes = some (ok, m) →
      Step acc s (.mapRegion cr3 vaddr nbytes ok) ⟨m, s.live⟩
  | fork {s : Sys} {parent : Nat} {result : Option Nat} {m : Machine} :
      parent ∈ s.live → pagingForkAddrSpace acc s.machine parent = some (result, m) →
      Step acc s (.fork parent result) ⟨m, result.elim s.live fun pd => insert pd s.live⟩
  | switch {s : Sys} {cr3 : Nat} :
      cr3 ∈ s.live ∨ cr3 = kernelPd →
      Step acc s (.switch cr3) ⟨s.machine.pagingSwitch cr3, s.live⟩
  | destroy {s : Sys} {cr3 : Nat} {m : Machine} :
      cr3 ∈ s.live → pagingDestroyAddrSpace acc s.machine cr3 = some m →
      Step acc s (.destroy cr3) ⟨m, s.live.erase cr3⟩
  | cowFault {s : Sys} {cr2 : Nat} {err : Word} {resolved : Bool} {m : Machine} :
      Loaded s.machine s.live → cr2 < 2 ^ 32 →
      pagingCowFault acc s.machine cr2 err = some (resolved, m) →
      Step acc s (.cowFault cr2 err resolved) ⟨m, s.live⟩
  | cacheFill {s : Sys} {v : Nat} {t : Translation} :
      v < 2 ^ 20 → s.machine.walk v = some t →
      Step acc s (.cacheFill v) ⟨{ s.machine with tlb := (v, t) :: s.machine.tlb }, s.live⟩
  | read {s : Sys} {v off : Nat} {t : Translation} :
      s.machine.cr3 ∈ s.live → v < 2 ^ 20 → off < 0x1000 → InUse s.machine v t → t.user = true →
      Step acc s (.read v off (s.machine.getByte t.frame off)) s
  | write {s : Sys} {v off : Nat} {value : Byte} {m : Machine} :
      s.machine.cr3 ∈ s.live → v < 2 ^ 20 → off < 0x1000 → UserWrite acc v off value s.machine m →
      Step acc s (.write v off value) ⟨m, s.live⟩

/-! The reference machine: every process has a private memory and fork copies all of it. -/

structure RefState where
  spaces : Nat → Option (Nat → Option (Nat → Byte))
  current : Nat

def RefState.set (r : RefState) (pd : Nat) (memory : Option (Nat → Option (Nat → Byte))) :
    RefState :=
  { r with spaces := Function.update r.spaces pd memory }

def InRegion (vaddr nbytes page : Nat) : Prop :=
  ∃ addr, vaddr ≤ addr ∧ addr < vaddr + nbytes ∧ addr / 0x1000 = page

inductive RefStep : RefState → Event → RefState → Prop
  | notCreated {r : RefState} : RefStep r (.create none) r
  | created {r : RefState} {pd : Nat} :
      r.spaces pd = none → RefStep r (.create (some pd)) (r.set pd (some fun _ => none))
  -- A new page starts with whatever its frame held.
  | mapped {r : RefState} {pd vaddr nbytes : Nat} {ok : Bool} {memory memory' : Nat → Option (Nat → Byte)} :
      r.spaces pd = some memory →
      (∀ page, memory' page = memory page ∨ memory page = none ∧ InRegion vaddr nbytes page) →
      (ok = true → ∀ page, InRegion vaddr nbytes page → memory' page ≠ none) →
      RefStep r (.mapRegion pd vaddr nbytes ok) (r.set pd (some memory'))
  | notForked {r : RefState} {parent : Nat} : RefStep r (.fork parent none) r
  | forked {r : RefState} {parent pd : Nat} {memory : Nat → Option (Nat → Byte)} :
      r.spaces parent = some memory → r.spaces pd = none →
      RefStep r (.fork parent (some pd)) (r.set pd (some memory))
  | switched {r : RefState} {cr3 : Nat} : RefStep r (.switch cr3) { r with current := cr3 }
  | destroyed {r : RefState} {pd : Nat} {memory : Nat → Option (Nat → Byte)} :
      r.spaces pd = some memory → RefStep r (.destroy pd) (r.set pd none)
  | cowFault {r : RefState} {cr2 : Nat} {err : Word} {resolved : Bool} :
      RefStep r (.cowFault cr2 err resolved) r
  | cacheFill {r : RefState} {v : Nat} : RefStep r (.cacheFill v) r
  | read {r : RefState} {v off : Nat} {memory : Nat → Option (Nat → Byte)} {contents : Nat → Byte} :
      r.spaces r.current = some memory → memory v = some contents →
      RefStep r (.read v off (contents off)) r
  | written {r : RefState} {v off : Nat} {value : Byte} {memory : Nat → Option (Nat → Byte)}
      {contents : Nat → Byte} :
      r.spaces r.current = some memory → memory v = some contents →
      RefStep r (.write v off value)
        (r.set r.current (some (Function.update memory v (some (Function.update contents off value)))))

def contents (s : Machine) (pd v : Nat) : Option (Nat → Byte) :=
  if InUserWindow v ∧ hasFlag (s.mem (tableOf s pd) v) pteP = true then
    some (s.getByte (frameOf (s.mem (tableOf s pd) v)))
  else none

def observe (s : Sys) : RefState where
  spaces pd := if pd ∈ s.live then some (contents s.machine pd) else none
  current := s.machine.cr3

theorem RefState.ext' {r r' : RefState} (spaces : ∀ pd, r.spaces pd = r'.spaces pd)
    (current : r.current = r'.current) : r = r' := by
  cases r
  cases r'
  simp only [RefState.mk.injEq]
  exact ⟨funext spaces, current⟩

theorem observe_mem {s : Sys} {pd : Nat} (member : pd ∈ s.live) :
    (observe s).spaces pd = some (contents s.machine pd) := if_pos member

theorem observe_not_mem {s : Sys} {pd : Nat} (dead : pd ∉ s.live) : (observe s).spaces pd = none :=
  if_neg dead

theorem observe_set {s : Sys} {m : Machine} {live : Finset Nat} {pd : Nat}
    {memory : Option (Nat → Option (Nat → Byte))} (current : m.cr3 = s.machine.cr3)
    (own : (if pd ∈ live then some (contents m pd) else none) = memory)
    (members : ∀ a, a ≠ pd → (a ∈ live ↔ a ∈ s.live))
    (others : ∀ a ∈ s.live, a ≠ pd → contents m a = contents s.machine a) :
    observe ⟨m, live⟩ = (observe s).set pd memory := by
  apply RefState.ext' _ current
  intro a
  by_cases hit : a = pd
  · subst hit
    simpa only [RefState.set, Function.update_self, observe] using own
  · simp only [RefState.set, Function.update_of_ne hit, observe, members a hit]
    by_cases member : a ∈ s.live
    · rw [if_pos member, if_pos member, others a member hit]
    · rw [if_neg member, if_neg member]

theorem observe_congr {s : Sys} {m : Machine} (current : m.cr3 = s.machine.cr3)
    (same : ∀ a ∈ s.live, contents m a = contents s.machine a) :
    observe ⟨m, s.live⟩ = observe s := by
  apply RefState.ext' _ current
  intro a
  by_cases member : a ∈ s.live
  · exact (if_pos member).trans ((congrArg some (same a member)).trans (if_pos member).symm)
  · exact (if_neg member).trans (if_neg member).symm

end NovaKernel
