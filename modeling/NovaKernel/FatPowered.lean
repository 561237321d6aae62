import NovaKernel.Lib.Failstop
import NovaKernel.FatMap

set_option autoImplicit false

namespace NovaKernel

open Failstop

/-! The FAT code on a disk that loses its power, next to the same code on one that does not. -/

/-- The accesses from number `n` on fail: the disk keeps what it holds when the power is lost there. -/
def cutAt (n : Nat) : Faults := fun i _ _ => decide (n ≤ i)

-- The power is lost once an access has failed.
def powered (n : Nat) : Halt Io (Nat → Byte) where
  stopped s := n < s.accesses
  kept := Io.disk

def Powered {α : Type} (n : Nat) (call : Ata → Io → α × Io) : Prop :=
  Follows (powered n) (fun s => call (device (cutAt n)) s) fun s => call (device noFaults) s

namespace Powered

section Rules

variable {n : Nat} {α : Type}

theorem tracks {call : Ata → Io → α × Io} (powered' : Powered n call) (s : Io) :
    Tracks (powered n) s (call (device (cutAt n)) s) (call (device noFaults) s) := powered' s

theorem bool {f f' : Io → Bool × Io} {no yes no' yes' : Io → α × Io}
    (first : Follows (powered n) (fun s => f s) fun s => f' s) (failed : Follows (powered n) no no')
    (done : Follows (powered n) yes yes') :
    Follows (powered n) (fun s => match f s with | (false, t) => no t | (true, t) => yes t)
      fun s => match f' s with | (false, t) => no' t | (true, t) => yes' t := by
  intro s
  have first := first s
  dsimp only at first ⊢
  generalize f s = r, f' s = r' at first ⊢
  apply first.through
  intro ok
  cases ok with
  | false => exact failed
  | true => exact done

end Rules

variable (n : Nat)

theorem readSector (lba : Nat) : Powered n fun ata => ata.readSector lba := by
  intro s
  by_cases cut : n ≤ s.accesses
  · have failed : (cutAt n s.accesses false lba || decide (diskSectors ≤ lba)) =
        true := by simp [cutAt, cut]
    simp only [device, if_pos failed]
    exact ⟨fun stopped => ⟨Nat.lt_succ_of_lt stopped, rfl⟩, .inr (Nat.lt_succ_of_le cut)⟩
  · exact ⟨fun stopped => absurd (Nat.le_of_lt stopped) cut,
      .inl (by simp [device, cutAt, noFaults, cut])⟩

theorem writeSector (lba : Nat) (data : Sector) :
    Powered n fun ata => ata.writeSector lba data := by
  intro s
  by_cases cut : n ≤ s.accesses
  · have failed : (cutAt n s.accesses true lba || decide (diskSectors ≤ lba)) =
        true := by simp [cutAt, cut]
    simp only [device, if_pos failed]
    exact ⟨fun stopped => ⟨Nat.lt_succ_of_lt stopped, rfl⟩, .inr (Nat.lt_succ_of_le cut)⟩
  · exact ⟨fun stopped => absurd (Nat.le_of_lt stopped) cut,
      .inl (by simp [device, cutAt, noFaults, cut])⟩

theorem load (lba : Nat) : Powered n fun ata => loadSecbuf ata lba := by
  intro s
  have read := (readSector n lba).tracks s
  simp only [loadSecbuf]
  generalize (device (cutAt n)).readSector lba s =
    r, (device noFaults).readSector lba s = r' at read ⊢
  apply read.through
  intro found
  cases found with
  | none => exact .result _
  | some data => exact fun _ => ⟨fun stopped => ⟨stopped, rfl⟩, .inl rfl⟩

theorem storePatched (lba : Nat) (patch : Io → Sector) :
    Powered n fun ata s => storeSecbuf ata lba { s with secbuf := patch s } := fun s =>
  ⟨(writeSector n lba (patch s) { s with secbuf := patch s }).idle,
    (writeSector n lba (patch s) { s with secbuf := patch s }).agrees⟩

variable (vol : Volume)

theorem fatNextCluster (c : Nat) : Powered n fun ata => fatNextCluster ata vol c := by
  simp only [Powered, NovaKernel.fatNextCluster]
  refine bool (load n _) (.result _) ?_
  by_cases split : (c + c / 2) % 512 = 511
  · simp only [if_pos split]
    intro s
    have second := (load n (vol.fatLba + (c + c / 2) / 512 + 1)).tracks s
    simp only
    generalize loadSecbuf (device (cutAt n)) (vol.fatLba + (c + c / 2) / 512 + 1) s = r,
      loadSecbuf (device noFaults) (vol.fatLba + (c + c / 2) / 512 + 1) s = r' at second ⊢
    apply second.through
    intro ok
    cases ok with
    | false => exact .result _
    | true => exact .result _
  · simp only [if_neg split]
    exact .result _

theorem fatGet (c : Nat) : Powered n fun ata => fatGet ata vol c := fatNextCluster n vol c

theorem fatSetCopy (copy c x : Nat) : Powered n fun ata => fatSetCopy ata vol copy c x := by
  simp only [Powered, NovaKernel.fatSetCopy]
  refine bool (load n _) (.result _) ?_
  by_cases split : (c + c / 2) % 512 = 511
  · simp only [if_pos split]
    refine bool (storePatched n _ _) (.result _) ?_
    refine bool (load n _) (.result _) ?_
    exact storePatched n _ _
  · simp only [if_neg split]
    exact storePatched n _ _

theorem fatSet (c x : Nat) : Powered n fun ata => fatSet ata vol c x := by
  simp only [Powered, NovaKernel.fatSet]
  exact bool (fatSetCopy n vol 0 c x) (.result _) (fatSetCopy n vol 1 c x)

theorem freeChainFrom (guard c : Nat) :
    Powered n fun ata s => ((), freeChainFrom ata vol guard c s) := by
  induction guard generalizing c with
  | zero => exact .result _
  | succ guard ih =>
    by_cases linking : 2 ≤ c ∧ c < 0xFF0
    · have step := (fatGet n vol c).bind fun next => (fatSet n vol c 0).bind fun _ => ih next
      simpa only [Powered, NovaKernel.freeChainFrom, if_pos linking] using step
    · simp only [Powered, NovaKernel.freeChainFrom, if_neg linking]
      exact .result _

theorem zeroSectors (count lba : Nat) : Powered n fun ata => zeroSectors ata count lba := by
  induction count generalizing lba with
  | zero => exact .result _
  | succ count ih =>
    simp only [Powered, NovaKernel.zeroSectors]
    exact bool (storePatched n _ _) (.result _) (ih _)

theorem fatAllocFrom (count c : Nat) : Powered n fun ata => fatAllocFrom ata vol count c := by
  induction count generalizing c with
  | zero => exact .result _
  | succ count ih =>
    have step := (fatGet n vol c).bind fun x => Follows.ite (x = 0)
      (bool (fatSet n vol c 0x0FFF) (.result fun _ => 0)
        (bool (zeroSectors n vol.spc (vol.dataLba + (c - 2) * vol.spc)) (.result fun _ => 0)
          (.result fun _ => c)))
      (ih (c + 1))
    exact step

theorem allocChain (count first prev : Nat) :
    Powered n fun ata => allocChain ata vol count first prev := by
  induction count generalizing first prev with
  | zero => exact .result _
  | succ count ih =>
    -- What is given back when no cluster is left, and the link to a new one.
    have unwind : Powered n fun ata s =>
        ((none : Option Nat), if first ≠ 0 then fatFreeChain ata vol first s else s) := by
      by_cases some' : first ≠ 0
      · simp only [Powered, if_pos some']
        exact (freeChainFrom n vol 65536 first).bind fun _ => .result fun _ => none
      · simp only [Powered, if_neg some']
        exact .result _
    have link : ∀ c, Powered n fun ata s =>
        ((), if prev ≠ 0 then (NovaKernel.fatSet ata vol prev (c % 2 ^ 16) s).2 else s) := by
      intro c
      by_cases some' : prev ≠ 0
      · simp only [Powered, if_pos some']
        exact (fatSet n vol prev (c % 2 ^ 16)).bind fun _ => .result fun _ => ()
      · simp only [Powered, if_neg some']
        exact .result _
    have step := (fatAllocFrom n vol (clustersEnd vol - 2) 2).bind fun c =>
      Follows.ite (c = 0) unwind
      ((link c).bind fun _ => ih (if first = 0 then c else first) c)
    exact step

theorem writeSectors (data : Nat → Byte) (len count lba written : Nat) :
    Powered n fun ata => writeSectors ata data len count lba written := by
  induction count generalizing lba written with
  | zero => exact .result _
  | succ count ih =>
    simp only [Powered, NovaKernel.writeSectors]
    refine .ite _ ?_ (.result _)
    exact bool (storePatched n _ _) (.result _) (ih _ _)

theorem writeChain (data : Nat → Byte) (len first count c written : Nat) :
    Powered n fun ata => writeChain ata vol data len first count c written := by
  induction count generalizing c written with
  | zero => exact .result _
  | succ count ih =>
    simp only [Powered, NovaKernel.writeChain]
    refine .ite _ ?_ (.result _)
    intro s
    generalize vol.dataLba + (c - 2) * vol.spc = lba
    have cluster := (writeSectors n data len vol.spc lba written).tracks s
    dsimp only
    generalize NovaKernel.writeSectors (device (cutAt n)) data len vol.spc lba written s = r,
      NovaKernel.writeSectors (device noFaults) data len vol.spc lba written s = r' at cluster ⊢
    apply cluster.through
    intro done
    cases done with
    | none => exact (freeChainFrom n vol 65536 first).bind fun _ => .result fun _ => false
    | some written' =>
      exact .ite _ ((fatGet n vol c).bind fun next => ih next written') (ih c written')

theorem writeEntry (slot : Slot) (norm : List Byte) (first len : Nat) :
    Powered n fun ata => writeEntry ata slot norm first len := by
  simp only [Powered, NovaKernel.writeEntry]
  exact bool (load n _) (.result _) (storePatched n _ _)

theorem dirFindSlotFrom (norm : List Byte) (count i : Nat) (free : Option (Nat × Nat)) :
    Powered n fun ata => dirFindSlotFrom ata vol norm count i free := by
  induction count generalizing i free with
  | zero => exact .result _
  | succ count ih =>
    simp only [Powered, NovaKernel.dirFindSlotFrom]
    refine bool (load n _) (.result _) fun s => ?_
    split
    next => exact Follows.result (fun _ => _) s
    next => exact ih _ _ s

theorem dropOld (slot : Slot) : Powered n fun ata => dropOld ata vol slot := by
  simp only [Powered, NovaKernel.dropOld]
  refine .ite _ (bool (load n _) (.result _) fun s => ?_) (.result _)
  exact (freeChainFrom n vol 65536 (u16Of s.secbuf (slot.off + 26))).bind
    (fun _ => .result fun _ => true) s

theorem fatDelete (name : List Byte) : Powered n fun ata => fatDelete ata vol name := by
  simp only [Powered, NovaKernel.fatDelete]
  refine .ite _ (.result _) fun s => ?_
  have searched := (dirFindSlotFrom n vol (normName name) vol.rootSectors 0 none).tracks s
  simp only [dirFindSlot]
  generalize NovaKernel.dirFindSlotFrom (device (cutAt n)) vol (normName name) vol.rootSectors 0 none s = r,
    NovaKernel.dirFindSlotFrom (device noFaults) vol (normName name) vol.rootSectors 0 none s =
      r' at searched ⊢
  apply searched.through
  intro found
  cases found with
  | none => exact .result _
  | some slot =>
    refine .ite _ (.result _) (bool (load n _) (.result _) fun s => ?_)
    have marked := bool (storePatched n slot.lba fun s => Function.update s.secbuf slot.off 0xE5)
      (.result fun _ => false)
      ((freeChainFrom n vol 65536 (u16Of s.secbuf (slot.off + 26))).bind fun _ => .result fun _ => true)
    exact marked s

theorem fatWrite (name : List Byte) (data : Nat → Byte) (len : Nat) :
    Powered n fun ata => fatWrite ata vol name data len := by
  -- The count stays folded: the loop would unfold with it.
  obtain ⟨count, need⟩ : ∃ count, clustersFor vol len = count := ⟨_, rfl⟩
  simp only [Powered, NovaKernel.fatWrite, need]
  refine .ite _ (.result _) fun s => ?_
  have searched := (dirFindSlotFrom n vol (normName name) vol.rootSectors 0 none).tracks s
  simp only [dirFindSlot]
  generalize NovaKernel.dirFindSlotFrom (device (cutAt n)) vol (normName name) vol.rootSectors 0 none s = r,
    NovaKernel.dirFindSlotFrom (device noFaults) vol (normName name) vol.rootSectors 0 none s =
      r' at searched ⊢
  apply searched.through
  intro found
  cases found with
  | none => exact .result _
  | some slot =>
    refine bool (dropOld n vol slot) (.result _) fun s => ?_
    have taken := (allocChain n vol count 0 0).tracks s
    generalize NovaKernel.allocChain (device (cutAt n)) vol count 0 0 s = r,
      NovaKernel.allocChain (device noFaults) vol count 0 0 s = r' at taken ⊢
    apply taken.through
    intro first
    cases first with
    | none => exact .result _
    | some first =>
      exact bool (writeChain n vol data len first len first 0) (.result _)
        (writeEntry n slot (normName name) first len)

theorem dirLocate (norm : List Byte) (count i : Nat) :
    Powered n fun ata => dirLocate ata vol norm count i := by
  induction count generalizing i with
  | zero => exact .result _
  | succ count ih =>
    simp only [Powered, NovaKernel.dirLocate]
    refine bool (load n _) (.result _) fun s => ?_
    split
    next => exact Follows.result (fun _ => _) s
    next => exact Follows.result (fun _ => _) s
    next => exact ih _ s

theorem readCluster (fsize max count lba : Nat) (out : List Byte) :
    Powered n fun ata => readCluster ata fsize max count lba out := by
  induction count generalizing lba out with
  | zero => exact .result _
  | succ count ih =>
    simp only [Powered, NovaKernel.readCluster]
    refine .ite _ (fun s => ?_) (.result _)
    have read := (readSector n lba).tracks s
    generalize (device (cutAt n)).readSector lba s =
      r, (device noFaults).readSector lba s = r' at read ⊢
    apply read.through
    intro found
    cases found with
    | none => exact .result _
    | some data => exact ih _ _

theorem readChain (fsize max guard c : Nat) (out : List Byte) :
    Powered n fun ata => readChain ata vol fsize max guard c out := by
  induction guard generalizing c out with
  | zero => exact .result _
  | succ guard ih =>
    simp only [Powered, NovaKernel.readChain]
    refine .ite _ (fun s => ?_) (.result _)
    generalize vol.dataLba + (c - 2) * vol.spc = lba
    have read := (readCluster n fsize max vol.spc lba out).tracks s
    generalize NovaKernel.readCluster (device (cutAt n)) fsize max vol.spc lba out s = r,
      NovaKernel.readCluster (device noFaults) fsize max vol.spc lba out s = r' at read ⊢
    apply read.through
    intro got
    cases got with
    | none => exact .result _
    | some got => exact (fatNextCluster n vol c).bind fun next => ih next got

theorem fatRead (name : List Byte) (max : Nat) : Powered n fun ata => fatRead ata vol name max := by
  simp only [Powered, NovaKernel.fatRead]
  refine .ite _ (.result _) fun s => ?_
  have located := (dirLocate n vol (normName name) vol.rootSectors 0).tracks s
  generalize NovaKernel.dirLocate (device (cutAt n)) vol (normName name) vol.rootSectors 0 s = r,
    NovaKernel.dirLocate (device noFaults) vol (normName name) vol.rootSectors 0 s = r' at located ⊢
  apply located.through
  intro found
  cases found with
  | none => exact .result _
  | some off =>
    intro s
    have read := (readChain n vol (u32Of (entryAt s.secbuf off) 28) max 65536
      (u16Of (entryAt s.secbuf off) 26) []).tracks s
    dsimp only
    generalize NovaKernel.readChain (device (cutAt n)) vol (u32Of (entryAt s.secbuf off) 28) max 65536
        (u16Of (entryAt s.secbuf off) 26) [] s = r,
      NovaKernel.readChain (device noFaults) vol (u32Of (entryAt s.secbuf off) 28) max 65536
        (u16Of (entryAt s.secbuf off) 26) [] s = r' at read ⊢
    apply read.through
    intro got
    cases got with
    | none => exact .result _
    | some out => exact .result _

theorem fatStat (name : List Byte) : Powered n fun ata => fatStat ata vol name := by
  simp only [Powered, NovaKernel.fatStat]
  refine .ite _ (.result _) fun s => ?_
  have located := (dirLocate n vol (normName name) vol.rootSectors 0).tracks s
  generalize NovaKernel.dirLocate (device (cutAt n)) vol (normName name) vol.rootSectors 0 s = r,
    NovaKernel.dirLocate (device noFaults) vol (normName name) vol.rootSectors 0 s = r' at located ⊢
  apply located.through
  intro found
  cases found with
  | none => exact .result _
  | some off => exact .result _

theorem countFree (count c free : Nat) : Powered n fun ata => countFree ata vol count c free := by
  induction count generalizing c free with
  | zero => exact .result _
  | succ count ih =>
    exact (fatGet n vol c).bind fun x =>
      ih (c + 1) (if x = 0 then free + 1 else free)

theorem fatFreeBytes : Powered n fun ata => fatFreeBytes ata vol := by
  simp only [Powered, NovaKernel.fatFreeBytes]
  refine .ite _ (.result _) ?_
  exact (countFree n vol _ 2 0).bind fun free => .result fun _ => free * vol.spc * 512 % 2 ^ 32

theorem onDisk (call : StoreCall) : Powered n fun ata s => call.onDisk ata vol s := by
  cases call with
  | write name data len =>
    exact (fatWrite n vol name data len).bind fun ok => .result fun _ => StoreResult.done ok
  | delete name => exact (fatDelete n vol name).bind fun ok => .result fun _ => StoreResult.done ok
  | stat name =>
    exact (fatStat n vol name).bind fun found => .result fun _ =>
      StoreResult.size (found.map Stat.size)
  | read name max =>
    exact (fatRead n vol name max).bind fun found => .result fun _ =>
      StoreResult.bytes found
  | freeBytes => exact (fatFreeBytes n vol).bind fun free => .result fun _ => StoreResult.free free

theorem run (calls : List StoreCall) : Powered n fun ata => StoreCall.run ata vol calls := by
  induction calls with
  | nil => exact .result _
  | cons call rest ih =>
    exact (onDisk n vol call).bind fun result => ih.bind fun results => .result fun _ =>
      result :: results

end Powered

end NovaKernel
