import NovaKernel.FatPowered

set_option autoImplicit false

namespace NovaKernel

open Linked

namespace Touches

variable {within : Nat → Prop} {v v' : View}

theorem free (touches : Touches within v v') {vol : Volume}
    (unused : ∀ c, Cluster vol c → v.link c = 0 → within c) :
    ∀ c, Cluster vol c → v'.link c = 0 → within c := by
  intro c inside free
  by_contra outside
  rw [touches.link c outside] at free
  exact outside (unused c inside free)

theorem of_eq (same : v' = v) : Touches within v v' := same ▸ .refl within v

end Touches

section Calls

variable {n : Nat}

theorem Powered.still {α : Type} {call : Ata → Io → α × Io} (powered' : Powered n call) {s : Io}
    (lost : n < s.accesses) : (call (device (cutAt n)) s).2.disk = s.disk :=
  ((powered'.tracks s).idle lost).2

theorem Powered.lost {α : Type} {call : Ata → Io → α × Io} (powered' : Powered n call) {s : Io}
    (lost : n < s.accesses) : n < (call (device (cutAt n)) s).2.accesses :=
  ((powered'.tracks s).idle lost).1

theorem Powered.agrees {α : Type} {call : Ata → Io → α × Io} (powered' : Powered n call) (s : Io) :
    call (device (cutAt n)) s = call (device noFaults) s ∨
      n < (call (device (cutAt n)) s).2.accesses :=
  (powered'.tracks s).agrees

theorem stored_powered {lba : Nat} {buf : Sector} {s s' : Io}
    (stored : storeSecbuf (device (cutAt n)) lba { s with secbuf := buf } = (true, s')) :
    ¬ n < s'.accesses := by
  by_cases cut : n ≤ s.accesses
  · simp [storeSecbuf, device, cutAt, cut] at stored
  · by_cases beyond : diskSectors ≤ lba
    · simp [storeSecbuf, device, cutAt, cut, beyond] at stored
    · simp [storeSecbuf, device, cutAt, cut, beyond] at stored
      rw [← stored]
      exact Nat.not_lt.mpr (Nat.lt_of_not_le cut)

end Calls

section Reads

variable (vol : Volume) (faults : Faults)

theorem dirFindSlotFrom_disk (norm : List Byte) (count i : Nat) (free : Option (Nat × Nat))
    (s : Io) :
    (dirFindSlotFrom (device faults) vol norm count i free s).2.disk = s.disk := by
  induction count generalizing i free s with
  | zero => rfl
  | succ count ih =>
    rw [dirFindSlotFrom]
    rcases loadSecbuf_cases faults (vol.rootLba + i) s with ⟨s₁, failed, disk, -⟩ | ⟨s₁, loaded, disk, -⟩
    · rw [failed]
      exact disk
    · rw [loaded]
      dsimp only
      split
      next => exact disk
      next => exact (ih _ _ s₁).trans disk

theorem dirLocate_disk (norm : List Byte) (count i : Nat) (s : Io) :
    (dirLocate (device faults) vol norm count i s).2.disk = s.disk := by
  induction count generalizing i s with
  | zero => rfl
  | succ count ih =>
    rw [dirLocate]
    rcases loadSecbuf_cases faults (vol.rootLba + i) s with ⟨s₁, failed, disk, -⟩ | ⟨s₁, loaded, disk, -⟩
    · rw [failed]
      exact disk
    · rw [loaded]
      dsimp only
      split
      next => exact disk
      next => exact disk
      next => exact (ih _ s₁).trans disk

theorem fatGet_disk (c : Nat) (s : Io) : (fatGet (device faults) vol c s).2.disk = s.disk := by
  obtain ⟨x, s', got, disk, -⟩ := fatGet_cases faults vol c s
  rw [got]
  exact disk

omit vol in
theorem readCluster_disk (fsize max count lba : Nat) (out : List Byte) (s : Io) :
    (readCluster (device faults) fsize max count lba out s).2.disk = s.disk := by
  induction count generalizing lba out s with
  | zero => rfl
  | succ count ih =>
    rw [readCluster]
    split
    next =>
      rcases readSector_cases faults lba s with ⟨s₁, failed, disk, -⟩ | ⟨s₁, read, disk⟩
      · rw [failed]
        exact disk
      · rw [read]
        exact (ih _ _ s₁).trans disk
    next => rfl

theorem readChain_disk (fsize max guard c : Nat) (out : List Byte) (s : Io) :
    (readChain (device faults) vol fsize max guard c out s).2.disk = s.disk := by
  induction guard generalizing c out s with
  | zero => rfl
  | succ guard ih =>
    rw [readChain]
    split
    next =>
      have cluster :=
        readCluster_disk faults fsize max vol.spc (vol.dataLba + (c - 2) * vol.spc) out s
      generalize readCluster (device faults) fsize max vol.spc (vol.dataLba + (c - 2) * vol.spc) out s =
        r at cluster ⊢
      obtain ⟨got, s₁⟩ := r
      cases got with
      | none => exact cluster
      | some got => exact (ih _ _ _).trans ((fatGet_disk vol faults c s₁).trans cluster)
    next => rfl

theorem fatRead_disk (name : List Byte) (max : Nat) (s : Io) :
    (fatRead (device faults) vol name max s).2.disk = s.disk := by
  rw [fatRead]
  split
  next => rfl
  next =>
    have located := dirLocate_disk vol faults (normName name) vol.rootSectors 0 s
    generalize dirLocate (device faults) vol (normName name) vol.rootSectors 0 s = r at located ⊢
    obtain ⟨found, s₁⟩ := r
    cases found with
    | none => exact located
    | some off =>
      have read := readChain_disk vol faults (u32Of (entryAt s₁.secbuf off) 28) max 65536
        (u16Of (entryAt s₁.secbuf off) 26) [] s₁
      dsimp only
      generalize readChain (device faults) vol (u32Of (entryAt s₁.secbuf off) 28) max 65536
        (u16Of (entryAt s₁.secbuf off) 26) [] s₁ = r at read ⊢
      obtain ⟨got, s₂⟩ := r
      cases got with
      | none => exact read.trans located
      | some got => exact read.trans located

theorem fatStat_disk (name : List Byte) (s : Io) :
    (fatStat (device faults) vol name s).2.disk = s.disk := by
  rw [fatStat]
  split
  next => rfl
  next =>
    have located := dirLocate_disk vol faults (normName name) vol.rootSectors 0 s
    generalize dirLocate (device faults) vol (normName name) vol.rootSectors 0 s = r at located ⊢
    obtain ⟨found, s₁⟩ := r
    cases found with
    | none => exact located
    | some off => exact located

theorem countFree_disk (count c free : Nat) (s : Io) :
    (countFree (device faults) vol count c free s).2.disk = s.disk := by
  induction count generalizing c free s with
  | zero => rfl
  | succ count ih => exact (ih _ _ _).trans (fatGet_disk vol faults c s)

theorem fatFreeBytes_disk (s : Io) : (fatFreeBytes (device faults) vol s).2.disk = s.disk := by
  rw [fatFreeBytes]
  split
  next => rfl
  next => exact countFree_disk vol faults _ 2 0 s

end Reads

section Loops

variable {vol : Volume} (geo : Geometry vol) {n : Nat} {within : Nat → Prop}

include geo

theorem fatSet_touches (faults : Faults) {c : Nat} (inside : Cluster vol c) (member : within c)
    {x : Nat} (small : x < 4096) (s : Io) :
    Touches within (view vol s.disk) (view vol (fatSet (device faults) vol c x s).2.disk) := by
  rcases fatSet_cases faults geo inside small s with ⟨s', stored, becomes⟩ | ⟨s', failed, -, partly⟩
  · rw [stored, becomes.shows]
    exact .setLink _ member x
  · rw [failed]
    rcases partly with shows | shows | ⟨shows, -⟩
    · exact .of_eq shows
    · rw [shows]
      exact .setLink _ member x
    · rw [shows]
      exact .setLink _ member _

theorem freeChainFrom_touches {l : List Nat} (guard : Nat) {a : Nat} {s : Io}
    (chain : FatChain vol (view vol s.disk) a l) (members : ∀ c ∈ l, within c) :
    Touches within (view vol s.disk) (view vol (freeChainFrom (device (cutAt n)) vol guard a s).disk) := by
  induction l generalizing guard a s with
  | nil =>
    have unchanged : freeChainFrom (device (cutAt n)) vol guard a s = s := by
      cases chain with
      | nil halted =>
        cases guard with
        | zero => rfl
        | succ guard => rw [freeChainFrom, if_neg (by omega)]
    rw [unchanged]
    exact .refl _ _
  | cons c l ih =>
    have fresh := List.nodup_cons.mp (FatChain.nodup geo chain)
    cases guard with
    | zero => exact .refl _ _
    | succ guard =>
    cases chain with
    | cons inside later =>
      have small := geo.cluster_lt inside
      rw [freeChainFrom, if_pos ⟨inside.1, by omega⟩]
      obtain ⟨x, s₁, got, disk₁, -⟩ := fatGet_view (cutAt n) inside s
      have read := (Powered.fatGet n vol c).agrees s
      rw [got] at read
      simp only [got]
      have stored :=
        fatSet_touches geo (cutAt n) inside (members c (by simp)) (x := 0) (by decide) s₁
      have wrote := (Powered.fatSet n vol c 0).agrees s₁
      rw [disk₁] at stored
      generalize entered : fatSet (device (cutAt n)) vol c 0 s₁ = r at stored wrote
      obtain ⟨ok, s₂⟩ := r
      -- The walk goes on along the chain, or nothing changes any more.
      by_cases lost : n < s₂.accesses
      · exact stored.trans (.of_eq (congrArg (view vol) ((Powered.freeChainFrom n vol guard x).still lost)))
      · have powered₁ : ¬ n < s₁.accesses := fun early => by
          have later := (Powered.fatSet n vol c 0).lost early
          rw [entered] at later
          exact lost later
        obtain ⟨s₁', got', -⟩ := fatGet_ok geo noFaults_reliable inside s
        obtain ⟨rfl, rfl⟩ := Prod.mk.inj ((read.resolve_right powered₁).trans got')
        obtain ⟨s₂', stored', becomes⟩ :=
          fatSet_ok geo noFaults_reliable inside (x := 0) (by decide) s₁
        obtain ⟨rfl, rfl⟩ := Prod.mk.inj ((wrote.resolve_right lost).trans stored')
        rw [disk₁] at becomes
        have rest : FatChain vol (view vol s₂.disk) ((view vol s.disk).link c) l := by
          rw [becomes.shows]
          refine later.congr fun e member => ?_
          rw [View.setLink_link, Function.update_of_ne]
          rintro rfl
          exact fresh.1 member
        exact stored.trans (ih guard rest fun e member => members e (List.mem_cons_of_mem _ member))

theorem fatFreeChain_touches {l : List Nat} {a : Nat} {s : Io}
    (owned : FileChain vol (view vol s.disk) a l) (members : ∀ c ∈ l, within c) :
    Touches within (view vol s.disk) (view vol (fatFreeChain (device (cutAt n)) vol a s).disk) := by
  cases owned with
  | empty =>
    have unchanged : fatFreeChain (device (cutAt n)) vol 0 s = s := by
      rw [fatFreeChain, freeChainFrom, if_neg (by omega)]
    rw [unchanged]
    exact .refl _ _
  | chain chain => exact freeChainFrom_touches geo 65536 chain members

theorem fatAllocCluster_touches (faults : Faults) {s : Io}
    (unused : ∀ c, Cluster vol c → (view vol s.disk).link c = 0 → within c) :
    Touches within (view vol s.disk) (view vol (fatAllocCluster (device faults) vol s).2.disk) := by
  obtain ⟨r, s', call, ⟨-, inside, free, becomes⟩ | ⟨-, touches, -⟩⟩ :=
    fatAllocCluster_cases faults geo s
  · rw [call, becomes.shows]
    exact (Touches.setLink _ (unused r inside free) _).trans (.setData _ (unused r inside free) _)
  · rw [call]
    exact touches.mono fun c both => unused c both.1 both.2

theorem allocChain_touches (count : Nat) {first prev : Nat} {acc : List Nat} {s : Io}
    (pending : Pending vol (view vol s.disk) first prev acc) (members : ∀ c ∈ acc, within c)
    (unused : ∀ c, Cluster vol c → (view vol s.disk).link c = 0 → within c) :
    Touches within (view vol s.disk)
      (view vol (allocChain (device (cutAt n)) vol count first prev s).2.disk) := by
  induction count generalizing first prev acc s with
  | zero => exact .refl _ _
  | succ count ih =>
    have taken := fatAllocCluster_touches geo (cutAt n) unused
    have agrees := (Powered.fatAllocFrom n vol (clustersEnd vol - 2) 2).agrees s
    obtain ⟨c, s₁, alloc, outcome⟩ := fatAllocCluster_cases (cutAt n) geo s
    rw [alloc] at taken
    rw [allocChain, alloc]
    dsimp only
    by_cases found : c = 0
    · -- The clusters so far are given back.
      rw [if_pos found]
      by_cases some' : first = 0
      · simp only [some', ne_eq, not_true_eq_false, if_false]
        exact taken
      · simp only [ne_eq, some', not_false_eq_true, if_true]
        by_cases lost : n < s₁.accesses
        · exact taken.trans (.of_eq (congrArg (view vol) ((Powered.freeChainFrom n vol 65536 first).still lost)))
        · have whole :=
            agrees.resolve_right (by rw [fatAllocCluster] at alloc; rw [alloc]; exact lost)
          obtain ⟨c', s₁', alloc', outcome'⟩ := fatAllocCluster_cases noFaults geo s
          obtain ⟨rfl, rfl⟩ := Prod.mk.inj (alloc.symm.trans (whole.trans alloc'))
          rcases outcome' with ⟨taken', -⟩ | ⟨-, -, same⟩
          · exact absurd found taken'
          · have disk := (same noFaults_reliable).1
            rw [← disk] at pending
            exact taken.trans (fatFreeChain_touches geo (FileChain.of_pending pending) members)
    · rw [if_neg found]
      rcases outcome with ⟨-, inside, free, becomes⟩ | ⟨none', -⟩
      · have small := geo.cluster_lt inside
        have value : c % 2 ^ 16 = c := Nat.mod_eq_of_lt (by omega)
        rw [value]
        have member := unused c inside free
        have pending₂ := pending.append geo inside free
        -- Linking `prev` to the new cluster.
        obtain ⟨s₂, linked, touches, exact'⟩ : ∃ s₂,
            (if prev ≠ 0 then (fatSet (device (cutAt n)) vol prev c s₁).2 else s₁) = s₂ ∧
              Touches within (view vol s₁.disk) (view vol s₂.disk) ∧
              (n < s₂.accesses ∨ view vol s₂.disk = (view vol s.disk).appended prev c) := by
          cases pending with
          | none =>
            refine ⟨s₁, if_neg (by simp), .refl _ _, .inr ?_⟩
            rw [becomes.shows, View.appended, if_neg (by simp)]
          | @some first prev l chain =>
            have ended := chain.inside (c := prev) (by simp)
            have some' : prev ≠ 0 := by
              have := ended.1
              omega
            refine ⟨_, if_pos some', fatSet_touches geo (cutAt n) ended (members prev (by simp)) (by omega) s₁,
              ?_⟩
            refine (Powered.fatSet n vol prev c).agrees s₁ |>.symm.imp id fun same => ?_
            obtain ⟨s₂, stored, becomes₂⟩ :=
              fatSet_ok geo noFaults_reliable ended (x := c) (by omega) s₁
            rw [same, stored, becomes₂.shows, becomes.shows, View.appended, if_pos some']
        rw [linked]
        have both := taken.trans touches
        rcases exact' with lost | shows
        · exact both.trans (.of_eq (congrArg (view vol)
            ((Powered.allocChain n vol count (if first = 0 then c else first) c).still lost)))
        · rw [← shows] at pending₂
          refine both.trans (ih pending₂ (fun e he => ?_) (both.free unused))
          rcases List.mem_append.mp he with earlier | last
          · exact members e earlier
          · rwa [List.mem_singleton.mp last]
      · exact absurd none' found

theorem writeChain_touches (data : Nat → Byte) {len first : Nat} {l : List Nat} (count : Nat)
    {c written : Nat} {s : Io} (chain : FatChain vol (view vol s.disk) c l)
    (members : ∀ e ∈ l, within e) (bounded : written ≤ len)
    (fits : len ≤ written + 512 * vol.spc * l.length) :
    Touches within (view vol s.disk)
      (view vol (writeChain (device (cutAt n)) vol data len first count c written s).2.disk) := by
  induction count generalizing l c written s with
  | zero => exact .refl _ _
  | succ count ih =>
    rw [writeChain]
    by_cases more : 2 ≤ c ∧ written < len
    · rw [if_pos more]
      cases chain with
      | nil halted =>
        simp only [List.length_nil, Nat.mul_zero] at fits
        omega
      | @cons c l inside later =>
        rw [List.length_cons, Nat.mul_succ] at fits
        have wrote := (Powered.writeSectors n data len vol.spc (vol.dataLba + (c - 2) * vol.spc)
          written).agrees s
        rcases writeCluster_cases (cutAt n) geo data inside bounded s with
          ⟨s₁, stored, ⟨f, shows⟩, -⟩ | ⟨s₁, f, failed, shows, -⟩
        · have here : Touches within (view vol s.disk) (view vol s₁.disk) := by
            rw [shows]
            exact .setData _ (members c (by simp)) f
          have later₁ : FatChain vol (view vol s₁.disk) ((view vol s₁.disk).link c) l := by
            rw [shows]
            exact later
          simp only [stored]
          by_cases rest : min (written + 512 * vol.spc) len < len
          · rw [if_pos rest]
            obtain ⟨x, s₂, got, disk₂, -⟩ := fatGet_view (cutAt n) inside s₁
            have read := (Powered.fatGet n vol c).agrees s₁
            rw [got] at read
            simp only [got]
            have unchanged : Touches within (view vol s₁.disk) (view vol s₂.disk) :=
              .of_eq (by rw [disk₂])
            rcases read with same | lost
            · obtain ⟨s₂', got', -⟩ := fatGet_ok geo noFaults_reliable inside s₁
              obtain ⟨rfl, rfl⟩ := Prod.mk.inj (same.trans got')
              rw [← disk₂] at later₁
              refine here.trans (unchanged.trans (ih ?_
                (fun e member => members e (List.mem_cons_of_mem _ member)) ?_ ?_))
              · rw [disk₂] at later₁ ⊢
                exact later₁
              · exact Nat.min_le_right _ _
              · omega
            · exact here.trans (unchanged.trans (.of_eq (congrArg (view vol)
                ((Powered.writeChain n vol data len first count x _).still lost))))
          · rw [if_neg rest]
            have full : min (written + 512 * vol.spc) len = len := by omega
            rw [full]
            have ended : writeChain (device (cutAt n)) vol data len first count c len s₁ =
                (true, s₁) := by
              cases count with
              | zero => rfl
              | succ count => rw [writeChain, if_neg (by omega)]
            rw [ended]
            exact here
        · -- A write of a sector of the volume fails only without power.
          simp only [failed]
          have lost : n < s₁.accesses := by
            rcases wrote with same | lost
            · rcases writeCluster_cases noFaults geo data inside bounded s with
                ⟨s₁', stored, -⟩ | ⟨_, _, _, _, unreliable⟩
              · rw [stored, failed] at same
                cases same
              · exact absurd noFaults_reliable unreliable
            · rwa [failed] at lost
          have here : Touches within (view vol s.disk) (view vol s₁.disk) := by
            rw [shows]
            exact .setData _ (members c (by simp)) f
          exact here.trans (.of_eq (congrArg (view vol) ((Powered.freeChainFrom n vol 65536 first).still lost)))
    · rw [if_neg more]
      exact .refl _ _

theorem allocChain_owned {count first : Nat} {s s' : Io}
    (unused : ∀ c, Cluster vol c → (view vol s.disk).link c = 0 → within c)
    (taken : allocChain (device (cutAt n)) vol count 0 0 s = (some first, s')) :
    n < s'.accesses ∨
      ∃ l, FileChain vol (view vol s'.disk) first l ∧ (∀ c ∈ l, within c) ∧ l.length = count := by
  have agrees := (Powered.allocChain n vol count 0 0).agrees s
  rw [taken] at agrees
  refine agrees.symm.imp id fun same => ?_
  rcases allocChain_ok geo noFaults_reliable count (s := s) .none with
    ⟨first', prev', cs, s₁, allocated, length, pending, extended, -⟩ | ⟨s₁, failed, -⟩
  · obtain ⟨same', rfl⟩ := Prod.mk.inj (same.trans allocated)
    obtain rfl := Option.some.inj same'
    rw [List.nil_append] at pending
    refine ⟨cs, .of_pending pending, fun c member => ?_, length⟩
    obtain ⟨inside, free⟩ := mem_freeSet.mp (extended.free c member)
    exact unused c inside free
  · cases same.trans failed

theorem writeFile_touches (data : Nat → Byte) {len first : Nat} {l : List Nat} {s : Io}
    (owned : FileChain vol (view vol s.disk) first l) (members : ∀ c ∈ l, within c)
    (fits : len ≤ 512 * vol.spc * l.length) :
    Touches within (view vol s.disk)
      (view vol (writeChain (device (cutAt n)) vol data len first len first 0 s).2.disk) := by
  cases owned with
  | empty =>
    have nothing : len = 0 := by simpa using fits
    subst nothing
    exact .refl _ _
  | chain chain => exact writeChain_touches geo data len chain members (Nat.zero_le _) (by omega)

omit geo in
theorem writeEntry_interrupted {slot : Slot} {norm : List Byte} {first len : Nat} {s : Io}
    (lost : n < (writeEntry (device (cutAt n)) slot norm first len s).2.accesses) :
    (writeEntry (device (cutAt n)) slot norm first len s).2.disk = s.disk := by
  rw [writeEntry] at lost ⊢
  rcases loadSecbuf_cases (cutAt n) slot.lba s with ⟨s₁, failed, disk₁, -⟩ | ⟨s₁, loaded, disk₁, -⟩
  · rw [failed]
    exact disk₁
  · rw [loaded] at lost ⊢
    dsimp only at lost ⊢
    rcases storePatched_cases (cutAt n) slot.lba (putEntry s₁.secbuf slot.off (newEntry norm first len)) s₁ with
      ⟨s₂, failed, disk₂, -⟩ | ⟨s₂, stored, -⟩
    · rw [failed]
      exact disk₂.trans disk₁
    · rw [stored] at lost
      exact absurd lost (stored_powered stored)

end Loops

end NovaKernel
