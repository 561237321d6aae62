import NovaKernel.FatCut
import NovaKernel.FatCapacity

set_option autoImplicit false

namespace NovaKernel

open Linked

def Spare (v : View) (chain : Nat → List Nat) (norm : List Byte) (c : Nat) : Prop :=
  ∀ k, v.live k = true → v.name k ≠ norm → c ∉ chain k

section Interrupted

variable {vol : Volume} (geo : Geometry vol) {n last : Nat} {chain : Nat → List Nat} {s : Io}
  (layout : Layout vol (view vol s.disk) last chain)

include layout

theorem Layout.spare_free (norm : List Byte) {c : Nat} (free : (view vol s.disk).link c = 0) :
    Spare (view vol s.disk) chain norm c :=
  fun k live _ member => (layout.chains k live).link_ne member free

theorem Layout.spare_own {norm : List Byte} {k : Nat} (live : (view vol s.disk).live k = true)
    (named : (view vol s.disk).name k = norm) :
    ∀ c ∈ chain k, Spare (view vol s.disk) chain norm c :=
  fun c member i live' other member' => by
    have apart : i ≠ k := by
      rintro rfl
      exact other named
    exact layout.disjoint i k live' live apart member' member

include geo

theorem dirFindSlot_chosen {name : List Byte} {slot : Slot} {s₁ : Io}
    (searched : dirFindSlot (device (cutAt n)) vol (normName name) s = (some slot, s₁)) :
    n < s₁.accesses ∨
      ∃ k existed, slot = slotOf vol k existed ∧
        Chosen vol (view vol s.disk) last (normName name) k existed := by
  have agrees := (Powered.dirFindSlotFrom n vol (normName name) vol.rootSectors 0 none).agrees s
  rw [dirFindSlot] at searched
  rw [searched] at agrees
  refine agrees.symm.imp id fun same => ?_
  obtain ⟨s₁', found, -⟩ := dirFindSlot_ok (normName_length name) geo noFaults_reliable s
  have result := congrArg Prod.fst (same.trans found)
  rcases layout.findSlot_cases (normName name) with ⟨⟨k, existed⟩, slotFound, chosen⟩ | ⟨none', -⟩
  · rw [slotFound] at result
    exact ⟨k, existed, Option.some.inj result, chosen⟩
  · rw [none'] at result
    cases result

theorem dropOld_touches {k : Nat} {existed : Bool} {norm : List Byte} {s₁ : Io}
    (chosen : Chosen vol (view vol s.disk) last norm k existed) (disk : s₁.disk = s.disk) :
    Touches (Spare (view vol s.disk) chain norm) (view vol s.disk)
      (view vol (dropOld (device (cutAt n)) vol (slotOf vol k existed) s₁).2.disk) := by
  obtain ⟨inside, -, slot⟩ := chosen
  rw [dropOld]
  cases existed with
  | false => exact .of_eq (by rw [← disk]; rfl)
  | true =>
    have there : (slotOf vol k true).existed = true := rfl
    rw [if_pos there]
    have loads := (Powered.load n (slotOf vol k true).lba).agrees s₁
    rcases loadSecbuf_cases (cutAt n) (slotOf vol k true).lba s₁ with ⟨s₂, failed, disk₂, -⟩ | ⟨s₂, loaded,
      disk₂, -⟩
    · rw [failed]
      exact .of_eq (by rw [disk₂, disk])
    · rw [loaded] at loads ⊢
      dsimp only
      have unchanged : Touches (Spare (view vol s.disk) chain norm) (view vol s.disk) (view vol s₂.disk) :=
        .of_eq (by rw [disk₂, disk])
      rcases loads with same | lost
      · obtain ⟨s₂', loaded', -, -, start⟩ := loadStart_ok geo noFaults_reliable inside true s₁
        obtain rfl := (Prod.mk.inj (same.trans loaded')).2
        have owned : FileChain vol (view vol s₂.disk) ((view vol s₁.disk).start k) (chain k) := by
          rw [disk₂, disk]
          exact layout.chains k slot.1
        rw [start]
        exact unchanged.trans (fatFreeChain_touches geo owned (layout.spare_own slot.1 slot.2))
      · exact unchanged.trans (.of_eq (congrArg (view vol) ((Powered.freeChainFrom n vol 65536 _).still lost)))

theorem fatWrite_interrupted (name : List Byte) (data : Nat → Byte) {len : Nat}
    (small : len + (512 * vol.spc - 1) < 2 ^ 32)
    (lost : n < (fatWrite (device (cutAt n)) vol name data len s).2.accesses) :
    Touches (Spare (view vol s.disk) chain (normName name)) (view vol s.disk)
      (view vol (fatWrite (device (cutAt n)) vol name data len s).2.disk) := by
  have mounted : ¬ (!vol.mounted) = true := by simp [geo.mounted]
  -- The count stays folded: the loop would unfold with it.
  obtain ⟨count, need⟩ : ∃ count, clustersFor vol len = count := ⟨_, rfl⟩
  have exact' := need.symm.trans (clustersFor_eq geo.spc small)
  have unused : ∀ c, Cluster vol c → (view vol s.disk).link c = 0 →
      Spare (view vol s.disk) chain (normName name) c :=
    fun c _ free => layout.spare_free (normName name) free
  rw [fatWrite, if_neg mounted, need] at lost ⊢
  -- Each part goes on from the state that the power would have left, or changes nothing.
  have disk₁ : (dirFindSlot (device (cutAt n)) vol (normName name) s).2.disk = s.disk :=
    dirFindSlotFrom_disk vol (cutAt n) (normName name) vol.rootSectors 0 none s
  generalize searched : dirFindSlot (device (cutAt n)) vol (normName name) s = r at disk₁ lost ⊢
  obtain ⟨found, s₁⟩ := r
  have touches₁ : Touches (Spare (view vol s.disk) chain (normName name)) (view vol s.disk) (view vol s₁.disk) :=
    .of_eq (congrArg (view vol) disk₁)
  cases found with
  | none => exact touches₁
  | some slot =>
  dsimp only at lost ⊢
  have touches₂ : Touches (Spare (view vol s.disk) chain (normName name)) (view vol s.disk)
      (view vol (dropOld (device (cutAt n)) vol slot s₁).2.disk) := by
    rcases dirFindSlot_chosen geo layout searched with lost₁ | ⟨k, existed, rfl, chosen⟩
    · exact touches₁.trans (.of_eq (congrArg (view vol) ((Powered.dropOld n vol slot).still lost₁)))
    · exact dropOld_touches geo layout chosen disk₁
  generalize dropOld (device (cutAt n)) vol slot s₁ = r at touches₂ lost ⊢
  obtain ⟨ok, s₂⟩ := r
  cases ok with
  | false => exact touches₂
  | true =>
  dsimp only at lost ⊢
  have touches₃ : Touches (Spare (view vol s.disk) chain (normName name)) (view vol s.disk)
      (view vol (allocChain (device (cutAt n)) vol count 0 0 s₂).2.disk) :=
    touches₂.trans (allocChain_touches geo count .none (by simp) (touches₂.free unused))
  generalize taken : allocChain (device (cutAt n)) vol count 0 0 s₂ = r at touches₃ lost ⊢
  obtain ⟨first, s₃⟩ := r
  cases first with
  | none => exact touches₃
  | some first =>
  dsimp only at lost ⊢
  have touches₄ : Touches (Spare (view vol s.disk) chain (normName name)) (view vol s.disk)
      (view vol (writeChain (device (cutAt n)) vol data len first len first 0 s₃).2.disk) := by
    rcases allocChain_owned geo (touches₂.free unused) taken with lost₃ | ⟨l, owned, members, length⟩
    · exact touches₃.trans (.of_eq (congrArg (view vol)
        ((Powered.writeChain n vol data len first len first 0).still lost₃)))
    · have fits := (clusters_bounds geo.spc.1 len).1
      rw [← exact', ← length] at fits
      exact touches₃.trans (writeFile_touches geo data owned members fits)
  generalize writeChain (device (cutAt n)) vol data len first len first 0 s₃ = r at touches₄ lost ⊢
  obtain ⟨ok, s₄⟩ := r
  cases ok with
  | false => exact touches₄
  | true => exact touches₄.trans (.of_eq (congrArg (view vol) (writeEntry_interrupted lost)))

theorem fatDelete_interrupted (name : List Byte) :
    view vol (fatDelete (device (cutAt n)) vol name s).2.disk = view vol s.disk ∨
      ∃ k, (view vol s.disk).live k = true ∧ (view vol s.disk).name k = normName name ∧
        Touches (Spare (view vol s.disk) chain (normName name))
          ((view vol s.disk).setSlot k (deletedEntry ((view vol s.disk).dir k)))
          (view vol (fatDelete (device (cutAt n)) vol name s).2.disk) := by
  have mounted : ¬ (!vol.mounted) = true := by simp [geo.mounted]
  rw [fatDelete, if_neg mounted]
  have disk₁ : (dirFindSlot (device (cutAt n)) vol (normName name) s).2.disk = s.disk :=
    dirFindSlotFrom_disk vol (cutAt n) (normName name) vol.rootSectors 0 none s
  generalize searched : dirFindSlot (device (cutAt n)) vol (normName name) s = r at disk₁ ⊢
  obtain ⟨found, s₁⟩ := r
  cases found with
  | none => exact .inl (congrArg (view vol) disk₁)
  | some slot =>
  dsimp only
  split
  next => exact .inl (congrArg (view vol) disk₁)
  next existed =>
  have loads := (Powered.load n slot.lba).agrees s₁
  rcases loadSecbuf_cases (cutAt n) slot.lba s₁ with ⟨s₂, failed, disk₂, -⟩ | ⟨s₂, loaded, disk₂, -⟩
  · rw [failed]
    exact .inl (congrArg (view vol) (disk₂.trans disk₁))
  rw [loaded] at loads ⊢
  dsimp only
  have stores :=
    (Powered.storePatched n slot.lba fun s => Function.update s.secbuf slot.off 0xE5).agrees s₂
  rcases storePatched_cases (cutAt n) slot.lba (Function.update s₂.secbuf slot.off 0xE5) s₂ with
    ⟨s₃, failed, disk₃, -⟩ | ⟨s₃, stored, -⟩
  · rw [failed]
    exact .inl (congrArg (view vol) (disk₃.trans (disk₂.trans disk₁)))
  rw [stored] at stores ⊢
  dsimp only
  -- The power is still there after the store, so everything before it was done.
  have powered₃ := stored_powered stored
  have powered₂ : ¬ n < s₂.accesses := fun lost => by
    have later := (Powered.storePatched n slot.lba fun s => Function.update s.secbuf slot.off 0xE5).lost lost
    rw [stored] at later
    exact powered₃ later
  have powered₁ : ¬ n < s₁.accesses := fun lost => by
    have later := (Powered.load n slot.lba).lost lost
    rw [loaded] at later
    exact powered₂ later
  obtain ⟨k, existed', rfl, inside, -, owner⟩ :=
    (dirFindSlot_chosen geo layout searched).resolve_left powered₁
  cases existed' with
  | false => exact absurd rfl existed
  | true =>
    obtain ⟨s₂', s₃', loaded', start, stored', becomes⟩ :=
      markSlot_ok geo noFaults_reliable inside s₁
    obtain rfl := (Prod.mk.inj ((loads.resolve_right powered₂).trans loaded')).2
    obtain rfl := (Prod.mk.inj ((stores.resolve_right powered₃).trans stored')).2
    rw [disk₁] at start becomes
    have owned : FileChain vol (view vol s₃.disk) ((view vol s.disk).start k) (chain k) := by
      rw [becomes.shows]
      exact (layout.chains k owner.1).congr fun _ _ => rfl
    have freed := fatFreeChain_touches (n := n) geo owned (layout.spare_own owner.1 owner.2)
    rw [becomes.shows] at freed
    refine .inr ⟨k, owner.1, owner.2, ?_⟩
    rw [start]
    exact freed

end Interrupted

def ReadsBack (vol : Volume) (disk : Nat → Byte) (name : List Byte)
    (found : Option (List Byte)) : Prop :=
  ∀ faults, Reliable faults → ∀ io : Io, io.disk = disk →
    (fatStat (device faults) vol name io).1.map Stat.size = found.map List.length ∧
      ∀ max, (fatRead (device faults) vol name max io).1 =
        found.map fun bytes => (min bytes.length max, bytes.take max)

theorem View.find_congr {v v' : View} (dir : v'.dir = v.dir) (norm : List Byte) (n k : Nat) :
    v'.find norm n k = v.find norm n k := by
  induction n generalizing k with
  | zero => rfl
  | succ n ih => rw [View.find, View.find, View.live, View.live, View.name, View.name, dir, ih]

section Restarts

variable {vol : Volume} (geo : Geometry vol)

include geo

theorem Layout.readsBack {u : View} {last : Nat} {chain : Nat → List Nat}
    (layout : Layout vol u last chain) {disk : Nat → Byte} (dir : (view vol disk).dir = u.dir)
    {name : List Byte} (kept : ∀ k, u.live k = true → u.name k = normName name → ∀ c ∈ chain k,
      (view vol disk).link c = u.link c ∧ (view vol disk).data c = u.data c) :
    ReadsBack vol disk name (u.lookup vol chain (normName name)) := by
  rintro faults reliable io rfl
  have search := View.find_congr dir (normName name) (16 * vol.rootSectors) 0
  rcases layout.find_cases (normName name) with ⟨k, found, live, named⟩ | ⟨none', absent⟩
  · rw [found] at search
    have size : (view vol io.disk).size k = u.size k := by rw [View.size, View.size, dir]
    have file : (view vol io.disk).file vol k (chain k) = u.file vol k (chain k) := by
      rw [View.file, View.file, size,
        View.contents_congr fun c member => (kept k live named c member).2]
    have start : (view vol io.disk).start k = u.start k := by rw [View.start, View.start, dir]
    have owned : FileChain vol (view vol io.disk) ((view vol io.disk).start k) (chain k) := by
      rw [start]
      exact (layout.chains k live).congr fun c member => (kept k live named c member).1
    have length := layout.file_length geo.spc.1 live
    rw [layout.lookup_found live named]
    obtain ⟨io', stat, -⟩ := fatStat_slot geo reliable search
    refine ⟨by rw [stat, Option.map_some, Option.map_some, size, length], fun max => ?_⟩
    obtain ⟨io', read, -⟩ := fatRead_slot geo reliable search owned (by rw [file, size, length]) max
    rw [read, Option.map_some, size, file, length]
  · rw [none'] at search
    rw [layout.lookup_absent absent]
    obtain ⟨io', stat, -⟩ := fatStat_missing geo reliable search
    refine ⟨by rw [stat]; rfl, fun max => ?_⟩
    obtain ⟨io', read, -⟩ := fatRead_missing geo reliable search max
    rw [read]
    rfl

end Restarts

namespace StoreCall

def Replaces (files : FileMap) (norm : List Byte) : StoreCall → Prop
  | .write name _ _ => norm = normName name ∧ (files norm).isSome
  | _ => False

/-- The disk is worth the map before the call or the one after it, but for the file that the call
replaces. -/
def Survives (vol : Volume) (reserved : Nat) (files : FileMap) (disk : Nat → Byte)
    (call : StoreCall) : Prop :=
  ∃ files', (files' = files ∨ files' = (call.onBounded vol reserved files).2) ∧
    ∀ name, ¬ call.Replaces files (normName name) → ReadsBack vol disk name (files' (normName name))

section Interrupted

variable {vol : Volume} (geo : Geometry vol) {n reserved : Nat} {io : Io} {files : FileMap}

include geo

theorem survives_unchanged (represents : Represents vol io.disk files) {disk : Nat → Byte}
    (call : StoreCall) (same : view vol disk = view vol io.disk) :
    call.Survives vol reserved files disk := by
  obtain ⟨-, last, chain, layout, rfl⟩ := represents
  refine ⟨_, .inl rfl, fun name _ => layout.readsBack geo (by rw [same]) fun k _ _ c _ => ?_⟩
  rw [same]
  exact ⟨rfl, rfl⟩

theorem onDisk_interrupted (represents : Represents vol io.disk files) (call : StoreCall)
    (bounded : call.Bounded vol reserved files)
    (lost : n < (call.onDisk (device (cutAt n)) vol io).2.accesses) :
    call.Survives vol reserved files (call.onDisk (device (cutAt n)) vol io).2.disk := by
  cases call with
  | write name data len =>
    obtain ⟨-, last, chain, layout, rfl⟩ := represents
    have touches := fatWrite_interrupted geo layout name data bounded.2.2.1 lost
    refine ⟨_, .inl rfl, fun name' kept => layout.readsBack geo touches.dir fun k live named c member => ?_⟩
    have other : (view vol io.disk).name k ≠ normName name := by
      intro same
      rw [same] at named
      refine kept ⟨named.symm, ?_⟩
      rw [layout.lookup_found live (same.trans named)]
      rfl
    have outside : ¬ Spare (view vol io.disk) chain (normName name) c :=
      fun spare => spare k live other member
    exact ⟨touches.link c outside, touches.data c outside⟩
  | delete name =>
    obtain ⟨agree, last, chain, layout, rfl⟩ := represents
    rcases fatDelete_interrupted (n := n) geo layout name with same | ⟨k, live, named, touches⟩
    · exact survives_unchanged geo ⟨agree, last, chain, layout, rfl⟩ _ same
    · -- The volume that the whole call would leave has the same directory.
      have deleted : Deleted (view vol io.disk) (((view vol io.disk).release (chain k)).setSlot k
          (deletedEntry ((view vol io.disk).dir k))) k (chain k) := ⟨rfl, rfl, rfl⟩
      refine ⟨_, .inr rfl, fun name' _ => ?_⟩
      have files := deleted.lookup layout live named
      have layout' := deleted.keepsLayout layout live
      change ReadsBack vol _ name' (Function.update ((view vol io.disk).lookup vol chain) (normName name) none _)
      rw [← files]
      refine layout'.readsBack geo touches.dir fun i live' _ c member => ?_
      obtain ⟨live', apart⟩ := (deleted.live_iff i).mp live'
      have outside : ¬ Spare (view vol io.disk) chain (normName name) c := fun spare =>
        spare i live' (fun same => apart (layout.distinct i k live' live (same.trans named.symm))) member
      have fresh : c ∉ chain k := layout.disjoint i k live' live apart member
      rw [touches.link c outside, touches.data c outside]
      exact ⟨(if_neg fresh).symm, rfl⟩
  | stat name =>
    exact survives_unchanged geo represents _
      (congrArg (view vol) (fatStat_disk vol (cutAt n) name io))
  | read name max =>
    exact survives_unchanged geo represents _
      (congrArg (view vol) (fatRead_disk vol (cutAt n) name max io))
  | freeBytes =>
    exact survives_unchanged geo represents _
      (congrArg (view vol) (fatFreeBytes_disk vol (cutAt n) io))

end Interrupted

/-- The calls of `done` have ended when the power is lost, and the first one of `rest` is
interrupted. -/
structure CutShort (vol : Volume) (reserved n : Nat) (io : Io) (files : FileMap)
    (done rest : List StoreCall) :
    Prop where
  powered : (run (device (cutAt n)) vol done io).2.accesses ≤ n
  lost : ∀ call ∈ rest.head?, n < (run (device (cutAt n)) vol (done ++ [call]) io).2.accesses
  results : (run (device (cutAt n)) vol done io).1 = (runBounded vol reserved done files).1
  whole : rest = [] →
    Stores vol (run (device (cutAt n)) vol done io).2.disk (runBounded vol reserved done files).2 reserved
  broken : ∀ call ∈ rest.head?, call.Survives vol reserved (runBounded vol reserved done files).2
    (run (device (cutAt n)) vol (done ++ rest) io).2.disk

theorem CutShort.cons {vol : Volume} {reserved n : Nat} {io io' : Io} {files files' : FileMap}
    {done rest : List StoreCall} {call : StoreCall} {result : StoreResult}
    (cut : CutShort vol reserved n io' files' done rest)
    (ran : call.onDisk (device (cutAt n)) vol io = (result, io'))
    (mapped : call.onBounded vol reserved files = (result, files')) :
    CutShort vol reserved n io files (call :: done) rest := by
  constructor
  case powered => simpa only [run, ran] using cut.powered
  case lost => simpa only [List.cons_append, run, ran] using cut.lost
  case results => simpa only [run, ran, runBounded, mapped, List.cons.injEq, true_and] using cut.results
  case whole => simpa only [run, ran, runBounded, mapped] using cut.whole
  case broken => simpa only [List.cons_append, run, ran, runBounded, mapped] using cut.broken

end StoreCall

section Runs

variable {vol : Volume} (geo : Geometry vol) {io : Io}

include geo

/-- Wherever the power is lost, what the calls before have reported is on the disk, and the call in the middle is
done or not done as far as the files show, but for a file that it was to replace. -/
theorem powerLoss_survives (wellFormed : WellFormed vol io.disk) :
    ∃ files reserved, Stores vol io.disk files reserved ∧
      ∀ n, io.accesses ≤ n → ∀ calls, StoreCall.AllBounded vol reserved calls files →
        ∃ done rest, calls = done ++ rest ∧
          StoreCall.CutShort vol reserved n io files done rest := by
  obtain ⟨files, reserved, stores⟩ := wellFormed.stores
  refine ⟨files, reserved, stores, fun n on calls bounded => ?_⟩
  induction calls generalizing io files with
  | nil => exact ⟨[], [], rfl, on, by simp, rfl, fun _ => stores, by simp⟩
  | cons call rest ih =>
    have ran := (Powered.onDisk n vol call).agrees io
    by_cases lost : n < (call.onDisk (device (cutAt n)) vol io).2.accesses
    · -- What comes after is not done at all.
      have still := (Powered.run n vol rest).still lost
      have broken := StoreCall.onDisk_interrupted geo stores.1 call bounded.1 lost
      refine ⟨[], call :: rest, rfl, on, fun first same => ?_, rfl, by simp, fun first same => ?_⟩
      · obtain rfl : call = first := by simpa using same
        exact lost
      · obtain rfl : call = first := by simpa using same
        exact still ▸ broken
    · obtain ⟨result, stores'⟩ :=
        StoreCall.onDisk_bounded geo noFaults_reliable stores call bounded.1
      rw [← ran.resolve_right lost] at result stores'
      obtain ⟨done, rest', rfl, cut⟩ :=
        ih stores'.1.wellFormed _ stores' (Nat.le_of_not_lt lost) bounded.2
      exact ⟨call :: done, rest', rfl, cut.cons (Prod.ext rfl rfl) (Prod.ext result.symm rfl)⟩

end Runs

def fourCalls : List StoreCall :=
  [.delete [0x41], .write [0x41] (fun _ => 0x41) 1, .delete [0x41], .write [0x41] (fun _ => 0x42) 2]

theorem powerLoss_survives_four : ∃ files reserved, Stores twoClusters blankIo.disk files reserved ∧
    ∃ done rest, fourCalls = done ++ rest ∧
      StoreCall.CutShort twoClusters reserved 40 blankIo files done rest := by
  have blank : WellFormed twoClusters blankIo.disk := blank_wellFormed twoClusters
  obtain ⟨files, reserved, stores, all⟩ := powerLoss_survives twoClusters_geometry blank
  refine ⟨files, reserved, stores,
    all 40 (by decide) fourCalls ⟨trivial, ⟨by decide, by decide, by decide, ?_⟩, trivial, ⟨by decide, by decide, by decide, ?_⟩, trivial⟩⟩
  · exact .inr (StoreCall.delete_cleared _ _ _ _)
  · exact .inr (StoreCall.delete_cleared _ _ _ _)

end NovaKernel
