import NovaKernel.FatSpace
import NovaKernel.Floppy

set_option autoImplicit false

namespace NovaKernel

abbrev FileMap := List Byte → Option (List Byte)

inductive StoreCall
  | write (name : List Byte) (data : Nat → Byte) (len : Nat)
  | delete (name : List Byte)
  | stat (name : List Byte)
  | read (name : List Byte) (max : Nat)
  | freeBytes

inductive StoreResult
  | done (ok : Bool)
  | size (found : Option Nat)
  | bytes (found : Option (Nat × List Byte))
  | free (bytes : Nat)

/-- The map holds the files of a well-formed volume. -/
def Represents (vol : Volume) (disk : Nat → Byte) (files : FileMap) : Prop :=
  CopiesAgree vol disk ∧ ∃ last chain, Layout vol (view vol disk) last chain ∧
    (view vol disk).lookup vol chain = files

theorem Represents.wellFormed {vol : Volume} {disk : Nat → Byte} {files : FileMap}
    (represents : Represents vol disk files) : WellFormed vol disk := by
  obtain ⟨agree, last, chain, layout, -⟩ := represents
  exact ⟨agree, last, chain, layout⟩

theorem WellFormed.represents {vol : Volume} {disk : Nat → Byte}
    (wellFormed : WellFormed vol disk) :
    ∃ files, Represents vol disk files := by
  obtain ⟨agree, last, chain, layout⟩ := wellFormed
  exact ⟨_, agree, last, chain, layout, rfl⟩

namespace StoreCall

section Disk

variable (ata : Ata) (vol : Volume)

def onDisk (io : Io) : StoreCall → StoreResult × Io
  | .write name data len => ((fatWrite ata vol name data len io).map .done id)
  | .delete name => (fatDelete ata vol name io).map .done id
  | .stat name => (fatStat ata vol name io).map (fun found => .size (found.map Stat.size)) id
  | .read name max => (fatRead ata vol name max io).map .bytes id
  | .freeBytes => (fatFreeBytes ata vol io).map .free id

noncomputable def onMap (files : FileMap) : StoreCall → StoreResult × FileMap
  | .write name data len =>
    (.done true, Function.update files (normName name) (some ((List.range len).map data)))
  | .delete name =>
    (.done (files (normName name)).isSome, Function.update files (normName name) none)
  | .stat name => (.size ((files (normName name)).map List.length), files)
  | .read name max =>
    (.bytes ((files (normName name)).map fun bytes => (min bytes.length max, bytes.take max)), files)
  | .freeBytes => (.free (512 * vol.spc * (dataClustersMax vol - usedClusters vol files)), files)

/-- A write of a usable name that returns 1, or any other call. -/
def Admitted (io : Io) : StoreCall → Prop
  | .write name data len => (∀ c ∈ name, c ≠ 0) ∧ (normName name).getD 0 0 ≠ 0xE5 ∧ len < 2 ^ 31 ∧
      (fatWrite ata vol name data len io).1 = true
  | _ => True

def run : List StoreCall → Io → List StoreResult × Io
  | [], io => ([], io)
  | call :: rest, io =>
    let (result, io) := call.onDisk ata vol io
    let (results, io) := run rest io
    (result :: results, io)

noncomputable def runMap : List StoreCall → FileMap → List StoreResult × FileMap
  | [], files => ([], files)
  | call :: rest, files =>
    let (result, files) := call.onMap vol files
    let (results, files) := runMap rest files
    (result :: results, files)

def AllAdmitted : List StoreCall → Io → Prop
  | [], _ => True
  | call :: rest, io => call.Admitted ata vol io ∧ AllAdmitted rest (call.onDisk ata vol io).2

end Disk

variable {faults : Faults} {vol : Volume} (geo : Geometry vol) (reliable : Reliable faults)

include geo reliable

theorem onDisk_represents {io : Io} {files : FileMap} (represents : Represents vol io.disk files)
    (call : StoreCall) (admitted : call.Admitted (device faults) vol io) :
    (call.onDisk (device faults) vol io).1 = (call.onMap vol files).1 ∧
      Represents vol (call.onDisk (device faults) vol io).2.disk (call.onMap vol files).2 := by
  obtain ⟨agree, last, chain, layout, rfl⟩ := represents
  have unchanged : ∀ {io' : Io}, io'.disk = io.disk →
      Represents vol io'.disk ((view vol io.disk).lookup vol chain) := fun disk => by
    rw [disk]
    exact ⟨agree, last, chain, layout, rfl⟩
  cases call with
  | write name data len =>
    obtain ⟨string, alive, small, written⟩ := admitted
    obtain ⟨last', chain', k, layout', agree', lookup, -⟩ :=
      fatWrite_true geo reliable layout (usable_normName string alive) small (Prod.ext written rfl)
    exact ⟨congrArg StoreResult.done written, agree' agree, last', chain', layout', lookup⟩
  | delete name =>
    rcases fatDelete_cases geo reliable layout name with
      ⟨k, io', call, live, named, agree', deleted⟩ | ⟨io', call, absent, disk⟩
    · simp only [onDisk, onMap, call, Prod.map_apply, id_eq, layout.lookup_found live named,
        Option.isSome_some, true_and]
      exact ⟨agree' agree, last, chain, deleted.keepsLayout layout live,
        deleted.lookup layout live named⟩
    · have none' := layout.lookup_absent absent
      have same : Function.update ((view vol io.disk).lookup vol chain) (normName name) none =
          (view vol io.disk).lookup vol chain := by rw [← none', Function.update_eq_self]
      simp only [onDisk, onMap, call, Prod.map_apply, id_eq, none', Option.isSome_none, true_and, same]
      exact unchanged disk
  | stat name =>
    rcases layout.find_cases (normName name) with ⟨k, -, live, named⟩ | ⟨-, absent⟩
    · obtain ⟨io', call, disk⟩ := fatStat_found geo reliable layout live named
      simp only [onDisk, onMap, call, Prod.map_apply, id_eq, layout.lookup_found live named,
        Option.map_some, layout.file_length geo.spc.1 live, true_and]
      exact unchanged disk
    · obtain ⟨io', call, disk⟩ := fatStat_absent geo reliable layout absent
      simp only [onDisk, onMap, call, Prod.map_apply, id_eq, layout.lookup_absent absent,
        Option.map_none, true_and]
      exact unchanged disk
  | read name max =>
    rcases layout.find_cases (normName name) with ⟨k, -, live, named⟩ | ⟨-, absent⟩
    · obtain ⟨io', call, disk⟩ := fatRead_found geo reliable layout live named max
      simp only [onDisk, onMap, call, Prod.map_apply, id_eq, layout.lookup_found live named,
        Option.map_some, layout.file_length geo.spc.1 live, true_and]
      exact unchanged disk
    · obtain ⟨io', call, disk⟩ := fatRead_absent geo reliable layout absent max
      simp only [onDisk, onMap, call, Prod.map_apply, id_eq, layout.lookup_absent absent,
        Option.map_none, true_and]
      exact unchanged disk
  | freeBytes =>
    obtain ⟨io', call, disk⟩ := fatFreeBytes_ok geo reliable io
    simp only [onDisk, onMap, call, Prod.map_apply, id_eq, layout.freeSet_card geo, true_and]
    exact unchanged disk

/-- Every sequence of calls whose writes return 1 gives the results of the map, and the volume stays
well formed with the files of the map. -/
theorem store_refinesMap {io : Io} (wellFormed : WellFormed vol io.disk) :
    ∃ files, Represents vol io.disk files ∧
      ∀ calls, AllAdmitted (device faults) vol calls io →
        (run (device faults) vol calls io).1 = (runMap vol calls files).1 ∧
          Represents vol (run (device faults) vol calls io).2.disk (runMap vol calls files).2 := by
  obtain ⟨files, represents⟩ := wellFormed.represents
  refine ⟨files, represents, fun calls admitted => ?_⟩
  induction calls generalizing io files with
  | nil => exact ⟨rfl, represents⟩
  | cons call rest ih =>
    obtain ⟨result, represents'⟩ := onDisk_represents geo reliable represents call admitted.1
    obtain ⟨results, represents''⟩ := ih represents'.wellFormed _ represents' admitted.2
    simp only [run, runMap]
    exact ⟨by rw [result, results], represents''⟩

omit geo reliable in
theorem store_refinesMap_letter : ∃ files, Represents floppy blankIo.disk files ∧
    (run (device noFaults) floppy [.write [0x41] (fun _ => 0x41) 1, .freeBytes] blankIo).1 =
        (runMap floppy [.write [0x41] (fun _ => 0x41) 1, .freeBytes] files).1 ∧
      Represents floppy (run (device noFaults) floppy [.write [0x41] (fun _ => 0x41) 1, .freeBytes] blankIo).2.disk
        (runMap floppy [.write [0x41] (fun _ => 0x41) 1, .freeBytes] files).2 := by
  have blank : WellFormed floppy blankIo.disk := blank_wellFormed floppy
  obtain ⟨files, represents, all⟩ := store_refinesMap floppy_geometry noFaults_reliable blank
  exact ⟨files, represents, all _ ⟨⟨by decide, by decide, by decide, by decide +kernel⟩, trivial, trivial⟩⟩

end StoreCall

end NovaKernel
