import NovaKernel.SessionFile

set_option autoImplicit false

namespace NovaKernel

section Names

variable {v : View} {k : Nat} {norm : List Byte}

theorem View.usable_of_live (live : v.live k = true) (named : v.name k = norm) : Usable norm := by
  obtain ⟨first, second, -⟩ := View.live_iff.mp live
  have head : norm.getD 0 0 = v.dir k 0 := by rw [← named]; rfl
  rw [Usable, head]
  exact ⟨by rw [← named]; simp [View.name], first, second⟩

end Names

namespace Session

variable {faults : Faults} {vol : Volume} {ses : Session} {s : Files}

section Opened

variable (ata : Ata) (opened : (ses.opened ata vol s).1 ≠ refused)

include opened

theorem slot_cases :
    ∃ f, (ses.opened ata vol s).1.toNat < maxOpenFiles ∧
      ses.entry ata vol s = openedSlot ata vol ses.mem ses.name ses.len ses.flags f s.io ∧
      ses.finalEntry ata vol s = ses.calls.foldl FdCall.after (ses.entry ata vol s) ∧
      (ses.beforeClose ata vol s).io = (fatReadBuf ata vol ses.path ofileCap.toNat s.io).2 ∧
      ((fatReadBuf ata vol ses.path ofileCap.toNat s.io).1.1 = none → ses.flags &&& oCreat ≠ 0) := by
  rcases sysOpen_cases ata vol ses.mem ses.name ses.len ses.flags s with failed | ⟨fd, free, -, -, -, creat, done⟩
  · exact absurd failed opened
  · obtain ⟨-, slot, -⟩ := allocFd_slot free
    have number : (BitVec.ofNat 32 fd).toNat = fd := by
      rw [BitVec.toNat_ofNat]
      simp only [maxOpenFiles] at slot
      omega
    have there : (ses.opened ata vol s).1.toNat = fd := by rw [Session.opened, done, number]
    have entered : ses.entry ata vol s =
        openedSlot ata vol ses.mem ses.name ses.len ses.flags (s.ofiles fd) s.io := by
      rw [entry, there, Session.opened, done]
      exact Function.update_self _ _ _
    have run : ses.beforeClose ata vol s =
        (ses.opened ata vol s).2.set fd (ses.calls.foldl FdCall.after (ses.entry ata vol s)) := by
      have used : ((ses.opened ata vol s).2.ofiles (ses.opened ata vol s).1.toNat).used = true :=
        congrArg OpenFile.used entered
      rw [beforeClose, FdCall.session_eq (by omega) used, there, entry, there]
    refine ⟨s.ofiles fd, by omega, entered, ?_, ?_, creat⟩
    · rw [finalEntry, run, there]
      exact Function.update_self _ _ _
    · rw [run, Session.opened, done]
      rfl

theorem close_cases :
    (ses.flags &&& oTrunc = 0 ∧ ses.Idle ata vol s ∧ (ses.closed ata vol s).1 = 0 ∧
        (ses.closed ata vol s).2.io = (ses.beforeClose ata vol s).io) ∨
      (¬(ses.flags &&& oTrunc = 0 ∧ ses.Idle ata vol s) ∧ ∃ ok io, fatWrite ata vol ses.path
          (ses.finalEntry ata vol s).data (ses.finalEntry ata vol s).size.toNat (ses.beforeClose ata vol s).io =
            (ok, io) ∧
        (ses.closed ata vol s).1 = (if ok then 0 else refused) ∧ (ses.closed ata vol s).2.io = io) := by
  obtain ⟨f, slot, entered, final, -⟩ := slot_cases ata opened
  have name : (ses.finalEntry ata vol s).name = ses.path := by
    rw [final, (FdCall.fold_kept _ _).2, entered]
    rfl
  have used : (ses.finalEntry ata vol s).used = true := by
    rw [final, (FdCall.fold_kept _ _).1, entered]
    rfl
  have dirty : (ses.finalEntry ata vol s).dirty = false ↔ ses.flags &&& oTrunc = 0 ∧
      ses.Idle ata vol s := by
    rw [final, FdCall.fold_dirty, Idle, entered]
    simp only [openedSlot, decide_eq_false_iff_not, Decidable.not_not]
  rcases sysClose_cases ata vol slot used with ⟨clean, result, io⟩ | ⟨modified, ok, io, written, result, after⟩
  · have both := dirty.mp clean
    exact .inl ⟨both.1, both.2, result, io⟩
  · refine .inr ⟨fun both => ?_, ok, io, ?_, result, after⟩
    · have clean := dirty.mpr both
      rw [finalEntry, modified] at clean
      cases clean
    · rw [← name]
      exact written

end Opened

section Disk

variable (geo : Geometry vol) (reliable : Reliable faults) {last : Nat} {chain : Nat → List Nat}
  (layout : Layout vol (view vol s.io.disk) last chain)
  (opened : (ses.opened (device faults) vol s).1 ≠ refused)

include geo reliable layout opened

theorem beforeClose_disk : (ses.beforeClose (device faults) vol s).io.disk = s.io.disk := by
  obtain ⟨f, -, -, -, io, -⟩ := slot_cases (device faults) opened
  rw [io]
  rcases layout.find_cases (normName ses.path) with ⟨k, -, live, named⟩ | ⟨-, absent⟩
  · exact (fatReadBuf_found geo reliable layout live named _).2
  · exact (fatReadBuf_absent geo reliable layout absent _).2

theorem entry_found (kept : ses.flags &&& oTrunc = 0) {k : Nat}
    (live : (view vol s.io.disk).live k = true)
    (named : (view vol s.io.disk).name k = normName ses.path) :
    (ses.entry (device faults) vol s).size.toNat = min ((view vol s.io.disk).size k) 2048 ∧
      ∀ i < min ((view vol s.io.disk).size k) 2048,
        ((view vol s.io.disk).file vol k (chain k))[i]? =
          some ((ses.entry (device faults) vol s).data i) := by
  obtain ⟨f, -, entered, -, -, -⟩ := slot_cases (device faults) opened
  have read := (fatReadBuf_found geo reliable layout live named ofileCap.toNat).1
  have cap : ofileCap.toNat = 2048 := rfl
  have length := layout.file_length geo.spc.1 live
  rw [cap] at read
  have bytes : ses.path = copyName ses.mem ses.name ses.len := rfl
  rw [entered]
  simp only [openedSlot, kept, ne_eq, not_true_eq_false, if_false, ← bytes, cap, read,
    Option.getD_some]
  refine ⟨?_, fun i below => ?_⟩
  · rw [BitVec.toNat_ofNat]
    omega
  · have inside : i < ((view vol s.io.disk).file vol k (chain k)).length := by omega
    rw [List.getD_eq_getElem?_getD, List.getElem?_take_of_lt (by omega),
      List.getElem?_eq_getElem inside, Option.getD_some]

theorem entry_small : (ses.entry (device faults) vol s).size.toNat ≤ 2048 := by
  by_cases kept : ses.flags &&& oTrunc = 0
  · rcases layout.find_cases (normName ses.path) with ⟨k, -, live, named⟩ | ⟨-, absent⟩
    · have size := (entry_found geo reliable layout opened kept live named).1
      omega
    · obtain ⟨f, -, entered, -, -, -⟩ := slot_cases (device faults) opened
      have none' := (fatReadBuf_absent geo reliable layout absent ofileCap.toNat).1
      have bytes : ses.path = copyName ses.mem ses.name ses.len := rfl
      rw [entered]
      dsimp only [openedSlot]
      rw [← bytes, none', if_neg (not_not.mpr kept)]
      exact Nat.zero_le _
  · obtain ⟨f, -, entered, -, -, -⟩ := slot_cases (device faults) opened
    rw [entered]
    dsimp only [openedSlot]
    rw [if_pos kept]
    exact Nat.zero_le _

end Disk

section Unwritten

variable (geo : Geometry vol) (reliable : Reliable faults) (wellFormed : WellFormed vol s.io.disk)
  (opened : (ses.opened (device faults) vol s).1 ≠ refused)

include geo reliable wellFormed opened

/-- Without `O_TRUNC`, the bytes that are not written survive exactly when the file fits the buffer of the
descriptor or no write is accepted. -/
theorem keepsUnwritten_iff {old : List Byte}
    (existing : diskFile (device faults) vol ses.path s.io = some old)
    (kept : ses.flags &&& oTrunc = 0)
    (inBounds : FdCall.Along (fun f call => call.InBounds f) (ses.entry (device faults) vol s) ses.calls) :
    ses.KeepsUnwritten (device faults) vol s ↔
      old.length ≤ 2048 ∨ ses.Idle (device faults) vol s := by
  obtain ⟨-, last, chain, layout⟩ := wellFormed
  obtain ⟨f, -, -, final, -, -⟩ := slot_cases (device faults) opened
  have disk := beforeClose_disk geo reliable layout opened
  have layout' := layout
  rw [← disk] at layout'
  rcases layout.find_cases (normName ses.path) with ⟨k, -, live, named⟩ | ⟨-, absent⟩
  swap
  next =>
    rw [diskFile_eq geo reliable layout, layout.lookup_absent absent] at existing
    cases existing
  have same := existing
  rw [diskFile_eq geo reliable layout, layout.lookup_found live named, Option.some.injEq] at same
  have length := layout.file_length geo.spc.1 live
  rw [same] at length
  obtain ⟨size, bytes⟩ := entry_found geo reliable layout opened kept live named
  rw [same] at bytes
  obtain ⟨grows, small⟩ := FdCall.fold_size inBounds (entry_small geo reliable layout opened)
  rw [← final] at grows small
  rcases close_cases (device faults) opened with ⟨-, idle, -, io⟩ | ⟨modified, ok, io, written, result, after⟩
  next =>
    -- Nothing is written back.
    refine ⟨fun _ => .inr idle, fun _ _ old' old'_eq => ⟨old', ?_, Nat.le_refl _, fun _ _ _ => rfl⟩⟩
    rw [← io] at layout'
    rw [diskFile_eq geo reliable layout', io, disk, ← diskFile_eq geo reliable layout]
    exact old'_eq
  next =>
    have busy : ¬ ses.Idle (device faults) vol s := fun idle => modified ⟨kept, idle⟩
    have usable := View.usable_of_live live named
    rw [or_iff_left busy]
    cases ok with
    | true =>
      obtain ⟨last', chain', k', layout₁, -, lookup, -⟩ :=
        fatWrite_true geo reliable layout' usable (by omega) written
      have stored : diskFile (device faults) vol ses.path (ses.closed (device faults) vol s).2.io =
          some ((List.range (ses.finalEntry (device faults) vol s).size.toNat).map
            (ses.finalEntry (device faults) vol s).data) := by
        rw [after, diskFile_eq geo reliable layout₁, lookup, Function.update_self]
      constructor
      next =>
        intro keeps
        obtain ⟨new, found, longer, -⟩ := keeps result old existing
        rw [stored, Option.some.injEq] at found
        rw [← found, List.length_map, List.length_range] at longer
        omega
      next =>
        intro fits _ old' old'_eq
        obtain rfl : old = old' := Option.some.inj (existing.symm.trans old'_eq)
        refine ⟨_, stored, ?_, fun i below unwritten => ?_⟩
        · rw [List.length_map, List.length_range]
          omega
        · rw [bytes i (by omega), List.getElem?_map, List.getElem?_range (by omega),
            Option.map_some, final, FdCall.fold_data inBounds unwritten]
    | false =>
      have failed : (ses.closed (device faults) vol s).1 ≠ 0 := by
        rw [result]
        decide
      refine ⟨fun _ => ?_, fun _ zero => absurd zero failed⟩
      by_contra long
      have replaced : ∃ io, fatWrite (device faults) vol ses.path (ses.finalEntry (device faults) vol s).data
          (ses.finalEntry (device faults) vol s).size.toNat (ses.beforeClose (device faults) vol s).io =
            (true, io) :=
        fatWrite_shorter geo reliable layout' (by rwa [disk]) (by rwa [disk]) (by rw [disk]; omega) (by omega)
      obtain ⟨io', replaced⟩ := replaced
      rw [replaced] at written
      cases written

end Unwritten

theorem keepsUnwritten_iff_short :
    overwriteFirst.KeepsUnwritten (device noFaults) floppy (lettersFile 1) ↔
    [(0x41 : Byte)].length ≤ 2048 ∨ overwriteFirst.Idle (device noFaults) floppy (lettersFile 1) :=
  keepsUnwritten_iff floppy_geometry noFaults_reliable
    (writeLetters_wellFormed (by decide) (by decide +kernel)) (by decide +kernel) (by decide +kernel) (by decide)
    ⟨fun _ => by decide +kernel, trivial⟩

/-- A file of 2049 bytes loses its last one to a session that writes its first. -/
theorem truncates_long : WellFormed floppy (lettersFile 2049).io.disk ∧
    (overwriteFirst.opened (device noFaults) floppy (lettersFile 2049)).1 ≠ refused ∧
    ¬ overwriteFirst.KeepsUnwritten (device noFaults) floppy (lettersFile 2049) := by
  refine ⟨writeLetters_wellFormed (by decide) (by decide +kernel), by decide +kernel,
    fun keeps => ?_⟩
  have before : (diskFile (device noFaults) floppy overwriteFirst.path (lettersFile 2049).io).map List.length =
      some 2049 := by decide +kernel
  have after : (diskFile (device noFaults) floppy overwriteFirst.path
      (overwriteFirst.closed (device noFaults) floppy (lettersFile 2049)).2.io).map List.length =
        some 2048 := by
    decide +kernel
  obtain ⟨old, existing, length⟩ := Option.map_eq_some_iff.mp before
  obtain ⟨new, found, longer, -⟩ := keeps (by decide +kernel) old existing
  rw [found, Option.map_some, Option.some.injEq] at after
  omega

section Stores

variable (geo : Geometry vol) (reliable : Reliable faults) (wellFormed : WellFormed vol s.io.disk)
  (opened : (ses.opened (device faults) vol s).1 ≠ refused)

include geo reliable wellFormed opened

omit wellFormed opened in
theorem reads_file {io : Io} {last k : Nat} {chain : Nat → List Nat}
    (layout : Layout vol (view vol io.disk) last chain) (live : (view vol io.disk).live k = true)
    (named : (view vol io.disk).name k = normName ses.path) :
    ∃ st, (fatStat (device faults) vol ses.path io).1 = some st ∧
      st.size = (view vol io.disk).size k ∧
      ∀ max, (view vol io.disk).size k ≤ max → (fatRead (device faults) vol ses.path max io).1 =
        some ((view vol io.disk).size k, (view vol io.disk).file vol k (chain k)) := by
  obtain ⟨io₁, found, -⟩ := fatStat_found geo reliable layout live named
  refine ⟨_, congrArg Prod.fst found, rfl, fun max enough => ?_⟩
  obtain ⟨io₂, read, -⟩ := fatRead_found geo reliable layout live named max
  have length := layout.file_length geo.spc.1 live
  rw [read, Nat.min_eq_left enough, List.take_of_length_le (by omega)]

/-- A `close` that returns 0 has left the file on the disk exactly when the file was there before, was
truncated, or had a write accepted. -/
theorem storesFile_iff (alive : (normName ses.path).getD 0 0 ≠ 0xE5)
    (small : ∀ old, diskFile (device faults) vol ses.path s.io = some old → old.length ≤ 2048)
    (within : FdCall.Along (fun f call => call.SeeksWithin f) (ses.entry (device faults) vol s) ses.calls) :
    ses.StoresFile (device faults) vol s ↔
      (fatStat (device faults) vol ses.path s.io).1 ≠ none ∨ ses.flags &&& oTrunc ≠ 0 ∨
        ¬ ses.Idle (device faults) vol s := by
  obtain ⟨-, last, chain, layout⟩ := wellFormed
  obtain ⟨f, -, entered, final, -, -⟩ := slot_cases (device faults) opened
  have disk := beforeClose_disk geo reliable layout opened
  have layout' := layout
  rw [← disk] at layout'
  have usable : Usable (normName ses.path) := usable_normName (copyName_string _ _ _) alive
  have started : (ses.entry (device faults) vol s).pos.toNat ≤
    (ses.entry (device faults) vol s).size.toNat ∧
      (ses.entry (device faults) vol s).size.toNat ≤ 2048 := by
    refine ⟨?_, entry_small geo reliable layout opened⟩
    rw [entered]
    exact Nat.zero_le _
  have inBounds : FdCall.Along (fun f call => call.InBounds f) (ses.entry (device faults) vol s) ses.calls :=
    within.mono (fun f => f.pos.toNat ≤ f.size.toNat ∧ f.size.toNat ≤ 2048)
      (fun f call inside here => ⟨FdCall.after_within here inside, fun _ => Nat.le_trans inside.1 inside.2⟩) started
  obtain ⟨-, fits⟩ := FdCall.fold_size inBounds started.2
  rw [← final] at fits
  rcases close_cases (device faults) opened with ⟨kept, idle, result, io⟩ | ⟨modified, ok, io, written, result,
    after⟩
  next =>
    rw [or_iff_left (by simp [kept, idle])]
    have layout₁ := layout'
    rw [← io] at layout₁
    rcases layout.find_cases (normName ses.path) with ⟨k, -, live, named⟩ | ⟨-, absent⟩
    next =>
      obtain ⟨io₁, found, -⟩ := fatStat_found geo reliable layout live named
      refine iff_of_true (fun _ => ?_) (by rw [found]; simp)
      have length := layout.file_length geo.spc.1 live
      have short := small _ (by rw [diskFile_eq geo reliable layout, layout.lookup_found live named])
      obtain ⟨size, bytes⟩ := entry_found geo reliable layout opened kept live named
      obtain ⟨data, same⟩ := FdCall.fold_idle idle
      rw [← final] at data same
      rw [length] at short
      have whole : (view vol s.io.disk).file vol k (chain k) =
          (List.range ((view vol s.io.disk).size k)).map (ses.finalEntry (device faults) vol s).data := by
        refine List.ext_getElem? fun i => ?_
        by_cases below : i < (view vol s.io.disk).size k
        · rw [bytes i (by omega), List.getElem?_map, List.getElem?_range below, data,
            Option.map_some]
        · rw [List.getElem?_eq_none (by omega), List.getElem?_eq_none (by simp; omega)]
      have exact' : (ses.finalEntry (device faults) vol s).size.toNat =
          (view vol s.io.disk).size k := by
        rw [same, size]
        omega
      have disk₁ : (ses.closed (device faults) vol s).2.io.disk = s.io.disk := by rw [io, disk]
      have read := reads_file geo reliable layout₁ (by rwa [disk₁]) (by rwa [disk₁])
      rw [disk₁] at read
      rw [exact', ← whole]
      exact read
    next =>
      obtain ⟨io₁, missing, -⟩ := fatStat_absent geo reliable layout absent
      refine iff_of_false (fun stores => ?_) (by rw [missing]; simp)
      obtain ⟨st, found, -⟩ := stores result
      have disk₁ : (ses.closed (device faults) vol s).2.io.disk = s.io.disk := by rw [io, disk]
      obtain ⟨io₂, missing', -⟩ := fatStat_absent geo reliable layout₁ (by rwa [disk₁])
      rw [missing'] at found
      cases found
  next =>
    refine iff_of_true (fun zero => ?_) ?_
    next =>
      cases ok with
      | true =>
        obtain ⟨last', chain', k', layout₁, -, lookup, live, named, size⟩ :=
          fatWrite_true geo reliable layout' usable (by omega) written
        have read := reads_file geo reliable layout₁ live named
        have stored : (view vol io.disk).file vol k' (chain' k') =
            (List.range (ses.finalEntry (device faults) vol s).size.toNat).map
              (ses.finalEntry (device faults) vol s).data := by
          have found := layout₁.lookup_found live named
          rw [lookup, Function.update_self] at found
          exact (Option.some.inj found).symm
        rw [size, stored] at read
        rw [after]
        exact read
      | false =>
        have failed : (refused : Word) ≠ 0 := by decide
        exact absurd (result.symm.trans zero) failed
    next =>
      by_cases kept : ses.flags &&& oTrunc = 0
      · exact .inr (.inr fun idle => modified ⟨kept, idle⟩)
      · exact .inr (.inl kept)

end Stores

theorem storesFile_iff_created : createOnly.StoresFile (device noFaults) floppy bootFiles ↔
    (fatStat (device noFaults) floppy createOnly.path bootFiles.io).1 ≠ none ∨
      createOnly.flags &&& oTrunc ≠ 0 ∨
      ¬ createOnly.Idle (device noFaults) floppy bootFiles :=
  storesFile_iff floppy_geometry noFaults_reliable (blank_wellFormed floppy) (by decide +kernel) (by decide +kernel)
    (fun old found => by
      have none' : diskFile (device noFaults) floppy createOnly.path bootFiles.io = none := by
        decide +kernel
      rw [none'] at found
      cases found)
    trivial

/-- A file that is created and closed without a write is not on the disk. -/
theorem forgets_created : WellFormed floppy bootFiles.io.disk ∧
    (createOnly.opened (device noFaults) floppy bootFiles).1 ≠ refused ∧
    (createOnly.closed (device noFaults) floppy bootFiles).1 = 0 ∧
    ¬ createOnly.StoresFile (device noFaults) floppy bootFiles := by
  have result : (createOnly.closed (device noFaults) floppy bootFiles).1 = 0 := by decide +kernel
  refine ⟨blank_wellFormed floppy, by decide +kernel, result, fun stores => ?_⟩
  obtain ⟨st, found, -⟩ := stores result
  have missing : ((fatStat (device noFaults) floppy createOnly.path
      (createOnly.closed (device noFaults) floppy bootFiles).2.io).1.map Stat.size) =
        none := by decide +kernel
  rw [found] at missing
  cases missing

end Session

end NovaKernel
