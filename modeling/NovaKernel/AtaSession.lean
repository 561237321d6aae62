import NovaKernel.AtaPio
import Mathlib.Data.List.GetD
import Mathlib.Tactic.IntervalCases

set_option autoImplicit false

namespace NovaKernel

namespace AtaPio

section Accesses

variable {t : Timing} {d : Drive}

theorem status_ready (attached : d.attached = true) (ready : d.busy = 0) :
    ∃ st, d.status = (st, d) ∧ st &&& 0x80 = 0 ∧ st &&& 0x40 ≠ 0 ∧
      (st &&& 0x01 = 0 ↔ d.error = false) ∧ st ≠ 0xFF := by
  have waits : ¬ 0 < d.busy := by omega
  simp only [Drive.status, attached, Bool.not_true, Bool.false_eq_true, if_false, if_neg waits]
  refine ⟨_, rfl, ?_⟩
  cases d.transfer.asks <;> cases d.error <;> decide

theorem pollBusy_eq (attached : d.attached = true) {n : Nat} (enough : d.busy ≤ n) :
    pollBusy n d = { d with busy := 0 } := by
  induction n generalizing d with
  | zero =>
    have ready : d.busy = 0 := by omega
    rw [pollBusy, ← ready]
  | succ n ih =>
    rw [pollBusy]
    by_cases waits : 0 < d.busy
    · have shown : d.status = (0x80, { d with busy := d.busy - 1 }) := by
        simp only [Drive.status, attached, Bool.not_true, Bool.false_eq_true, if_false,
          if_pos waits]
      rw [shown]
      have set : ¬ (0x80 : Byte) &&& 0x80 = 0 := by decide
      simp only [if_neg set]
      have fewer : d.busy - 1 ≤ n := by omega
      exact ih (d := { d with busy := d.busy - 1 }) attached fewer
    · have ready : d.busy = 0 := by omega
      obtain ⟨st, shown, clear, -⟩ := status_ready attached ready
      rw [shown]
      simp only [if_pos clear]
      rw [← ready]

theorem pollReady_eq (attached : d.attached = true) (ready : d.busy = 0) (n : Nat) :
    pollReady n d = d := by
  cases n with
  | zero => rfl
  | succ n =>
    obtain ⟨st, shown, clear, set, -⟩ := status_ready attached ready
    rw [pollReady, shown]
    exact if_pos ⟨clear, set⟩

theorem outb_ready (attached : d.attached = true) (ready : d.busy = 0) (port : Nat) (v : Byte) :
    d.outb t port v = d.register t port v := by
  rw [Drive.outb, attached, ready]
  rfl

theorem outb_busy (busy : 0 < d.busy) (port : Nat) (v : Byte) : d.outb t port v = d := by
  rw [Drive.outb, decide_eq_true busy, Bool.or_true]
  rfl

def addressed (lba : Word) (d : Drive) : Drive :=
  { d with
    device := (0xE0#32 ||| ((lba >>> 24) &&& 0x0F)).setWidth 8
    count := 1
    low := (lba &&& 0xFF).setWidth 8
    mid := ((lba >>> 8) &&& 0xFF).setWidth 8
    high := ((lba >>> 16) &&& 0xFF).setWidth 8 }

theorem select_eq (attached : d.attached = true) (ready : d.busy = 0) (lba : Word) :
    select t lba d = addressed lba d := by
  simp only [select, outb_ready, Drive.register, attached, ready, addressed]

theorem addressed_lba (lba : Word) (d : Drive) : (addressed lba d).lba = lba.toNat % 2 ^ 28 := by
  have device : ((0xE0#32 ||| ((lba >>> 24) &&& 0x0F)).setWidth 8 : Byte).toNat % 16 =
      lba.toNat / 2 ^ 24 % 16 := by
    have low : ∀ x : Word, ((0xE0#32 ||| (x &&& 0x0F)).setWidth 8 : Byte) &&& 0x0F =
        (x &&& 0x0F).setWidth 8 := by
      intro x
      ext i bound
      simp only [BitVec.getElem_and, BitVec.getElem_setWidth, BitVec.getLsbD_or, BitVec.getLsbD_and]
      interval_cases i <;> simp
    have masked := congrArg BitVec.toNat (low (lba >>> 24))
    have mask : ∀ b : Byte, (b &&& 0x0F).toNat = b.toNat % 16 := by decide
    rw [mask] at masked
    rw [masked, BitVec.toNat_setWidth, BitVec.toNat_and, BitVec.toNat_ushiftRight,
      Nat.shiftRight_eq_div_pow]
    have nibble : lba.toNat / 2 ^ 24 &&& (0x0F : Word).toNat = lba.toNat / 2 ^ 24 % 16 :=
      Nat.and_two_pow_sub_one_eq_mod _ 4
    rw [nibble]
    omega
  have byte : ∀ n, (((lba >>> n) &&& 0xFF).setWidth 8 : Byte).toNat = lba.toNat / 2 ^ n % 256 := by
    intro n
    rw [BitVec.toNat_setWidth, BitVec.toNat_and, BitVec.toNat_ushiftRight,
      Nat.shiftRight_eq_div_pow]
    have masked : lba.toNat / 2 ^ n &&& (0xFF : Word).toNat = lba.toNat / 2 ^ n % 256 :=
      Nat.and_two_pow_sub_one_eq_mod _ 8
    rw [masked]
    omega
  have first : (lba &&& 0xFF).setWidth 8 = (((lba >>> 0) &&& 0xFF).setWidth 8 : Byte) := by
    rw [BitVec.ushiftRight_zero]
  have bound := lba.isLt
  simp only [Drive.lba, addressed, device, first, byte]
  omega

theorem insw_eq {lba n k : Nat} (ready : d.busy = 0) (reading : d.transfer = .reading lba k)
    (rest : k + n = 256) (more : 0 < n) :
    insw n d = ((List.range n).map fun i => wordAt d.disk (512 * lba + 2 * (k + i)),
      { d with transfer := .none }) := by
  have waits : ¬ 0 < d.busy := by omega
  induction n generalizing d k with
  | zero => omega
  | succ n ih =>
    rw [insw, Drive.inw, reading]
    simp only [if_neg waits]
    rcases Nat.eq_zero_or_pos n with rfl | later
    · have last : ¬ k + 1 < 256 := by omega
      simp only [if_neg last]
      rfl
    · have middle : k + 1 < 256 := by omega
      simp only [if_pos middle]
      rw [ih (d := { d with transfer := .reading lba (k + 1) }) ready rfl (by omega) later waits]
      simp only
      rw [List.range_succ_eq_map, List.map_cons, List.map_map]
      congr 2
      refine List.map_congr_left fun i _ => ?_
      rw [Function.comp_apply, Nat.succ_eq_add_one, Nat.add_right_comm, Nat.add_assoc k i 1]

theorem bytesOf_words (word : Nat → Half) {j : Nat} (low : j < 512) :
    bytesOf ((List.range 256).map word) j =
      if j % 2 = 0 then (word (j / 2)).setWidth 8 else (word (j / 2)).extractLsb' 8 8 := by
  have found : ((List.range 256).map word).getD (j / 2) 0 = word (j / 2) := by
    rw [List.getD_eq_getElem _ _ (by rw [List.length_map, List.length_range]; omega),
      List.getElem_map, List.getElem_range]
  rw [bytesOf, found]

theorem bytesOf_wordAt (disk : Nat → Byte) (a : Nat) {j : Nat} (low : j < 512) :
    bytesOf ((List.range 256).map fun i => wordAt disk (a + 2 * i)) j = disk (a + j) := by
  rw [bytesOf_words _ low]
  split
  next even =>
    have place : a + 2 * (j / 2) = a + j := by omega
    rw [place, wordAt, BitVec.setWidth_append_eq_right]
  next odd =>
    have place : a + 2 * (j / 2) + 1 = a + j := by omega
    rw [wordAt, place, BitVec.extractLsb'_append_eq_left]

theorem outsw_eq {lba : Nat} (ready : d.busy = 0) (ws sent : List Half)
    (writing : d.transfer = .writing lba sent) (rest : sent.length + ws.length = 256)
    (more : ws ≠ []) :
    outsw t ws d = d.finish t lba (sent ++ ws) := by
  have waits : ¬ 0 < d.busy := by omega
  induction ws generalizing d sent with
  | nil => exact absurd rfl more
  | cons w ws ih =>
    rw [List.length_cons] at rest
    rw [outsw, Drive.outw, writing]
    simp only [if_neg waits]
    cases ws with
    | nil =>
      have last : ¬ sent.length + 1 < 256 := by
        rw [List.length_nil] at rest
        omega
      rw [if_neg last, outsw]
    | cons w' ws =>
      have middle : sent.length + 1 < 256 := by
        rw [List.length_cons] at rest
        omega
      rw [if_pos middle]
      have later := ih (d := { d with transfer := .writing lba (sent ++ [w]) }) ready
        (sent ++ [w]) rfl
        (by rw [List.length_append, List.length_singleton]; omega) (List.cons_ne_nil _ _) waits
      rw [later, List.append_assoc]
      rfl

theorem wordsOf_length (buf : Sector) : (wordsOf buf).length = 256 := by
  rw [wordsOf, List.length_map, List.length_range]

theorem putSector_words (disk : Nat → Byte) (lba : Nat) (buf : Sector) :
    putSector disk lba (bytesOf (wordsOf buf)) = putSector disk lba buf := by
  funext a
  rw [putSector, putSector]
  split
  next =>
    have bytes := bytesOf_wordAt buf 0 (Nat.mod_lt a (by decide : 0 < 512))
    simpa only [wordsOf, Nat.zero_add] using bytes
  next => rfl

theorem register_command (free : d.transfer.asks = false) (v : Byte) :
    d.register t 7 v = d.command t v := by
  simp only [Drive.register, free, Bool.false_eq_true, if_false]

theorem command_read_inside (inside : d.lba < d.sectors) : d.command t 0x20 =
    { d with
      error := false
      commands := d.commands + 1
      transfer := .reading d.lba 0
      busy := t.delay (d.commands + 1) } := by
  rw [Drive.command]
  simp only [if_true]
  exact if_pos inside

theorem command_read_beyond (beyond : ¬ d.lba < d.sectors) : d.command t 0x20 =
    { d with error := true, commands := d.commands + 1, busy := t.delay (d.commands + 1) } := by
  rw [Drive.command]
  simp only [if_true]
  exact if_neg beyond

theorem command_write : d.command t 0x30 =
    { d with
      error := false
      commands := d.commands + 1
      transfer := .writing d.lba []
      busy := t.request (d.commands + 1) } := by
  have other : ¬ (0x30 : Byte) = 0x20 := by decide
  rw [Drive.command]
  simp only [if_neg other, if_true]
  rfl

theorem command_flush : d.command t 0xE7 =
    { d with error := false, commands := d.commands + 1, busy := t.delay (d.commands + 1) } := by
  have other : ¬ (0xE7 : Byte) = 0x20 := by decide
  have other' : ¬ (0xE7 : Byte) = 0x30 := by decide
  rw [Drive.command]
  simp only [if_neg other, if_neg other']

structure Timing.Prompt (t : Timing) : Prop where
  delay : ∀ n, t.delay n ≤ pollLimit
  request : ∀ n, t.request n = 0

def contents (buf : Sector) : List Byte := (List.range 512).map buf

variable (prompt : t.Prompt) (idle : d.Idle)

include prompt idle

structure Reads (d e : Drive) (l : Nat) : Prop where
  attached : e.attached = true
  soon : e.busy ≤ pollLimit
  disk : e.disk = d.disk
  sectors : e.sectors = d.sectors
  outcome : (l < d.sectors ∧ e.error = false ∧ e.transfer = .reading l 0) ∨
    (¬ l < d.sectors ∧ e.error = true ∧ e.transfer = .none)

omit prompt in
theorem command_sent (lba : Word) (v : Byte) :
    (select t lba d).outb t 7 v = (addressed lba d).command t v := by
  have free : (addressed lba d).transfer.asks = false := by
    have done := idle.done
    simp only [addressed, done, Transfer.asks]
  rw [select_eq idle.attached idle.ready, outb_ready (by exact idle.attached) (by exact idle.ready),
    register_command free]

theorem read_sent (lba : Word) :
    Reads d ((select t lba d).outb t 7 0x20) (lba.toNat % 2 ^ 28) := by
  have place := addressed_lba lba d
  rw [command_sent idle]
  generalize lba.toNat % 2 ^ 28 = l at place ⊢
  by_cases inside : (addressed lba d).lba < (addressed lba d).sectors
  · rw [command_read_inside inside, place]
    rw [place] at inside
    exact ⟨idle.attached, prompt.delay _, rfl, rfl, .inl ⟨inside, rfl, rfl⟩⟩
  · rw [command_read_beyond inside]
    rw [place] at inside
    exact ⟨idle.attached, prompt.delay _, rfl, rfl, .inr ⟨inside, rfl, idle.done⟩⟩

theorem ataReadSector_idle (lba : Word) :
    ∃ data d', ataReadSector t true lba d = (data, d') ∧ d'.Idle ∧ d'.sectors = d.sectors ∧
      d'.disk = d.disk ∧
      data.map contents = if lba.toNat % 2 ^ 28 < d.sectors then
        some (contents (sectorOf d.disk (lba.toNat % 2 ^ 28))) else none := by
  have sent := read_sent prompt idle lba
  rw [ataReadSector]
  simp only [Bool.not_true, Bool.false_eq_true, if_false]
  generalize lba.toNat % 2 ^ 28 = l at sent ⊢
  generalize (select t lba d).outb t 7 0x20 = e at sent ⊢
  rw [pollBusy_eq sent.attached sent.soon]
  obtain ⟨st, shown, -, -, error, -⟩ := status_ready (d := { e with busy := 0 }) sent.attached rfl
  rw [shown]
  rcases sent.outcome with ⟨inside, clear, reading⟩ | ⟨beyond, failed, done⟩
  · have good := error.mpr clear
    simp only [good, ne_eq, not_true, if_false]
    rw [insw_eq (d := { e with busy := 0 }) rfl reading (by decide) (by decide)]
    refine ⟨_, _, rfl, ⟨sent.attached, rfl, rfl⟩, sent.sectors, sent.disk, ?_⟩
    rw [if_pos inside, Option.map_some, sent.disk]
    refine congrArg some (List.map_congr_left fun j member => ?_)
    have bytes := bytesOf_wordAt d.disk (512 * l) (List.mem_range.mp member)
    simpa only [Nat.zero_add, sectorOf] using bytes
  · have bad : ¬ st &&& 0x01 = 0 := by
      rw [error]
      simp only [failed, Bool.true_eq_false, not_false_iff]
    simp only [ne_eq, bad, not_false_iff, if_true]
    refine ⟨_, _, rfl, ⟨sent.attached, done, rfl⟩, sent.sectors, sent.disk, ?_⟩
    rw [if_neg beyond]
    rfl

structure Written (t : Timing) (d f : Drive) (l : Nat) (buf : Sector) : Prop where
  attached : f.attached = true
  busy : f.busy = t.delay (d.commands + 1)
  sectors : f.sectors = d.sectors
  done : f.transfer = .none
  outcome : (l < d.sectors ∧ f.error = false ∧ f.disk = putSector d.disk l buf) ∨
    (¬ l < d.sectors ∧ f.error = true ∧ f.disk = d.disk)

theorem words_sent (lba : Word) (buf : Sector) :
    Written t d (outsw t (wordsOf buf) ((select t lba d).outb t 7 0x30)) (lba.toNat % 2 ^ 28) buf := by
  have place := addressed_lba lba d
  have now := prompt.request ((addressed lba d).commands + 1)
  have words := wordsOf_length buf
  have some : wordsOf buf ≠ [] := by
    intro nothing
    rw [nothing] at words
    cases words
  rw [command_sent idle, command_write,
    outsw_eq (by exact now) (wordsOf buf) [] rfl (by rw [words]; rfl) some, place,
    List.nil_append, Drive.finish]
  generalize lba.toNat % 2 ^ 28 = l
  split
  next inside => exact ⟨idle.attached, rfl, rfl, rfl,
    .inl ⟨inside, rfl, putSector_words d.disk l buf⟩⟩
  next beyond => exact ⟨idle.attached, rfl, rfl, rfl, .inr ⟨beyond, rfl, rfl⟩⟩

omit idle in
theorem flush_sent {f : Drive} (attached : f.attached = true) (done : f.transfer = .none)
    (soon : f.busy ≤ pollLimit) :
    ∃ g : Drive, f.outb t 7 0xE7 = g ∧ g.attached = true ∧ g.busy ≤ pollLimit ∧ g.transfer = .none ∧
      g.sectors = f.sectors ∧ g.disk = f.disk ∧
        (g.error = false ↔ f.error = false ∨ f.busy = 0) := by
  rcases Nat.eq_zero_or_pos f.busy with ready | busy
  · have free : f.transfer.asks = false := by
      rw [done]
      rfl
    rw [outb_ready attached ready, register_command free, command_flush]
    exact ⟨_, rfl, attached, prompt.delay _, done, rfl, rfl, iff_of_true rfl (.inr ready)⟩
  · rw [outb_busy busy]
    refine ⟨f, rfl, attached, soon, done, rfl, rfl, .inl, ?_⟩
    rintro (clear | ready)
    · exact clear
    · omega

theorem ataWriteSector_idle (lba : Word) (buf : Sector) :
    ∃ ok d', ataWriteSector t true lba buf d = (ok, d') ∧ d'.Idle ∧ d'.sectors = d.sectors ∧
      if lba.toNat % 2 ^ 28 < d.sectors then ok = true ∧ d'.disk = putSector d.disk (lba.toNat % 2 ^ 28) buf
      else ok = decide (t.delay (d.commands + 1) = 0) ∧ d'.disk = d.disk := by
  have written := words_sent prompt idle lba buf
  have waited : pollReady pollLimit (pollBusy pollLimit d) = d := by
    have still : { d with busy := 0 } = d := by rw [← idle.ready]
    rw [pollBusy_eq idle.attached (by rw [idle.ready]; exact Nat.zero_le _), still,
      pollReady_eq idle.attached idle.ready]
  rw [ataWriteSector]
  simp only [Bool.not_true, Bool.false_eq_true, if_false, waited]
  generalize lba.toNat % 2 ^ 28 = l at written ⊢
  generalize outsw t (wordsOf buf) ((select t lba d).outb t 7 0x30) = f at written ⊢
  obtain ⟨g, sent, attached, soon, done, sectors, disk, cleared⟩ :=
    flush_sent prompt written.attached written.done
    (by rw [written.busy]; exact prompt.delay _)
  rw [sent, pollBusy_eq attached soon]
  obtain ⟨st, shown, -, -, error, -⟩ := status_ready (d := { g with busy := 0 }) attached rfl
  rw [shown]
  refine ⟨_, _, rfl, ⟨attached, done, rfl⟩, sectors.trans written.sectors, ?_⟩
  have reported : (decide (st &&& 0x01 = 0)) = decide (f.error = false ∨ f.busy = 0) :=
    decide_eq_decide.mpr (error.trans cleared)
  rcases written.outcome with ⟨inside, clear, stored⟩ | ⟨beyond, failed, kept⟩
  · rw [if_pos inside, reported, clear]
    exact ⟨decide_eq_true (.inl rfl), disk.trans stored⟩
  · rw [if_neg beyond, reported, failed, written.busy]
    exact ⟨by simp, disk.trans kept⟩

end Accesses

inductive Request
  | read (lba : Word)
  | write (lba : Word) (buf : Sector)

inductive Answer
  | data (bytes : Option (List Byte))
  | done (ok : Bool)

def sectorNumber (lba : Word) : Nat := lba.toNat % 2 ^ 28

namespace Request

def Inside : Request → Prop
  | .read _ => True
  | .write lba _ => sectorNumber lba < diskSectors

def refused : Request → Answer
  | .read _ => .data none
  | .write _ _ => .done false

def serve (t : Timing) (present : Bool) : Request → Drive → Answer × Drive
  | .read lba, d =>
    let (data, d) := ataReadSector t present lba d
    (.data (data.map contents), d)
  | .write lba buf, d =>
    let (ok, d) := ataWriteSector t present lba buf d
    (.done ok, d)

def onDevice : Request → Io → Answer × Io
  | .read lba, s =>
    let (data, s) := (device fun _ _ _ => false).readSector (sectorNumber lba) s
    (.data (data.map contents), s)
  | .write lba buf, s =>
    let (ok, s) := (device fun _ _ _ => false).writeSector (sectorNumber lba) buf s
    (.done ok, s)

end Request

def serveAll (t : Timing) (present : Bool) : List Request → Drive → List Answer × Drive
  | [], d => ([], d)
  | r :: rs, d =>
    let (a, d) := r.serve t present d
    let (as, d) := serveAll t present rs d
    (a :: as, d)

def deviceAll : List Request → Io → List Answer × Io
  | [], s => ([], s)
  | r :: rs, s =>
    let (a, s) := r.onDevice s
    let (as, s) := deviceAll rs s
    (a :: as, s)

def session (t : Timing) (rs : List Request) (d : Drive) : List Answer × Drive :=
  let (present, d) := ataInit t d
  serveAll t present rs d

structure PoweredOn (d : Drive) : Prop where
  attached : d.attached = true
  done : d.transfer = .none
  soon : d.busy ≤ pollLimit
  size : d.sectors = diskSectors

section Runs

variable {t : Timing} {d : Drive} {s : Io}

theorem ataInit_attached (on : PoweredOn d) :
    ∃ d', ataInit t d = (true, d') ∧ d'.Idle ∧ d'.sectors = diskSectors ∧ d'.disk = d.disk := by
  have after : ∃ e : Drive, d.outb t 6 0xE0 = e ∧ PoweredOn e ∧ e.disk = d.disk := by
    rcases Nat.eq_zero_or_pos d.busy with ready | busy
    · rw [outb_ready on.attached ready]
      exact ⟨_, rfl, ⟨on.attached, on.done, on.soon, on.size⟩, rfl⟩
    · rw [outb_busy busy]
      exact ⟨d, rfl, on, rfl⟩
  obtain ⟨e, sent, on', disk⟩ := after
  obtain ⟨st, shown, -, -, -, present⟩ := status_ready (d := { e with busy := 0 }) on'.attached rfl
  rw [ataInit, sent, pollBusy_eq on'.attached on'.soon]
  simp only [shown, bne_iff_ne.mpr present]
  exact ⟨_, rfl, ⟨on'.attached, on'.done, rfl⟩, on'.size, disk⟩

theorem pollBusy_absent (absent : d.attached = false) (n : Nat) : pollBusy n d = d := by
  induction n with
  | zero => rfl
  | succ n ih =>
    have shown : d.status = (0xFF, d) := by
      simp only [Drive.status, absent, Bool.not_false, if_true]
    have set : ¬ (0xFF : Byte) &&& 0x80 = 0 := by decide
    rw [pollBusy, shown]
    simp only [if_neg set]
    exact ih

theorem serveAll_absent (rs : List Request) :
    serveAll t false rs d = (rs.map Request.refused, d) := by
  induction rs with
  | nil => rfl
  | cons r rs ih =>
    have first : r.serve t false d = (r.refused, d) := by cases r <;> rfl
    rw [serveAll, first]
    simp only [ih, List.map_cons]

theorem session_absent (absent : d.attached = false) (rs : List Request) :
    session t rs d = (rs.map Request.refused, d) := by
  have nothing : d.outb t 6 0xE0 = d := by
    rw [Drive.outb, absent]
    rfl
  have shown : d.status = (0xFF, d) := by simp only [Drive.status, absent, Bool.not_false, if_true]
  have started : ataInit t d = (false, d) := by
    rw [ataInit, nothing, pollBusy_absent absent, shown]
    rfl
  rw [session, started]
  exact serveAll_absent rs

structure Corresponds (d : Drive) (s : Io) : Prop where
  idle : d.Idle
  size : d.sectors = diskSectors
  disk : d.disk = s.disk

theorem serve_device (prompt : t.Prompt) (same : Corresponds d s) (r : Request) :
    Corresponds (r.serve t true d).2 (r.onDevice s).2 ∧
      (r.Inside → (r.serve t true d).1 = (r.onDevice s).1) := by
  cases r with
  | read lba =>
    obtain ⟨data, d', called, idle, sectors, disk, read⟩ := ataReadSector_idle prompt same.idle lba
    have size := sectors.trans same.size
    rw [← sectorNumber, same.size, same.disk] at read
    rw [Request.serve, called]
    simp only [Request.onDevice, device, Bool.false_or, decide_eq_true_eq]
    generalize sectorNumber lba = l at read ⊢
    by_cases inside : l < diskSectors
    · have low : ¬ diskSectors ≤ l := Nat.not_le.mpr inside
      rw [if_pos inside] at read
      rw [if_neg low]
      exact ⟨⟨idle, size, disk.trans same.disk⟩, fun _ => congrArg Answer.data read⟩
    · have high : diskSectors ≤ l := Nat.not_lt.mp inside
      rw [if_neg inside] at read
      rw [if_pos high]
      exact ⟨⟨idle, size, disk.trans same.disk⟩, fun _ => congrArg Answer.data read⟩
  | write lba buf =>
    obtain ⟨ok, d', called, idle, sectors, outcome⟩ := ataWriteSector_idle prompt same.idle lba buf
    have size := sectors.trans same.size
    rw [← sectorNumber, same.size] at outcome
    rw [Request.serve, called]
    simp only [Request.onDevice, Request.Inside, device, Bool.false_or, decide_eq_true_eq]
    generalize sectorNumber lba = l at outcome ⊢
    by_cases inside : l < diskSectors
    · have low : ¬ diskSectors ≤ l := Nat.not_le.mpr inside
      rw [if_pos inside] at outcome
      rw [if_neg low]
      obtain ⟨reported, disk⟩ := outcome
      rw [same.disk] at disk
      exact ⟨⟨idle, size, disk⟩, fun _ => congrArg Answer.done reported⟩
    · have high : diskSectors ≤ l := Nat.not_lt.mp inside
      rw [if_neg inside] at outcome
      rw [if_pos high]
      exact ⟨⟨idle, size, outcome.2.trans same.disk⟩, fun below => absurd below inside⟩

theorem serveAll_device (prompt : t.Prompt) (same : Corresponds d s) (rs : List Request) :
    Corresponds (serveAll t true rs d).2 (deviceAll rs s).2 ∧
      ((∀ r ∈ rs, r.Inside) → (serveAll t true rs d).1 = (deviceAll rs s).1) := by
  induction rs generalizing d s with
  | nil => exact ⟨same, fun _ => rfl⟩
  | cons r rs ih =>
    obtain ⟨after, answered⟩ := serve_device prompt same r
    obtain ⟨final, rest⟩ := ih after
    refine ⟨final, fun inside => ?_⟩
    have first := answered (inside r List.mem_cons_self)
    have later := rest fun r' member => inside r' (List.mem_cons_of_mem r member)
    exact congrArg₂ List.cons first later

/-- From power-on, any sequence of accesses whose writes lie on the disk gets through the ports the answers of
the disk that the file system is proved over, and leaves the same bytes. -/
theorem session_device (prompt : t.Prompt) (on : PoweredOn d) (disk : s.disk = d.disk)
    (rs : List Request) (inside : ∀ r ∈ rs, r.Inside) :
    (session t rs d).1 = (deviceAll rs s).1 ∧
      (session t rs d).2.disk = (deviceAll rs s).2.disk := by
  obtain ⟨d', started, idle, size, kept⟩ := ataInit_attached (t := t) on
  obtain ⟨final, answers⟩ := serveAll_device prompt ⟨idle, size, kept.trans disk.symm⟩ rs
  rw [session, started]
  exact ⟨answers inside, final.disk⟩

-- A drive that is slow with its first command.
def promptTiming : Timing where
  delay n := if n = 1 then 3 else 0
  request _ := 0

theorem promptTiming_prompt : promptTiming.Prompt where
  delay n := by
    change (if n = 1 then 3 else 0) ≤ pollLimit
    split <;> decide
  request _ := rfl

def blankDrive : Drive where
  attached := true
  sectors := diskSectors
  disk _ := 0
  device := 0
  count := 0
  low := 0
  mid := 0
  high := 0
  error := false
  transfer := .none
  busy := 7
  commands := 0

theorem blankDrive_on : PoweredOn blankDrive where
  attached := rfl
  done := rfl
  soon := by decide
  size := rfl

theorem session_write_read :
    (session promptTiming [.write 5 fun _ => 0x41, .read 5, .read 2880] blankDrive).1 =
        (deviceAll [.write 5 fun _ => 0x41, .read 5, .read 2880] ⟨fun _ => 0, fun _ => 0, 0⟩).1 ∧
      (session promptTiming [.write 5 fun _ => 0x41, .read 5, .read 2880] blankDrive).2.disk =
        (deviceAll [.write 5 fun _ => 0x41, .read 5, .read 2880] ⟨fun _ => 0, fun _ => 0, 0⟩).2.disk := by
  refine session_device promptTiming_prompt blankDrive_on rfl _ ?_
  intro r member
  simp only [List.mem_cons, List.not_mem_nil, or_false] at member
  rcases member with rfl | rfl | rfl
  · rw [Request.Inside, sectorNumber]
    decide
  · trivial
  · trivial

/-- After any accesses, a write beyond the last sector changes nothing, and it is reported as done exactly when
the drive had refused it before the flush was sent. -/
theorem session_beyond (prompt : t.Prompt) (on : PoweredOn d) (rs : List Request) (lba : Word)
    (buf : Sector) (beyond : diskSectors ≤ sectorNumber lba) :
    (ataWriteSector t true lba buf (session t rs d).2).2.disk = (session t rs d).2.disk ∧
      ((ataWriteSector t true lba buf (session t rs d).2).1 = true ↔
        t.delay ((session t rs d).2.commands + 1) = 0) := by
  obtain ⟨d', started, idle, size, kept⟩ := ataInit_attached (t := t) on
  obtain ⟨final, -⟩ := serveAll_device (s := ⟨d.disk, fun _ => 0, 0⟩) prompt ⟨idle, size, kept⟩ rs
  have reached : (session t rs d).2 = (serveAll t true rs d').2 := by rw [session, started]
  rw [reached]
  obtain ⟨ok, e, called, -, -, outcome⟩ := ataWriteSector_idle prompt final.idle lba buf
  rw [← sectorNumber, final.size, if_neg (Nat.not_lt.mpr beyond)] at outcome
  rw [called]
  obtain ⟨reported, disk⟩ := outcome
  exact ⟨disk, by rw [reported, decide_eq_true_eq]⟩

theorem session_read_write_beyond :
    (ataWriteSector promptTiming true 2880 (fun _ => 0x41) (session promptTiming [.read 5] blankDrive).2).2.disk =
        (session promptTiming [.read 5] blankDrive).2.disk ∧
      ((ataWriteSector promptTiming true 2880 (fun _ => 0x41)
          (session promptTiming [.read 5] blankDrive).2).1 = true ↔
        promptTiming.delay ((session promptTiming [.read 5] blankDrive).2.commands + 1) = 0) := by
  refine session_beyond promptTiming_prompt blankDrive_on _ _ _ ?_
  rw [sectorNumber]
  decide

end Runs

end AtaPio

end NovaKernel
