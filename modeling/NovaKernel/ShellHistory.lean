import NovaKernel.ShellLine

set_option autoImplicit false

namespace NovaKernel

namespace Shell

def addCommand (commands : List (List Byte)) (cmd : List Byte) : List (List Byte) :=
  if cmd = [] ∨ commands.getLast? = some cmd then commands else commands ++ [cmd]

/-- What is remembered of the commands entered: not the empty ones, and of equal neighbours one. -/
def remembered (cmds : List (List Byte)) : List (List Byte) := cmds.foldl addCommand []

def recent (commands : List (List Byte)) (q : Nat) : List Byte :=
  if q = 0 then [] else commands.reverse.getD (q - 1) []

theorem recent_eq {commands : List (List Byte)} {q : Nat} (low : 0 < q)
    (high : q ≤ commands.length) :
    recent commands q = commands[commands.length - q] := by
  rw [recent, if_neg (by omega), List.getD_eq_getElem _ _ (by rw [List.length_reverse]; omega),
    List.getElem_reverse]
  congr 1
  omega

theorem addCommand_some {commands : List (List Byte)} (some : ∀ w ∈ commands, w ≠ [])
    (cmd : List Byte) :
    ∀ w ∈ addCommand commands cmd, w ≠ [] := by
  rw [addCommand]
  split
  next => exact some
  next new =>
    rw [not_or] at new
    exact List.forall_mem_append.mpr ⟨some, List.forall_mem_singleton.mpr new.1⟩

theorem remembered_some (cmds : List (List Byte)) : ∀ w ∈ remembered cmds, w ≠ [] := by
  have fold : ∀ (cmds commands : List (List Byte)), (∀ w ∈ commands, w ≠ []) →
      ∀ w ∈ cmds.foldl addCommand commands, w ≠ [] := by
    intro cmds
    induction cmds with
    | nil => exact fun _ some => some
    | cons cmd cmds ih => exact fun commands some => ih _ (addCommand_some some cmd)
  exact fold cmds [] (by simp)

theorem remembered_snoc (cmds : List (List Byte)) (cmd : List Byte) :
    remembered (cmds ++ [cmd]) = addCommand (remembered cmds) cmd := by
  rw [remembered, List.foldl_append]
  rfl

namespace Editor

variable {ed : Editor} {commands : List (List Byte)}

structure LineOk (ed : Editor) : Prop where
  ends : ed.line 127 = 0
  short : ed.lineLen ≤ 127
  solid : ∀ i < ed.lineLen, ed.line i ≠ 0

structure Ring (ed : Editor) (commands : List (List Byte)) : Prop where
  count : ed.histCount = commands.length
  cell : ∀ i (old : i < commands.length), commands.length ≤ i + histMax →
    Str (ed.hist (i % histMax)) 0 commands[i]
  short : ∀ w ∈ commands, w.length ≤ 127

theorem Ring.congr {ed' : Editor} (ring : ed.Ring commands) (hist : ed'.hist = ed.hist)
    (count : ed'.histCount = ed.histCount) : ed'.Ring commands where
  count := count.trans ring.count
  cell := by
    rw [hist]
    exact ring.cell
  short := ring.short

theorem text_length (ed : Editor) : ed.text.length = ed.lineLen := by simp [text]

theorem cString_stop {line : Nat → Byte} {n s m : Nat} (ends : line (s + m) = 0) (low : m < n) :
    (cString line n s).length ≤ m := by
  induction n generalizing s m with
  | zero => omega
  | succ n ih =>
    rw [cString]
    split
    next => exact Nat.zero_le m
    next some =>
      cases m with
      | zero => exact absurd ends some
      | succ m =>
        have rest := ih (s := s + 1) (m := m) (by rwa [Nat.add_assoc, Nat.add_comm 1]) (by omega)
        simpa using rest

theorem cString_cell {line : Nat → Byte} {n s i : Nat} (low : i < (cString line n s).length) :
    line (s + i) ≠ 0 := by
  induction n generalizing s i with
  | zero => simp [cString] at low
  | succ n ih =>
    rw [cString] at low
    split at low
    next => simp at low
    next some =>
      cases i with
      | zero => exact some
      | succ i =>
        have rest := ih (s := s + 1) (i := i) (by simpa using low)
        rwa [Nat.add_assoc, Nat.add_comm 1] at rest

theorem measure_ok (ends : ed.line 127 = 0) : ed.measure.LineOk where
  ends := ends
  short := cString_stop (by simpa using ends) (by decide)
  solid i low := by
    have some := cString_cell low
    rwa [Nat.zero_add] at some

theorem copyLine_end (dst src : Nat → Byte) : copyLine dst src 127 = 0 := Function.update_self _ _ _

theorem copyLine_str {src : Nat → Byte} {w : List Byte} (str : Str src 0 w) (short : w.length ≤ 127)
    (dst : Nat → Byte) :
    Str (copyLine dst src) 0 w := by
  have string : cString src lineMax 0 = w := str.cString (by simp only [lineMax]; omega)
  rw [copyLine, string]
  have copied := strncpy_str str.solid dst (lineMax - 1)
  rwa [List.take_of_length_le (by simp only [lineMax]; omega)] at copied

theorem pushChar_ok (ok : ed.LineOk) {c : Byte} (some : c ≠ 0) : (ed.pushChar c).LineOk := by
  rw [pushChar]
  split
  next room =>
    simp only [lineMax] at room
    constructor
    · exact (Function.update_of_ne (by omega) _ _).trans ok.ends
    · exact Nat.succ_le_of_lt room
    · intro i low
      change i < ed.lineLen + 1 at low
      change Function.update ed.line ed.lineLen c i ≠ 0
      by_cases here : i = ed.lineLen
      · rw [here, Function.update_self]
        exact some
      · rw [Function.update_of_ne here]
        exact ok.solid i (by omega)
  next => exact ok

theorem pushChar_hist (c : Byte) :
    (ed.pushChar c).hist = ed.hist ∧ (ed.pushChar c).histCount = ed.histCount := by
  rw [pushChar]
  split <;> exact ⟨rfl, rfl⟩

theorem lowcase_some {c : Byte} (some : c ≠ 0) : lowcase c ≠ 0 := by
  revert c
  decide

theorem pushAll_ok (word : List Byte) (solid : ∀ c ∈ word, c ≠ 0) (ok : ed.LineOk) :
    (word.foldl pushChar ed).LineOk ∧ (word.foldl pushChar ed).hist = ed.hist ∧
      (word.foldl pushChar ed).histCount = ed.histCount := by
  induction word generalizing ed with
  | nil => exact ⟨ok, rfl, rfl⟩
  | cons c word ih =>
    obtain ⟨first, solid⟩ := List.forall_mem_cons.mp solid
    obtain ⟨hist, count⟩ := ed.pushChar_hist c
    obtain ⟨ok', hist', count'⟩ := ih solid (pushChar_ok ok first)
    exact ⟨ok', hist'.trans hist, count'.trans count⟩

theorem complete_ok {files : List (List Byte)} (strings : ∀ file ∈ files, ∀ b ∈ file, b ≠ 0)
    (ok : ed.LineOk) :
    (ed.complete files).LineOk ∧ (ed.complete files).hist = ed.hist ∧
      (ed.complete files).histCount = ed.histCount := by
  have letters : (builtins.all fun name => name.all fun b => b != 0) = true := by decide
  have known : ∀ name ∈ builtins, ∀ b ∈ name, b ≠ 0 := by simpa using letters
  rw [complete]
  simp only
  split
  next => exact ⟨ok, rfl, rfl⟩
  next =>
    split
    next name found =>
      have solid : ∀ b ∈ name, b ≠ 0 := by
        split at found
        next =>
          have member : name ∈ builtins.filter fun name =>
              strncmpEq ed.line name 0 (ed.lineLen - tokenStart ed.line ed.lineLen) :=
                found ▸ List.mem_singleton_self name
          exact known name (List.mem_filter.mp member).1
        next =>
          have member : name ∈ files.filter fun name =>
            sameName ed.line name (tokenStart ed.line ed.lineLen)
              (ed.lineLen - tokenStart ed.line ed.lineLen) := found ▸ List.mem_singleton_self name
          exact strings name (List.mem_filter.mp member).1
      refine pushAll_ok _ (List.forall_mem_map.mpr fun b member => ?_) ok
      exact lowcase_some (solid b (List.mem_of_mem_drop member))
    next => exact ⟨ok, rfl, rfl⟩

theorem splitFrom_zero {i : Nat} (room : Nat) {line : Nat → Byte} (zero : line i = 0) (s : Nat) :
    (splitFrom line s room).2 i = 0 := by
  induction room generalizing line s with
  | zero => exact zero
  | succ room ih =>
    rw [splitFrom]
    simp only
    split
    next => exact zero
    next =>
      split
      next => exact zero
      next =>
        apply ih
        rw [Function.update_apply]
        split
        next => rfl
        next => exact zero

theorem remember_line (ed : Editor) : ed.remember.line = ed.line := by
  rw [remember]
  split
  next => rfl
  next =>
    split
    next => rfl
    next => rfl

theorem older_ok (ok : ed.LineOk) :
    ed.older.LineOk ∧ ed.older.hist = ed.hist ∧ ed.older.histCount = ed.histCount := by
  rw [older]
  split
  next => exact ⟨ok, rfl, rfl⟩
  next h _ => exact ⟨measure_ok (copyLine_end ed.line h), rfl, rfl⟩

theorem newer_ok (ok : ed.LineOk) :
    ed.newer.LineOk ∧ ed.newer.hist = ed.hist ∧ ed.newer.histCount = ed.histCount := by
  rw [newer]
  split
  next =>
    simp only
    split
    next => exact ⟨measure_ok ok.ends, rfl, rfl⟩
    next h _ => exact ⟨measure_ok (copyLine_end ed.line h), rfl, rfl⟩
  next =>
    have ends : Function.update ed.line 0 0 127 = 0 :=
      (Function.update_of_ne (by decide) 0 ed.line).trans ok.ends
    exact ⟨measure_ok ends, rfl, rfl⟩

def ended (ed : Editor) : Editor := { ed with line := Function.update ed.line ed.lineLen 0 }

theorem ended_ends (ok : ed.LineOk) : ed.ended.line 127 = 0 := by
  change Function.update ed.line ed.lineLen 0 127 = 0
  rw [Function.update_apply]
  split
  next => rfl
  next => exact ok.ends

theorem ended_str (ok : ed.LineOk) : Str ed.ended.line 0 ed.text := by
  have solid : ∀ c ∈ ed.text, c ≠ 0 := by
    intro c member
    obtain ⟨i, low, rfl⟩ := List.mem_map.mp member
    exact ok.solid i (List.mem_range.mp low)
  apply str_of_cells solid
  intro i low
  rw [text_length] at low
  rw [Nat.zero_add]
  change Function.update ed.line ed.lineLen 0 i = _
  by_cases here : i = ed.lineLen
  · rw [here, Function.update_self, List.getD_eq_default _ _ (by rw [text_length])]
  · rw [Function.update_of_ne here, List.getD_eq_getElem _ _ (by rw [text_length]; omega)]
    simp [text]

theorem key_enter {code : Nat} (enter : mapKey code = 0x0A) (files : List (List Byte))
    (ed : Editor) :
    ed.key files code =
      { ed.ended.remember with line := (split ed.ended.remember.line argvMax).2, lineLen := 0, histPos := -1 } := by
  rw [key]
  exact if_pos enter

theorem key_ok {files : List (List Byte)} (strings : ∀ file ∈ files, ∀ b ∈ file, b ≠ 0)
    (ok : ed.LineOk) (code : Nat) :
    (ed.key files code).LineOk ∧
      (mapKey code ≠ 0x0A → (ed.key files code).hist = ed.hist ∧ (ed.key files code).histCount = ed.histCount) := by
  by_cases enter : mapKey code = 0x0A
  · rw [key_enter enter]
    refine ⟨⟨splitFrom_zero _ ?_ _, Nat.zero_le _, fun i low => absurd low (Nat.not_lt_zero i)⟩,
      fun other => absurd enter other⟩
    rw [remember_line]
    exact ended_ends ok
  · rw [key]
    simp only
    rw [if_neg enter]
    split
    next =>
      split
      next => exact ⟨⟨ok.ends, (Nat.sub_le _ _).trans ok.short, fun i low => ok.solid i (Nat.lt_of_lt_of_le low (Nat.sub_le _ _))⟩,
        fun _ => ⟨rfl, rfl⟩⟩
      next => exact ⟨ok, fun _ => ⟨rfl, rfl⟩⟩
    split
    next =>
      obtain ⟨ok', same⟩ := complete_ok strings ok
      exact ⟨ok', fun _ => same⟩
    split
    next =>
      obtain ⟨ok', same⟩ := older_ok ok
      exact ⟨ok', fun _ => same⟩
    split
    next =>
      obtain ⟨ok', same⟩ := newer_ok ok
      exact ⟨ok', fun _ => same⟩
    split
    next visible =>
      have some : BitVec.ofNat 8 (mapKey code) ≠ 0 := by
        intro zero
        have value := congrArg BitVec.toNat zero
        rw [BitVec.toNat_ofNat, Nat.mod_eq_of_lt (by omega)] at value
        exact absurd value (by simp only [BitVec.ofNat_eq_ofNat, BitVec.toNat_zero]; omega)
      exact ⟨pushChar_ok ok some, fun _ => pushChar_hist _⟩
    next => exact ⟨ok, fun _ => ⟨rfl, rfl⟩⟩

theorem ring_fresh : fresh.Ring [] where
  count := rfl
  cell i old := absurd old (Nat.not_lt_zero i)
  short := by simp

theorem Ring.repeats (ring : ed.Ring commands) (used : commands ≠ []) {line : Nat → Byte}
    {cmd : List Byte} (str : Str line 0 cmd) (short : cmd.length ≤ 127) :
    strcmpEq (ed.hist ((ed.histCount - 1) % histMax)) line = true ↔
      commands.getLast? = some cmd := by
  have positive := List.length_pos_of_ne_nil used
  have inside : commands.length - 1 < commands.length := by omega
  have last := ring.cell (commands.length - 1) inside (by simp only [histMax]; omega)
  have lastShort := ring.short _ (List.getElem_mem inside)
  rw [strcmpEq, ring.count, decide_eq_true_iff, last.cString (by simp only [lineMax]; omega),
    str.cString (by simp only [lineMax]; omega), List.getLast?_eq_getElem?, List.getElem?_eq_getElem inside,
    Option.some_inj]

theorem Ring.remember (ring : ed.Ring commands) {cmd : List Byte} (str : Str ed.line 0 cmd)
    (short : cmd.length ≤ 127)
    (fits : (addCommand commands cmd).length < 2 ^ 32) :
    ed.remember.Ring (addCommand commands cmd) := by
  have blank : ed.line 0 = 0 ↔ cmd = [] := by
    cases cmd with
    | nil => exact iff_of_true str rfl
    | cons c cmd => exact iff_of_false (str.2.1 ▸ str.1) (List.cons_ne_nil c cmd)
  have repeats : (0 < ed.histCount ∧ strcmpEq (ed.hist ((ed.histCount - 1) % histMax)) ed.line = true) ↔
      commands.getLast? = some cmd := by
    by_cases unused : commands = []
    · rw [ring.count, unused]
      simp
    · rw [ring.repeats unused str short, ring.count]
      exact and_iff_right (List.length_pos_of_ne_nil unused)
  by_cases old : cmd = [] ∨ commands.getLast? = some cmd
  · have same : ed.remember = ed := by
      rw [Editor.remember]
      rcases old with empty | last
      · exact if_pos (blank.mpr empty)
      · rw [if_pos (repeats.mpr last), ite_self]
    rw [same, addCommand, if_pos old]
    exact ring
  · rw [addCommand, if_neg old] at fits ⊢
    rw [not_or] at old
    rw [List.length_append, List.length_singleton] at fits
    rw [Editor.remember, if_neg (blank.not.mpr old.1), if_neg (repeats.not.mpr old.2)]
    constructor
    · rw [List.length_append, List.length_singleton]
      simp only [ring.count]
      exact Nat.mod_eq_of_lt fits
    · intro i low near
      rw [List.length_append, List.length_singleton] at low near
      simp only [histMax] at near ⊢
      by_cases newest : i = commands.length
      · subst newest
        simp only [ring.count, Function.update_self, List.getElem_concat_length]
        exact copyLine_str str short _
      · have apart : i % 8 ≠ ed.histCount % 8 := by
          rw [ring.count]
          omega
        rw [Function.update_of_ne apart, List.getElem_append_left (by omega)]
        exact ring.cell i (by omega) (by simp only [histMax]; omega)
    · exact List.forall_mem_append.mpr ⟨ring.short, List.forall_mem_singleton.mpr short⟩

end Editor

end Shell

end NovaKernel
