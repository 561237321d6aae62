import NovaKernel.ShellHistory

set_option autoImplicit false

namespace NovaKernel

namespace Shell

theorem Str.cells {line : Nat → Byte} {w : List Byte} (str : Str line 0 w) :
    (List.range w.length).map line = w := by
  refine List.ext_getElem (by simp) fun i low high => ?_
  have cell := str.cell (Nat.le_of_lt high)
  rw [Nat.zero_add, List.getD_eq_getElem _ _ high] at cell
  simp [cell]

namespace Editor

variable {ed : Editor} {commands : List (List Byte)} {q : Nat}

structure Shows (ed : Editor) (w : List Byte) : Prop where
  text_eq : ed.text = w
  length : ed.lineLen = w.length
  short : ed.lineLen < lineMax

theorem Shows.unique {w v : List Byte} (shows : ed.Shows w) (also : ed.Shows v) : w = v :=
  shows.text_eq.symm.trans also.text_eq

theorem shows_empty (empty : ed.lineLen = 0) : ed.Shows [] where
  text_eq := List.eq_nil_of_length_eq_zero ((text_length ed).trans empty)
  length := empty
  short := empty ▸ (by decide : 0 < lineMax)

theorem measure_shows {w : List Byte} (str : Str ed.line 0 w) (short : w.length ≤ 127) :
    ed.measure.Shows w := by
  have length : ed.measure.lineLen = w.length :=
    congrArg List.length (str.cString (by simp only [lineMax]; omega))
  constructor
  · rw [text, length]
    exact str.cells
  · exact length
  · rw [length]
    exact Nat.lt_succ_of_le short

def reach (commands : List (List Byte)) : Nat := min histMax commands.length

theorem Ring.histGet (ring : ed.Ring commands) (low : q < reach commands) :
    ∃ h, ed.histGet q = some h ∧ Str h 0 (recent commands (q + 1)) := by
  simp only [reach, histMax] at low
  have cell := ring.cell (commands.length - 1 - q) (by omega) (by simp only [histMax]; omega)
  refine ⟨ed.hist ((ed.histCount - 1 - q) % histMax), ?_, ?_⟩
  · rw [Editor.histGet, if_neg]
    simp only [ring.count, histMax]
    omega
  · rw [recent_eq (Nat.succ_pos q) (by omega), ring.count]
    have same : commands.length - (q + 1) = commands.length - 1 - q := by omega
    simp only [same]
    exact cell

theorem Ring.histGet_none (ring : ed.Ring commands) (high : reach commands ≤ q) :
    ed.histGet q = none := by
  simp only [reach, histMax] at high
  rw [Editor.histGet, if_pos]
  simp only [ring.count, histMax]
  omega

theorem Ring.recent_short (ring : ed.Ring commands) (low : q ≤ commands.length) :
    (recent commands q).length ≤ 127 := by
  cases q with
  | zero => exact Nat.zero_le _
  | succ q =>
    rw [recent_eq (Nat.succ_pos q) low]
    exact ring.short _ (List.getElem_mem _)

structure NavAt (ed : Editor) (commands : List (List Byte)) (q : Nat) : Prop where
  ring : ed.Ring commands
  pos : ed.histPos = q - 1
  inside : q ≤ reach commands
  shows : ed.Shows (recent commands q)

theorem recall_shows {h : Nat → Byte} {w : List Byte} (str : Str h 0 w) (short : w.length ≤ 127) :
    (ed.recallLine h).measure.Shows w := measure_shows (copyLine_str str short ed.line) short

theorem NavAt.older (nav : ed.NavAt commands q) :
    ed.older.NavAt commands (min (q + 1) (reach commands)) := by
  have inside := nav.inside
  have want : (if ed.histPos < 0 then 0 else (ed.histPos + 1).toNat) = q := by
    rw [nav.pos]
    split <;> omega
  rw [Editor.older]
  simp only [want]
  by_cases more : q < reach commands
  · obtain ⟨h, found, str⟩ := nav.ring.histGet more
    have low : q + 1 ≤ commands.length := by
      simp only [reach] at more
      omega
    rw [found, Nat.min_eq_left more]
    exact ⟨nav.ring.congr rfl rfl, by simp [recallLine, measure], more,
      recall_shows str (nav.ring.recent_short low)⟩
  · have last : min (q + 1) (reach commands) = q := by omega
    rw [nav.ring.histGet_none (Nat.le_of_not_lt more), last]
    exact nav

theorem NavAt.newer (nav : ed.NavAt commands q) : ed.newer.NavAt commands (q - 1) := by
  have inside := nav.inside
  rw [Editor.newer]
  by_cases more : 1 < q
  · have want : (ed.histPos - 1).toNat = q - 2 := by
      rw [nav.pos]
      omega
    obtain ⟨h, found, str⟩ := nav.ring.histGet (q := q - 2) (by omega)
    have low : q - 1 ≤ commands.length := by
      simp only [reach] at inside
      omega
    rw [show q - 2 + 1 = q - 1 by omega] at str
    have found' : Editor.histGet { ed with histPos := ed.histPos - 1 } (ed.histPos - 1).toNat =
        some h := by
      rw [want]
      exact found
    rw [if_pos (by rw [nav.pos]; omega)]
    simp only [found']
    refine ⟨nav.ring.congr rfl rfl, ?_, by omega, recall_shows str (nav.ring.recent_short low)⟩
    simp only [recallLine, measure, nav.pos]
    omega
  · rw [if_neg (by rw [nav.pos]; omega)]
    have bottom : q - 1 = 0 := by omega
    rw [bottom]
    refine ⟨nav.ring.congr rfl rfl, rfl, Nat.zero_le _, measure_shows ?_ (Nat.zero_le _)⟩
    exact Function.update_self 0 0 ed.line

theorem key_up (files : List (List Byte)) (ed : Editor) : ed.key files upKey = ed.older := rfl

theorem key_down (files : List (List Byte)) (ed : Editor) : ed.key files downKey = ed.newer := rfl

-- The codes the driver makes of the two arrows are not the codes the shell looks for.
theorem key_arrow (files : List (List Byte)) (ed : Editor) {sc : Byte}
    (arrow : sc = 0x48#8 ∨ sc = 0x50#8) :
    ed.key files (Keyboard.keyExt + sc.toNat) = ed := by
  rcases arrow with rfl | rfl
  · rfl
  · rfl

end Editor

namespace Console

variable {c : Console} {cmds : List (List Byte)}

theorem round_ok {serial : Option Byte} {files : List (List Byte)}
    (strings : ∀ file ∈ files, ∀ b ∈ file, b ≠ 0) (ok : c.ed.LineOk) :
    (c.round serial files).ed.LineOk := by
  simp only [round]
  split
  next => exact ok
  next => exact (Editor.key_ok strings ok _).1

theorem round_ring {serial : Option Byte} {files : List (List Byte)}
    (strings : ∀ file ∈ files, ∀ b ∈ file, b ≠ 0) (ok : c.ed.LineOk)
    (ring : c.ed.Ring (remembered cmds))
    (fits : (remembered (cmds ++ c.enters serial)).length < 2 ^ 32) :
    (c.round serial files).ed.Ring (remembered (cmds ++ c.enters serial)) := by
  by_cases enter : Editor.mapKey (c.code serial) = 0x0A
  · have some : c.code serial ≠ 0 := by
      intro zero
      rw [zero] at enter
      exact absurd enter (by decide)
    have short : c.ed.text.length ≤ 127 := (Editor.text_length c.ed).symm ▸ ok.short
    rw [enters, if_pos enter, remembered_snoc] at fits ⊢
    simp only [round, if_neg some]
    rw [Editor.key_enter enter]
    have ended : c.ed.ended.Ring (remembered cmds) := ring.congr rfl rfl
    exact (ended.remember (Editor.ended_str ok) short fits).congr rfl rfl
  · rw [enters, if_neg enter, List.append_nil]
    simp only [round]
    split
    next => exact ring
    next =>
      obtain ⟨hist, count⟩ := (Editor.key_ok strings ok (c.code serial)).2 enter
      exact ring.congr hist count

theorem remembered_grows (cmds more : List (List Byte)) :
    (remembered cmds).length ≤ (remembered (cmds ++ more)).length := by
  induction more using List.reverseRecOn with
  | nil => rw [List.append_nil]
  | append_singleton more cmd ih =>
    rw [← List.append_assoc, remembered_snoc, addCommand]
    split
    next => exact ih
    next =>
      rw [List.length_append]
      exact Nat.le_add_right_of_le ih

theorem Entered.ok (entered : Entered cmds c) : c.ed.LineOk := by
  induction entered with
  | boot => exact ⟨rfl, Nat.zero_le _, fun i low => absurd low (Nat.not_lt_zero i)⟩
  | interrupt sc entered ih => exact ih
  | round serial strings entered ih => exact round_ok strings ih
  | taken entered ih => exact ih

theorem Entered.ring (entered : Entered cmds c) (fits : (remembered cmds).length < 2 ^ 32) :
    c.ed.Ring (remembered cmds) := by
  induction entered with
  | boot => exact Editor.ring_fresh
  | interrupt sc entered ih => exact ih fits
  | round serial strings entered ih =>
    exact round_ring strings entered.ok (ih (Nat.lt_of_le_of_lt (remembered_grows _ _) fits)) fits
  | taken entered ih => exact ih fits

def press (sc : Byte) (c : Console) : Console := ((c.interrupt 0xE0#8).interrupt sc).round none []

def send (code : Nat) (c : Console) : Console :=
  { c with kb := c.kb.kbEnqueueU16 code }.round none []

def Drained (c : Console) : Prop := c.kb.queue.head = c.kb.queue.tail

/-- Nothing typed yet, and no command recalled. -/
structure AtPrompt (c : Console) : Prop where
  drained : c.Drained
  empty : c.ed.lineLen = 0
  pos : c.ed.histPos = -1

def expected (cmds : List (List Byte)) (k j : Nat) : List Byte :=
  recent (remembered cmds) (min k (Editor.reach (remembered cmds)) - j)

/-- `k` times `up` shows the command they lead to, and so do then `j` times `down`. -/
structure Recalls (up down : Console → Console) (cmds : List (List Byte)) (c : Console)
    (k j : Nat) : Prop where
  older : (up^[k] c).ed.Shows (expected cmds k 0)
  newer : (down^[j] (up^[k] c)).ed.Shows (expected cmds k j)

theorem getc_enqueue {kb : Keyboard} (drained : kb.queue.head = kb.queue.tail) (code : Nat) :
    (kb.kbEnqueueU16 code).keyboardGetc.1 = code ∧
      (kb.kbEnqueueU16 code).keyboardGetc.2.queue.head =
        (kb.kbEnqueueU16 code).keyboardGetc.2.queue.tail := by
  have apart : Circular.next Keyboard.kbBufSize kb.queue.head ≠ kb.queue.tail := by
    rw [← drained, Circular.next, Keyboard.kbBufSize]
    omega
  have pushed : (kb.kbEnqueueU16 code).queue =
      { kb.queue with
        cells := fun i => if i = kb.queue.head then code else kb.queue.cells i
        head := Circular.next Keyboard.kbBufSize kb.queue.head } := if_neg apart
  rw [Keyboard.keyboardGetc, pushed, if_neg apart]
  simp only
  exact ⟨if_pos drained.symm, congrArg (Circular.next Keyboard.kbBufSize) drained⟩

theorem send_one (drained : c.Drained) {code : Nat} (some : code ≠ 0) :
    (c.send code).ed = c.ed.key [] code ∧ (c.send code).Drained := by
  obtain ⟨first, after⟩ := getc_enqueue drained code
  have taken : Console.code { c with kb := c.kb.kbEnqueueU16 code } none = code := by
    rw [Console.code, if_neg (by rw [first]; exact some)]
    exact first
  constructor
  · rw [send, round, taken, if_neg some]
  · exact after

theorem press_eq {sc : Byte} (arrow : sc = 0x48#8 ∨ sc = 0x50#8) (c : Console) :
    c.press sc = send (Keyboard.keyExt + sc.toNat) { c with kb := { c.kb with extended := false } } := by
  rcases arrow with rfl | rfl
  · rfl
  · rfl

theorem press_one {sc : Byte} (arrow : sc = 0x48#8 ∨ sc = 0x50#8) (drained : c.Drained) :
    (c.press sc).ed = c.ed ∧ (c.press sc).Drained := by
  rw [press_eq arrow]
  have some : Keyboard.keyExt + sc.toNat ≠ 0 := by
    simp only [Keyboard.keyExt]
    omega
  have sent := send_one (c := { c with kb := { c.kb with extended := false } }) drained some
  rw [Editor.key_arrow [] _ arrow] at sent
  exact sent

theorem presses {sc : Byte} (arrow : sc = 0x48#8 ∨ sc = 0x50#8) (drained : c.Drained) (n : Nat) :
    ((press sc)^[n] c).ed = c.ed ∧ ((press sc)^[n] c).Drained := by
  induction n with
  | zero => exact ⟨rfl, drained⟩
  | succ n ih =>
    rw [Function.iterate_succ_apply']
    obtain ⟨same, drained⟩ := press_one arrow ih.2
    exact ⟨same.trans ih.1, drained⟩

theorem sends_up {commands : List (List Byte)} (nav : c.ed.NavAt commands 0) (drained : c.Drained)
    (k : Nat) :
    ((send Editor.upKey)^[k] c).ed.NavAt commands (min k (Editor.reach commands)) ∧
      ((send Editor.upKey)^[k] c).Drained := by
  induction k with
  | zero =>
    rw [Nat.zero_min]
    exact ⟨nav, drained⟩
  | succ k ih =>
    rw [Function.iterate_succ_apply']
    obtain ⟨moved, drained⟩ := send_one ih.2 (by decide : Editor.upKey ≠ 0)
    have further := ih.1.older
    have steps : min (min k (Editor.reach commands) + 1) (Editor.reach commands) =
        min (k + 1) (Editor.reach commands) := by
      omega
    rw [steps] at further
    rw [moved, Editor.key_up]
    exact ⟨further, drained⟩

theorem sends_down {commands : List (List Byte)} {q : Nat} (nav : c.ed.NavAt commands q)
    (drained : c.Drained) (j : Nat) :
    ((send Editor.downKey)^[j] c).ed.NavAt commands (q - j) ∧
      ((send Editor.downKey)^[j] c).Drained := by
  induction j with
  | zero => exact ⟨nav, drained⟩
  | succ j ih =>
    rw [Function.iterate_succ_apply']
    obtain ⟨moved, drained⟩ := send_one ih.2 (by decide : Editor.downKey ≠ 0)
    rw [moved, Editor.key_down, ← Nat.sub_sub]
    exact ⟨ih.1.newer, drained⟩

theorem recalls_send (entered : Entered cmds c) (prompt : c.AtPrompt)
    (fits : (remembered cmds).length < 2 ^ 32) (k j : Nat) :
    Recalls (send Editor.upKey) (send Editor.downKey) cmds c k j := by
  have start : c.ed.NavAt (remembered cmds) 0 :=
    ⟨entered.ring fits, prompt.pos, Nat.zero_le _, Editor.shows_empty prompt.empty⟩
  obtain ⟨older, drained⟩ := sends_up start prompt.drained k
  exact ⟨older.shows, (sends_down older drained j).1.shows⟩

theorem recalls_press_iff (prompt : c.AtPrompt) (k j : Nat) :
    Recalls (press 0x48#8) (press 0x50#8) cmds c k j ↔ k = 0 ∨ remembered cmds = [] := by
  obtain ⟨up, drained⟩ := presses (Or.inl rfl : 0x48#8 = 0x48#8 ∨ _) prompt.drained k
  obtain ⟨down, -⟩ := presses (Or.inr rfl : _ ∨ 0x50#8 = 0x50#8) drained j
  have blank : c.ed.Shows [] := Editor.shows_empty prompt.empty
  constructor
  · intro recalls
    by_contra away
    rw [not_or] at away
    have positive := List.length_pos_of_ne_nil away.2
    have older := recalls.older
    rw [up] at older
    have none := blank.unique older
    rw [expected, Nat.sub_zero, recent_eq (by simp only [Editor.reach, histMax]; omega)
      (by simp only [Editor.reach]; omega)] at none
    exact remembered_some cmds _ (List.getElem_mem _) none.symm
  · intro bottom
    have nothing : ∀ j, expected cmds k j = [] := by
      intro j
      rw [expected]
      rcases bottom with zero | unused
      · rw [zero, Nat.zero_min, Nat.zero_sub]
        rfl
      · have unreached : Editor.reach [] = 0 := rfl
        rw [unused, unreached, Nat.min_zero, Nat.zero_sub]
        rfl
    constructor
    · rw [up, nothing]
      exact blank
    · rw [down, up, nothing]
      exact blank

/-- The arrow keys recall nothing, although the history behind the codes of the shell is right. -/
theorem arrows_recall_iff (entered : Entered cmds c) (prompt : c.AtPrompt) (k j : Nat) :
    (Recalls (press 0x48#8) (press 0x50#8) cmds c k j ↔ k = 0 ∨ remembered cmds = []) ∧
      ((remembered cmds).length < 2 ^ 32 → Recalls (send Editor.upKey) (send Editor.downKey) cmds c k j) :=
  ⟨recalls_press_iff prompt k j, fun fits => recalls_send entered prompt fits k j⟩

def typeKey (sc : Byte) (c : Console) : Console := (c.interrupt sc).round none []

theorem Entered.typeKey (entered : Entered cmds c) (sc : Byte) :
    Entered (cmds ++ (c.interrupt sc).enters none) (c.typeKey sc) :=
  (entered.interrupt sc).round none (by simp)

def typed : Console := ((boot.typeKey 0x26#8).typeKey 0x1F#8).typeKey 0x1C#8

def ls : List Byte := [0x6C#8, 0x73#8]

theorem entered_typed : Entered [ls] typed :=
  ((Entered.boot.typeKey 0x26#8).typeKey 0x1F#8).typeKey 0x1C#8

theorem typed_atPrompt : typed.AtPrompt where
  drained := rfl
  empty := rfl
  pos := rfl

theorem arrows_recall_typed :
    (Recalls (press 0x48#8) (press 0x50#8) [ls] typed 1 1 ↔ 1 = 0 ∨ remembered [ls] = []) ∧
      ((remembered [ls]).length < 2 ^ 32 → Recalls (send Editor.upKey) (send Editor.downKey) [ls] typed 1 1) :=
  arrows_recall_iff entered_typed typed_atPrompt 1 1

theorem arrows_recall_nothing :
    ¬ ∀ (cmds : List (List Byte)) (c : Console), Entered cmds c → c.AtPrompt →
    ∀ k j, Recalls (press 0x48#8) (press 0x50#8) cmds c k j := by
  intro recalls
  have up := (recalls_press_iff typed_atPrompt 1 0).mp
    (recalls [ls] typed entered_typed typed_atPrompt 1 0)
  rcases up with none | unused
  · exact absurd none (by decide)
  · exact absurd unused (by decide)

end Console

end Shell

end NovaKernel
