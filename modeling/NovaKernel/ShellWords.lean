import NovaKernel.Shell

set_option autoImplicit false

namespace NovaKernel

namespace Shell

open Words

def Str (line : Nat → Byte) : Nat → List Byte → Prop
  | s, [] => line s = 0
  | s, c :: text => c ≠ 0 ∧ line s = c ∧ Str line (s + 1) text

section Str

variable {line line' : Nat → Byte} {s : Nat} {text : List Byte}

theorem Str.cString (str : Str line s text) {n : Nat} (room : text.length ≤ n) :
    cString line n s = text := by
  induction text generalizing s n with
  | nil =>
    cases n with
    | zero => rfl
    | succ n => exact if_pos str
  | cons c text ih =>
    obtain ⟨some, here, rest⟩ := str
    cases n with
    | zero => simp at room
    | succ n =>
      rw [Shell.cString, here, if_neg some, ih rest (by simpa using room)]

theorem Str.drop {u : List Byte} (str : Str line s (u ++ text)) : Str line (s + u.length) text := by
  induction u generalizing s with
  | nil => exact str
  | cons c u ih =>
    have rest := ih str.2.2
    rwa [List.length_cons, Nat.add_comm u.length, ← Nat.add_assoc]

theorem Str.congr (str : Str line s text) (same : ∀ i, s ≤ i → line' i = line i) :
    Str line' s text := by
  induction text generalizing s with
  | nil => exact (same s (Nat.le_refl s)).trans str
  | cons c text ih =>
    obtain ⟨some, here, rest⟩ := str
    exact ⟨some, (same s (Nat.le_refl s)).trans here,
      ih rest fun i later => same i (Nat.le_of_succ_le later)⟩

theorem Str.cut {u : List Byte} (str : Str line s (u ++ text))
    (same : ∀ i < s + u.length, line' i = line i) (ends : line' (s + u.length) = 0) :
    Str line' s u := by
  induction u generalizing s with
  | nil => exact ends
  | cons c u ih =>
    obtain ⟨some, here, rest⟩ := str
    rw [List.length_cons] at same ends
    refine ⟨some, (same s (by omega)).trans here, ih rest (fun i low => same i (by omega)) ?_⟩
    rwa [Nat.add_assoc, Nat.add_comm 1]

theorem Str.skip {u : List Byte} (str : Str line s (u ++ text)) {p : Byte → Bool}
    (run : ∀ c ∈ u, p c = true) (stops : p (line (s + u.length)) = false) {n : Nat}
    (room : u.length ≤ n) :
    skipWhile p line n s = s + u.length := by
  induction u generalizing s n with
  | nil =>
    cases n with
    | zero => rfl
    | succ n => exact if_neg (by simpa using stops)
  | cons c u ih =>
    obtain ⟨-, here, rest⟩ := str
    obtain ⟨first, run⟩ := List.forall_mem_cons.mp run
    cases n with
    | zero => simp at room
    | succ n =>
      rw [List.length_cons] at stops room ⊢
      rw [skipWhile, here, if_pos first,
        ih rest run (by rwa [Nat.add_assoc, Nat.add_comm 1]) (by omega)]
      omega

theorem Str.solid (str : Str line s text) : ∀ c ∈ text, c ≠ 0 := by
  induction text generalizing s with
  | nil => simp
  | cons c text ih => exact List.forall_mem_cons.mpr ⟨str.1, ih str.2.2⟩

end Str

theorem Str.token {line : Nat → Byte} {s : Nat} {bs w rest : List Byte}
    (str : Str line s (bs ++ (w ++ rest))) (front : ∀ b ∈ bs, isBlank b = true)
    (word : IsWord isBlank w) (stops : inWord (line (s + bs.length + w.length)) = false)
    (short : (bs ++ (w ++ rest)).length ≤ lineMax) :
    skipWhile isBlank line lineMax s = s + bs.length ∧ line (s + bs.length) ≠ 0 ∧
      skipWhile inWord line lineMax (s + bs.length) = s + bs.length + w.length := by
  simp only [List.length_append] at short
  have begins := str.drop
  have run : ∀ c ∈ w, inWord c = true := fun c member => by
    have nonzero := begins.solid c (List.mem_append_left _ member)
    simpa [inWord, word.solid c member] using nonzero
  obtain ⟨c, w', rfl⟩ := List.exists_cons_of_ne_nil word.some
  have first : line (s + bs.length) = c := begins.2.1
  refine ⟨str.skip front ?_ (by omega), ?_, begins.skip run stops (by omega)⟩
  · rw [first]
    exact word.solid c List.mem_cons_self
  · rw [first]
    exact begins.1

theorem splitFrom_words {line : Nat → Byte} {s : Nat} {text : List Byte} (room : Nat)
    (str : Str line s text) (short : text.length ≤ lineMax) :
    (∀ i < s, (splitFrom line s room).2 i = line i) ∧
      (splitFrom line s room).1.map (cString (splitFrom line s room).2 lineMax) =
        (words isBlank text).take room := by
  induction room generalizing line s text with
  | zero => exact ⟨fun _ _ => rfl, rfl⟩
  | succ room ih =>
    cases firstWord isBlank text with
    | none front =>
      have whole : Str line s (text ++ []) := (List.append_nil text).symm ▸ str
      have atEnd : line (s + text.length) = 0 := whole.drop
      have start : skipWhile isBlank line lineMax s = s + text.length :=
        whole.skip front (by rw [atEnd]; decide) short
      have none' := words_blanks isBlank front []
      rw [List.append_nil, words_nil] at none'
      simp [splitFrom, start, atEnd, none']
    | @last bs w front word =>
      have str' : Str line s (bs ++ (w ++ [])) := by simpa using str
      have atEnd : line (s + bs.length + w.length) = 0 := str'.drop.drop
      obtain ⟨start, some, stop⟩ :=
        str'.token front word (by rw [atEnd]; decide) (by simpa using short)
      have token := str.drop.cString (n := lineMax) (by rw [List.length_append] at short; omega)
      rw [words_blanks isBlank front, word.words]
      simp only [splitFrom, start, some, if_false, stop, atEnd, if_true]
      exact ⟨fun _ _ => trivial, by simp [token]⟩
    | @more bs w rest b front word separates =>
      have atEnd : line (s + bs.length + w.length) = b := str.drop.drop.2.1
      obtain ⟨start, some, stop⟩ :=
        str.token front word (by rw [atEnd]; simp [inWord, separates]) short
      have solid := str.drop.drop.1
      -- The rest of the line is still there behind the NUL.
      have str' : Str (Function.update line (s + bs.length + w.length) 0) (s + bs.length + w.length + 1) rest :=
        str.drop.drop.2.2.congr fun i later => Function.update_of_ne (by omega) _ _
      simp only [List.length_append, List.length_cons] at short
      obtain ⟨kept, rest'⟩ := ih str' (by omega)
      rw [words_blanks isBlank front, word.words_cons separates, List.take_succ_cons]
      simp only [splitFrom, start, some, if_false, stop, atEnd, solid]
      generalize splitFrom (Function.update line (s + bs.length + w.length) 0) (s + bs.length + w.length + 1) room = r at *
      have token : Str r.2 (s + bs.length) w := by
        refine str.drop.cut (fun i low => ?_) ?_
        · rw [kept i (by omega), Function.update_of_ne (by omega)]
        · rw [kept _ (by omega), Function.update_self]
      refine ⟨fun i low => ?_, ?_⟩
      · rw [kept i (by omega), Function.update_of_ne (by omega)]
      · rw [List.map_cons, token.cString (by omega), rest']

theorem tokens_words {line : Nat → Byte} {text : List Byte} (str : Str line 0 text)
    (short : text.length < lineMax) :
    tokens line = (words isBlank text).take (argvMax - 1) :=
  (splitFrom_words (argvMax - 1) str (Nat.le_of_lt short)).2

theorem pushTail_word (word tail : List Byte) (room : tail.length + word.length ≤ lineMax - 2) :
    word.foldl pushTail tail = tail ++ word := by
  induction word generalizing tail with
  | nil => simp
  | cons c word ih =>
    rw [List.length_cons] at room
    rw [List.foldl_cons, pushTail, if_pos (by omega),
      ih _ (by rw [List.length_append, List.length_singleton]; omega),
      List.append_assoc]
    rfl

theorem rejoinFrom_join (args : List (List Byte)) (tail : List Byte)
    (room : (tail ++ args.flatMap (0x20#8 :: ·)).length ≤ lineMax - 2) :
    rejoinFrom args tail = tail ++ args.flatMap (0x20#8 :: ·) := by
  induction args generalizing tail with
  | nil => simp [rejoinFrom]
  | cons arg args ih =>
    have here : (tail ++ 0x20#8 :: arg).length ≤ lineMax - 2 := by
      simp only [List.flatMap_cons, List.length_append] at room ⊢
      omega
    simp only [List.length_append, List.length_cons] at here
    have space : pushTail tail 0x20#8 = tail ++ [0x20#8] := if_pos (by omega)
    have word : arg.foldl pushTail (tail ++ [0x20#8]) = tail ++ 0x20#8 :: arg := by
      rw [pushTail_word _ _ (by rw [List.length_append, List.length_singleton]; omega),
        List.append_assoc]
      rfl
    rw [rejoinFrom, if_pos (by omega), space, word, ih _ (by simpa using room)]
    simp

theorem rejoin_join {args : List (List Byte)} (room : (join 0x20#8 args).length ≤ lineMax - 2) :
    rejoin args = join 0x20#8 args := by
  cases args with
  | nil => rfl
  | cons arg args =>
    rw [join_cons_eq] at room ⊢
    have first : arg.foldl pushTail [] = arg := by
      rw [pushTail_word arg [] (by rw [List.length_append] at room; simp only [List.length_nil]; omega),
        List.nil_append]
    rw [rejoin, first, rejoinFrom_join args arg room]

theorem writeArgs_join {name : List Byte} {text : List (List Byte)} (some : text ≠ [])
    (solid : ∀ w ∈ name :: text, IsWord isBlank w) :
    writeArgs (join 0x20#8 (name :: text)) = .some (name, join 0x20#8 text) := by
  obtain ⟨first, rest⟩ := List.forall_mem_cons.mp solid
  have noSpace : ∀ c ∈ name, (decide (c ≠ 0x20#8)) = true := fun c member => by
    have other := first.solid c member
    simp only [isBlank, decide_eq_false_iff_not, not_or] at other
    simpa using other.1
  obtain ⟨v, text', rfl⟩ := List.exists_cons_of_ne_nil some
  have starts : ∀ (w rest : List Byte), IsWord isBlank w →
      (w ++ rest).dropWhile (· = 0x20#8) = w ++ rest :=
    fun w rest word => by
      obtain ⟨c, w', rfl⟩ := List.exists_cons_of_ne_nil word.some
      have other := word.solid c List.mem_cons_self
      simp only [isBlank, decide_eq_false_iff_not, not_or] at other
      simp [other.1]
  have text_starts : (join 0x20#8 (v :: text')).dropWhile (· = 0x20#8) =
      join 0x20#8 (v :: text') := by
    rw [join_cons_eq]
    exact starts v _ (rest v List.mem_cons_self)
  rw [join_cons 0x20#8 name (by simp), writeArgs, starts name _ first]
  simp only [List.dropWhile_append_of_pos noSpace, List.takeWhile_append_of_pos noSpace]
  simp [text_starts]

theorem dispatch_echo (args : List (List Byte)) : dispatch echoName args = .echo (rejoin args) := by
  simp [dispatch, show echoName ∉ simpleNames by decide, show echoName ≠ catName by decide,
    show echoName ≠ hexdumpName by decide, show echoName ≠ statName by decide,
    show echoName ≠ writeName by decide, show echoName ≠ appendName by decide,
    show echoName ≠ rmName by decide, show echoName ≠ runName by decide]

def isWriteName (c : List Byte) : Prop := c = writeName ∨ c = appendName

def writeUsage (c : List Byte) : String :=
  if c = writeName then "write: usage: write <file> <text>\n" else "append: usage: append <file> <text>\n"

theorem dispatch_write {c : List Byte} (write : isWriteName c) (args : List (List Byte)) :
    dispatch c args = if args.length < 2 then .err (writeUsage c) else .write (rejoin args) (c = appendName) := by
  have others : c ∉ simpleNames ∧ c ≠ catName ∧ c ≠ hexdumpName ∧ c ≠ statName := by
    rcases write with rfl | rfl <;> decide
  simp only [dispatch, others, if_false]
  exact if_pos write

/-- What a line's words are passed on as: `echo`'s output, or the file name and the text. -/
structure LosesNothing (line : Nat → Byte) (text : List Byte) : Prop where
  tokens : tokens line = words isBlank text ∨
    ∃ before rest, text = before ++ rest ∧ tokens line = words isBlank before ++ [rest]
  echo : ∀ args, words isBlank text = echoName :: args → execute line = .echo (join 0x20#8 args)
  -- With fewer than two operands nothing is passed on.
  usage : ∀ c args, isWriteName c → words isBlank text = c :: args → args.length < 2 →
    execute line = .err (writeUsage c)
  write : ∀ c file w ws, isWriteName c → words isBlank text = c :: file :: w :: ws →
    ∃ tail, execute line = .write tail (c = appendName) ∧
      writeArgs tail = some (file, join 0x20#8 (w :: ws))

section Line

variable {line : Nat → Byte} {text c : List Byte} {args : List (List Byte)}

theorem execute_words (str : Str line 0 text) (short : text.length < lineMax)
    (command : words isBlank text = c :: args) :
    execute line = dispatch c (args.take (argvMax - 2)) := by
  rw [execute, tokens_words str short, command]
  rfl

theorem operands_short (short : text.length < lineMax) (command : words isBlank text = c :: args)
    (n : Nat) :
    (join 0x20#8 (args.take n)).length ≤ lineMax - 2 := by
  have name : IsWord isBlank c := words_isWord text c (by rw [command]; exact List.mem_cons_self)
  have positive := List.length_pos_iff.mpr name.some
  have whole : c.length + (args.flatMap (0x20#8 :: ·)).length ≤ text.length := by
    have joined : (join 0x20#8 (words isBlank text)).length ≤ text.length :=
      join_words_length 0x20#8 text
    rwa [command, join_cons_eq, List.length_append] at joined
  have parts : (args.flatMap (0x20#8 :: ·)).length =
      ((args.take n).flatMap (0x20#8 :: ·)).length + ((args.drop n).flatMap (0x20#8 :: ·)).length := by
    rw [← List.length_append, ← List.flatMap_append, List.take_append_drop]
  have joined : (join 0x20#8 (args.take n)).length ≤
      ((args.take n).flatMap (0x20#8 :: ·)).length := by
    cases args.take n with
    | nil => exact Nat.zero_le _
    | cons a rest =>
      rw [join_cons_eq, List.flatMap_cons, List.length_append, List.length_append, List.length_cons]
      omega
  simp only [lineMax] at short ⊢
  omega

theorem operands_solid (command : words isBlank text = c :: args) (n : Nat) :
    ∀ w ∈ args.take n, IsWord isBlank w :=
  fun w member =>
    words_isWord text w (by rw [command]; exact List.mem_cons_of_mem c (List.mem_of_mem_take member))

theorem join_inj {ws vs : List (List Byte)} (solid : ∀ w ∈ ws, IsWord isBlank w)
    (solid' : ∀ w ∈ vs, IsWord isBlank w)
    (same : join 0x20#8 ws = join 0x20#8 vs) : ws = vs := by
  have separates : isBlank 0x20#8 = true := rfl
  rw [← words_join separates solid, same, words_join separates solid']

theorem keeps_of_few (str : Str line 0 text) (short : text.length < lineMax)
    (few : (words isBlank text).length < argvMax) : LosesNothing line text := by
  have fits : ∀ {c args}, words isBlank text = c :: args → args.take (argvMax - 2) = args :=
    fun {c args} command => by
    rw [command, List.length_cons] at few
    exact List.take_of_length_le (by simp only [argvMax] at few ⊢; omega)
  constructor
  case tokens =>
    left
    rw [tokens_words str short]
    exact List.take_of_length_le (Nat.le_sub_one_of_lt few)
  case echo =>
    intro args command
    rw [execute_words str short command, dispatch_echo,
      rejoin_join (operands_short short command _), fits command]
  case usage =>
    intro c args write command missing
    rw [execute_words str short command, dispatch_write write, fits command, if_pos missing]
  case write =>
    intro c file w ws write command
    have solid := operands_solid command (argvMax - 2)
    have room := operands_short short command (argvMax - 2)
    rw [fits command] at solid room
    refine ⟨join 0x20#8 (file :: w :: ws), ?_, writeArgs_join (by simp) solid⟩
    rw [execute_words str short command, dispatch_write write, fits command, rejoin_join room]
    exact if_neg (by simp)

theorem few_of_keeps (str : Str line 0 text) (short : text.length < lineMax)
    (command : words isBlank text = c :: args)
    (textual : c = echoName ∨ isWriteName c) (keeps : LosesNothing line text) :
    (words isBlank text).length < argvMax := by
  have solid := operands_solid command (argvMax - 2)
  have solid' : ∀ w ∈ args, IsWord isBlank w := by simpa using operands_solid command args.length
  have room := operands_short short command (argvMax - 2)
  have fewer : args.take (argvMax - 2) = args → (words isBlank text).length < argvMax :=
    fun same => by
    have length := congrArg List.length same
    rw [List.length_take] at length
    rw [command, List.length_cons]
    simp only [argvMax] at length ⊢
    omega
  have executed := execute_words str short command
  rcases textual with rfl | write
  · rw [dispatch_echo, rejoin_join room, keeps.echo args command] at executed
    exact fewer (join_inj solid' solid (Action.echo.inj executed)).symm
  · rw [dispatch_write write] at executed
    match args with
    | [] => exact fewer rfl
    | [file] => exact fewer rfl
    | file :: w :: ws =>
      obtain ⟨tail, action, parts⟩ := keeps.write c file w ws write command
      have both : (file :: w :: ws).take (argvMax - 2) = file :: w :: ws.take (argvMax - 4) := rfl
      rw [if_neg (by rw [both]; simp), action] at executed
      have tail_eq := (Action.write.inj executed).1
      rw [rejoin_join room, both] at tail_eq
      rw [both] at solid
      rw [tail_eq, writeArgs_join (by simp) solid] at parts
      have text_eq := (Prod.mk.inj (Option.some.inj parts)).2
      refine fewer ?_
      rw [both, join_inj (fun v member => solid v (List.mem_cons_of_mem file member))
        (fun v member => solid' v (List.mem_cons_of_mem file member)) text_eq]

end Line

/-- Nothing is lost of a line whose words fit the argument vector, and of no other. -/
theorem loses_nothing_iff {line : Nat → Byte} {text : List Byte} (str : Str line 0 text)
    (short : text.length < lineMax)
    (textual : ∃ c, (words isBlank text).head? = some c ∧ (c = echoName ∨ isWriteName c)) :
    LosesNothing line text ↔ (words isBlank text).length < argvMax := by
  obtain ⟨c, first, textual⟩ := textual
  obtain ⟨args, command⟩ := List.head?_eq_some_iff.mp first
  exact ⟨few_of_keeps str short command textual, keeps_of_few str short⟩

def lineOf (text : List Byte) (i : Nat) : Byte := text.getD i 0

theorem str_lineOf {text : List Byte} (solid : ∀ c ∈ text, c ≠ 0) : Str (lineOf text) 0 text := by
  have rests : ∀ (before rest : List Byte), (∀ c ∈ rest, c ≠ 0) →
      Str (lineOf (before ++ rest)) before.length rest := by
    intro before rest
    induction rest generalizing before with
    | nil => exact fun _ => by simp [Str, lineOf]
    | cons c rest ih =>
      intro solid
      obtain ⟨first, solid⟩ := List.forall_mem_cons.mp solid
      refine ⟨first, by simp [lineOf], ?_⟩
      simpa using ih (before ++ [c]) solid
  exact rests [] text solid

def echoLine (n : Nat) : List (List Byte) := echoName :: List.replicate n [0x61#8]

theorem echoLine_solid (n : Nat) : ∀ w ∈ echoLine n, IsWord isBlank w := by
  refine List.forall_mem_cons.mpr ⟨⟨by decide, by decide⟩, fun w member => ?_⟩
  rw [List.eq_of_mem_replicate member]
  exact ⟨by decide, by decide⟩

theorem echoLine_words (n : Nat) : words isBlank (join 0x20#8 (echoLine n)) = echoLine n :=
  words_join rfl (echoLine_solid n)

theorem loses_nothing_fourteen :
    LosesNothing (lineOf (join 0x20#8 (echoLine 14))) (join 0x20#8 (echoLine 14)) :=
  (loses_nothing_iff (str_lineOf (by decide)) (by decide) ⟨echoName, by rw [echoLine_words]; rfl, .inl rfl⟩).mpr (by
    rw [echoLine_words]
    decide)

/-- The fifteenth operand is lost. -/
theorem split_loses : ¬ ∀ (line : Nat → Byte) (text : List Byte), Str line 0 text →
    text.length < lineMax →
    (∃ c, (words isBlank text).head? = some c ∧ (c = echoName ∨ isWriteName c)) →
      LosesNothing line text := by
  intro all
  have keeps := all (lineOf (join 0x20#8 (echoLine 15))) (join 0x20#8 (echoLine 15))
    (str_lineOf (by decide)) (by decide)
    ⟨echoName, by rw [echoLine_words]; rfl, .inl rfl⟩
  have few := few_of_keeps (str_lineOf (by decide)) (by decide) (echoLine_words 15) (.inl rfl) keeps
  rw [echoLine_words] at few
  exact absurd few (by decide)

end Shell

end NovaKernel
