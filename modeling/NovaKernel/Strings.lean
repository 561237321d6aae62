import NovaKernel.Common
import Mathlib.Logic.Function.Basic

set_option autoImplicit false

namespace NovaKernel

namespace Libc

abbrev Mem := Word → Byte

def strlenFrom (m : Mem) (s : Word) : Nat → Word → Option Word
  | 0, _ => none
  | fuel + 1, n => if m s = 0 then some n else strlenFrom m (s + 1) fuel (n + 1)

-- After `2 ^ 32` bytes the pointer is back at `s`: no byte is zero and the loop does not end.
def strlen (m : Mem) (s : Word) : Option Word := strlenFrom m s (2 ^ 32) 0

-- `while (n && (*d++ = *src++)) n--;`: a NUL is stored and `d` moves on, but `n` is not counted
-- down.
def copyLoop (d src : Word) : Nat → Mem → Mem × Word × Nat
  | 0, m => (m, d, 0)
  | n + 1, m =>
    let c := m src
    let m := Function.update m d c
    if c = 0 then (m, d + 1, n + 1) else copyLoop (d + 1) (src + 1) n m

-- `while (n--) *d++ = '\0';`
def zeroLoop (d : Word) : Nat → Mem → Mem
  | 0, m => m
  | n + 1, m => zeroLoop (d + 1) n (Function.update m d 0)

def strncpyFrom (dst src : Word) (n : Nat) (m : Mem) : Mem :=
  let (m, d, n) := copyLoop dst src n m
  zeroLoop d n m

def strncpy (dst src n : Word) (m : Mem) : Word × Mem := (dst, strncpyFrom dst src n.toNat m)

-- `d` moves on with every byte of the first loop, and the second stores what is left of `n`.
def bytesStored (dst src n : Word) (m : Mem) : Nat :=
  let (_, d, rest) := copyLoop dst src n.toNat m
  (d - dst).toNat + rest

/-- What C promises of `strncpy` for a string of `len` characters. -/
structure CopiesExactly (dst src n len : Word) (m m' : Mem) : Prop where
  copied : ∀ i, i < n → i < len → m' (dst + i) = m (src + i)
  padded : ∀ i, i < n → len ≤ i → m' (dst + i) = 0
  kept : ∀ i, n ≤ i → m' (dst + i) = m (dst + i)

/-- No character the loop reads was overwritten before with a different one. C asks for more, that the two do
not overlap. -/
def Unspoiled (dst src n len : Word) (m : Mem) : Prop :=
  ∀ i j : Word, i < n → i ≤ len → j < i → dst + j = src + i → m (src + j) = m (src + i)

theorem add_ofNat_succ (d : Word) (k : Nat) :
    d + 1 + BitVec.ofNat 32 k = d + BitVec.ofNat 32 (k + 1) := by
  rw [BitVec.ofNat_add, BitVec.add_assoc, BitVec.add_comm (1 : Word)]
  rfl

theorem offset_succ (x d : Word) :
    (x - (d + 1)).toNat = if x = d then 2 ^ 32 - 1 else (x - d).toNat - 1 := by
  split <;> bv_omega

theorem offset_self (d i : Word) : d + i - d = i := by
  rw [BitVec.add_comm, BitVec.add_sub_cancel]

theorem add_offset (d x : Word) : d + (x - d) = x := by
  rw [BitVec.add_comm, BitVec.sub_add_cancel]

theorem offset_eq {x d : Word} {k : Nat} (low : k < 2 ^ 32) :
    x = d + BitVec.ofNat 32 k ↔ (x - d).toNat = k := by
  constructor
  · intro same
    rw [same, offset_self, BitVec.toNat_ofNat, Nat.mod_eq_of_lt low]
  · intro same
    rw [← same, BitVec.ofNat_toNat, BitVec.setWidth_eq, add_offset]

theorem strlenFrom_some {m : Mem} {s : Word} {fuel : Nat} {n len : Word} :
    strlenFrom m s fuel n = some len ↔
      ∃ k < fuel, len = n + BitVec.ofNat 32 k ∧ (∀ i < k, m (s + BitVec.ofNat 32 i) ≠ 0) ∧
        m (s + BitVec.ofNat 32 k) = 0 := by
  induction fuel generalizing s n with
  | zero => simp [strlenFrom]
  | succ fuel ih =>
    rw [strlenFrom]
    by_cases ends : m s = 0
    · rw [if_pos ends]
      constructor
      · intro found
        refine ⟨0, Nat.succ_pos fuel, ?_, fun i low => absurd low (Nat.not_lt_zero i), ?_⟩
        · simpa using (Option.some.inj found).symm
        · simpa using ends
      · rintro ⟨k, -, rfl, chars, -⟩
        cases k with
        | zero => simp
        | succ k => exact absurd (by simpa using ends) (chars 0 (Nat.succ_pos k))
    · rw [if_neg ends, ih]
      constructor
      · rintro ⟨k, low, rfl, chars, nul⟩
        refine ⟨k + 1, Nat.succ_lt_succ low, add_ofNat_succ n k, fun i below => ?_, ?_⟩
        · cases i with
          | zero => simpa using ends
          | succ i => exact add_ofNat_succ s i ▸ chars i (Nat.lt_of_succ_lt_succ below)
        · rwa [← add_ofNat_succ]
      · rintro ⟨k, low, rfl, chars, nul⟩
        cases k with
        | zero => exact absurd (by simpa using nul) ends
        | succ k =>
          refine ⟨k, Nat.lt_of_succ_lt_succ low, (add_ofNat_succ n k).symm, fun i below => ?_, ?_⟩
          · rw [add_ofNat_succ]
            exact chars (i + 1) (Nat.succ_lt_succ below)
          · rwa [add_ofNat_succ]

theorem strlen_some {m : Mem} {s len : Word} :
    strlen m s = some len ↔ (∀ i < len, m (s + i) ≠ 0) ∧ m (s + len) = 0 := by
  rw [strlen, strlenFrom_some]
  constructor
  · rintro ⟨k, low, rfl, chars, nul⟩
    refine ⟨fun i below => ?_, by simpa using nul⟩
    rw [show (0 : Word) + BitVec.ofNat 32 k = BitVec.ofNat 32 k from BitVec.zero_add _,
      BitVec.lt_def, BitVec.toNat_ofNat, Nat.mod_eq_of_lt low] at below
    simpa using chars i.toNat below
  · rintro ⟨chars, nul⟩
    refine ⟨len.toNat, len.isLt, by simp, fun i below => ?_, by simpa using nul⟩
    apply chars
    rw [BitVec.lt_def, BitVec.toNat_ofNat]
    exact Nat.lt_of_le_of_lt (Nat.mod_le _ _) below

theorem zeroLoop_cell (d : Word) (n : Nat) (m : Mem) (x : Word) (fits : n ≤ 2 ^ 32) :
    zeroLoop d n m x = if (x - d).toNat < n then 0 else m x := by
  induction n generalizing d m with
  | zero => rw [if_neg (Nat.not_lt_zero _)]; rfl
  | succ n ih =>
    rw [zeroLoop, ih _ _ (by omega), offset_succ]
    by_cases here : x = d
    · subst here
      rw [if_pos rfl, if_neg (by omega), Function.update_self, BitVec.sub_self, if_pos (by simp)]
    · have ahead : (x - d).toNat ≠ 0 := by bv_omega
      rw [if_neg here, Function.update_of_ne here]
      apply if_congr _ rfl rfl
      omega

theorem strncpyFrom_beyond (d src : Word) (n : Nat) (m : Mem) {x : Word} (fits : n < 2 ^ 32)
    (beyond : n < (x - d).toNat) : strncpyFrom d src n m x = m x := by
  induction n generalizing d src m with
  | zero => rfl
  | succ n ih =>
    have other : x ≠ d := by
      rintro rfl
      rw [BitVec.sub_self] at beyond
      exact Nat.not_lt_zero _ beyond
    have next := offset_succ x d
    rw [if_neg other] at next
    rw [strncpyFrom, copyLoop]
    by_cases ends : m src = 0
    · simp only [ends, if_true]
      rw [zeroLoop_cell _ _ _ _ (by omega), if_neg (by omega), Function.update_of_ne other]
    · simp only [ends, if_false]
      exact (ih (d + 1) (src + 1) _ (by omega) (by omega)).trans (Function.update_of_ne other _ _)

def copied (dst src : Word) (k : Nat) (m : Mem) : Mem :=
  fun x => if (x - dst).toNat < k then m (src + (x - dst)) else m x

theorem copied_at (dst src k : Word) (m : Mem) (i : Word) :
    copied dst src k.toNat m (dst + i) = if i < k then m (src + i) else m (dst + i) := by
  rw [copied, offset_self]
  rfl

theorem copied_succ (dst src : Word) {k : Nat} (m : Mem) (low : k < 2 ^ 32) :
    Function.update (copied dst src k m) (dst + BitVec.ofNat 32 k) (m (src + BitVec.ofNat 32 k)) =
      copied dst src (k + 1) m := by
  funext x
  by_cases here : x = dst + BitVec.ofNat 32 k
  · have offset := (offset_eq low).mp here
    rw [copied, if_pos (by omega), here, Function.update_self, offset_self]
  · have offset := mt (offset_eq low).mpr here
    rw [Function.update_of_ne here, copied, copied]
    apply if_congr _ rfl rfl
    omega

theorem copied_reads {dst src n len : Word} {m : Mem} (clean : Unspoiled dst src n len m) {k : Word}
    (low : k < n) (inside : k ≤ len) : copied dst src k.toNat m (src + k) = m (src + k) := by
  rw [copied]
  split
  · next earlier =>
    have before : src + k - dst < k := earlier
    exact clean k (src + k - dst) low inside before (add_offset dst (src + k))
  · rfl

theorem copyLoop_copied {dst src : Word} {n : Nat} {m : Mem} (fits : n < 2 ^ 32) {k : Nat}
    (low : k ≤ n) (reads : ∀ i < k, copied dst src i m (src + BitVec.ofNat 32 i) = m (src + BitVec.ofNat 32 i))
    (chars : ∀ i < k, m (src + BitVec.ofNat 32 i) ≠ 0) :
    copyLoop dst src n m =
      copyLoop (dst + BitVec.ofNat 32 k) (src + BitVec.ofNat 32 k) (n - k) (copied dst src k m) := by
  induction k with
  | zero =>
    have start : copied dst src 0 m = m := funext fun x => if_neg (Nat.not_lt_zero _)
    simp [start]
  | succ k ih =>
    have before := ih (by omega) (fun i below => reads i (by omega)) fun i below =>
      chars i (by omega)
    obtain ⟨rest, left⟩ : ∃ rest, n - k = rest + 1 := ⟨n - k - 1, by omega⟩
    have rest_eq : n - (k + 1) = rest := by omega
    have read := reads k (Nat.lt_succ_self k)
    have solid := chars k (Nat.lt_succ_self k)
    rw [before, left, copyLoop, rest_eq]
    simp only [read, solid, if_false]
    rw [copied_succ dst src m (by omega), BitVec.add_assoc, BitVec.add_assoc, BitVec.ofNat_add]
    rfl

section

variable {dst src n len : Word} {m : Mem}

theorem copyLoop_upto (string : strlen m src = some len) {k : Word} (low : k ≤ n) (inside : k ≤ len)
    (clean : Unspoiled dst src k len m) :
    copyLoop dst src n.toNat m = copyLoop (dst + k) (src + k) (n.toNat - k.toNat) (copied dst src k.toNat m) := by
  obtain ⟨chars, -⟩ := strlen_some.mp string
  have steps : copyLoop dst src n.toNat m =
      copyLoop (dst + BitVec.ofNat 32 k.toNat) (src + BitVec.ofNat 32 k.toNat) (n.toNat - k.toNat)
        (copied dst src k.toNat m) := by
    apply copyLoop_copied n.isLt low
    · intro i below
      have small : i < 2 ^ 32 := Nat.lt_trans below k.isLt
      have reads := copied_reads clean (k := BitVec.ofNat 32 i) (by bv_omega) (by bv_omega)
      rwa [BitVec.toNat_ofNat, Nat.mod_eq_of_lt small] at reads
    · intro i below
      exact chars _ (by bv_omega)
  rwa [BitVec.ofNat_toNat, BitVec.setWidth_eq] at steps

theorem copyLoop_full (string : strlen m src = some len) (clean : Unspoiled dst src n len m)
    (long : n ≤ len) :
    copyLoop dst src n.toNat m = (copied dst src n.toNat m, dst + n, 0) := by
  rw [copyLoop_upto string (Nat.le_refl n.toNat) long clean, Nat.sub_self]
  rfl

theorem copyLoop_short (string : strlen m src = some len) (clean : Unspoiled dst src n len m)
    (short : len < n) :
    copyLoop dst src n.toNat m =
      (Function.update (copied dst src len.toNat m) (dst + len) 0, dst + len + 1, (n - len).toNat) := by
  obtain ⟨rest, left⟩ : ∃ rest, n.toNat - len.toNat = rest + 1 :=
    ⟨n.toNat - len.toNat - 1, by bv_omega⟩
  have before : Unspoiled dst src len len m := fun i j low => clean i j (Nat.lt_trans low short)
  have nul := (copied_reads clean short (Nat.le_refl len.toNat)).trans (strlen_some.mp string).2
  rw [copyLoop_upto string (Nat.le_of_lt short) (Nat.le_refl len.toNat) before, left, copyLoop,
    BitVec.toNat_sub_of_le (Nat.le_of_lt short), left]
  simp only [nul, if_true]

theorem strncpy_full (string : strlen m src = some len) (clean : Unspoiled dst src n len m)
    (long : n ≤ len) :
    (strncpy dst src n m).2 = copied dst src n.toNat m := by
  simp only [strncpy, strncpyFrom, copyLoop_full string clean long, zeroLoop]

theorem strncpy_short (string : strlen m src = some len) (clean : Unspoiled dst src n len m)
    (short : len < n) (i : Word) :
    (strncpy dst src n m).2 (dst + i) =
      if i < len then m (src + i) else if i ≤ n then 0 else m (dst + i) := by
  have left : (n - len).toNat ≤ 2 ^ 32 := Nat.le_of_lt (n - len).isLt
  simp only [strncpy, strncpyFrom, copyLoop_short string clean short]
  have behind : dst + i - (dst + len + 1) = i - (len + 1) := by bv_omega
  rw [zeroLoop_cell _ _ _ _ left, behind]
  by_cases inside : i < len
  · have other : dst + i ≠ dst + len := by bv_omega
    rw [if_neg (by bv_omega), Function.update_of_ne other, copied_at, if_pos inside, if_pos inside]
  · by_cases last : i = len
    · subst last
      rw [if_neg (by bv_omega), Function.update_self, if_neg inside, if_pos (BitVec.le_of_lt short)]
    · have other : dst + i ≠ dst + len := by bv_omega
      rw [if_neg inside, Function.update_of_ne other, copied_at, if_neg inside]
      apply if_congr _ rfl rfl
      bv_omega

theorem bytesStored_eq (string : strlen m src = some len) (clean : Unspoiled dst src n len m) :
    bytesStored dst src n m = if len < n then n.toNat + 1 else n.toNat := by
  split
  · next short =>
    simp only [bytesStored, copyLoop_short string clean short]
    bv_omega
  · next long =>
    simp only [bytesStored, copyLoop_full string clean (Nat.le_of_not_lt long)]
    rw [offset_self, Nat.add_zero]

theorem strncpy_spoiled (string : strlen m src = some len) {i j : Word} (low : i < n)
    (inside : i ≤ len) (before : j < i) (same : dst + j = src + i)
    (clean : Unspoiled dst src i len m) : (strncpy dst src n m).2 (dst + i) = m (src + j) := by
  obtain ⟨chars, -⟩ := strlen_some.mp string
  have solid : m (src + j) ≠ 0 := chars j (by bv_omega)
  obtain ⟨rest, left⟩ : ∃ rest, n.toNat - i.toNat = rest + 1 := ⟨n.toNat - i.toNat - 1, by bv_omega⟩
  have read : copied dst src i.toNat m (src + i) = m (src + j) := by
    rw [← same, copied_at, if_pos before]
  have steps : copyLoop dst src n.toNat m =
      copyLoop (dst + i + 1) (src + i + 1) rest
        (Function.update (copied dst src i.toNat m) (dst + i) (m (src + j))) := by
    rw [copyLoop_upto string (Nat.le_of_lt low) inside clean, left, copyLoop]
    simp only [read, solid, if_false]
  have kept := strncpyFrom_beyond (dst + i + 1) (src + i + 1) rest
    (Function.update (copied dst src i.toNat m) (dst + i) (m (src + j))) (x := dst + i) (by omega) (by bv_omega)
  rw [Function.update_self] at kept
  simpa only [strncpy, strncpyFrom, steps] using kept

theorem unspoiled_of_copies (string : strlen m src = some len)
    (exactly : CopiesExactly dst src n len m (strncpy dst src n m).2) :
    Unspoiled dst src n len m := by
  -- Induction on the place: up to the first spoiled character the loop has read the source.
  intro i
  induction place : i.toNat using Nat.strongRecOn generalizing i with
  | ind k ih =>
    subst place
    intro j low inside before same
    have clean : Unspoiled dst src i len m := fun i' j' low' =>
      ih i'.toNat low' i' rfl j' (Nat.lt_trans low' low)
    have spoiled := strncpy_spoiled string low inside before same clean
    by_cases last : i < len
    · exact spoiled.symm.trans (exactly.copied i low last)
    · have ends : i = len := BitVec.le_antisymm inside (BitVec.not_lt.mp last)
      rw [ends, (strlen_some.mp string).2, ← spoiled]
      exact exactly.padded i low (BitVec.not_lt.mp last)

theorem copies_iff (string : strlen m src = some len) :
    CopiesExactly dst src n len m (strncpy dst src n m).2 ↔
      Unspoiled dst src n len m ∧ (len < n → m (dst + n) = 0) := by
  constructor
  · intro exactly
    have clean := unspoiled_of_copies string exactly
    refine ⟨clean, fun short => ?_⟩
    have kept := exactly.kept n (BitVec.le_refl n)
    rwa [strncpy_short string clean short, if_neg (BitVec.not_lt.mpr (BitVec.le_of_lt short)),
      if_pos (BitVec.le_refl n), eq_comm] at kept
  · rintro ⟨clean, zero⟩
    by_cases short : len < n
    · have cell := strncpy_short string clean short
      refine ⟨fun i low inside => ?_, fun i low padding => ?_, fun i high => ?_⟩
      · rw [cell, if_pos inside]
      · rw [cell, if_neg (BitVec.not_lt.mpr padding), if_pos (BitVec.le_of_lt low)]
      · rw [cell, if_neg (by bv_omega)]
        split
        · next top =>
          rw [BitVec.le_antisymm top high, zero short]
        · rfl
    · have cell := strncpy_full string clean (BitVec.not_lt.mp short)
      refine ⟨fun i low inside => ?_, fun i low padding => ?_, fun i high => ?_⟩
      · rw [cell, copied_at, if_pos low]
      · exact absurd (Nat.lt_of_le_of_lt padding low) short
      · rw [cell, copied_at, if_neg (BitVec.not_lt.mpr high)]

/-- `strncpy` stores `n` bytes and does what C promises exactly when the string has at least `n` characters:
the NUL of a shorter one is one byte too many. -/
theorem strncpy_exact_iff (string : strlen m src = some len) :
    bytesStored dst src n m = n.toNat ∧ CopiesExactly dst src n len m (strncpy dst src n m).2 ↔
      n ≤ len ∧ Unspoiled dst src n len m := by
  constructor
  · rintro ⟨count, exactly⟩
    have clean := unspoiled_of_copies string exactly
    refine ⟨BitVec.not_lt.mp fun short => ?_, clean⟩
    rw [bytesStored_eq string clean, if_pos short] at count
    exact Nat.succ_ne_self n.toNat count
  · rintro ⟨long, clean⟩
    constructor
    · rw [bytesStored_eq string clean, if_neg (BitVec.not_lt.mpr long)]
    · exact (copies_iff string).mpr ⟨clean, fun short => absurd short (BitVec.not_lt.mpr long)⟩

theorem unspoiled_of_apart (apart : ∀ i j : Word, i < n → j < n → dst + j ≠ src + i) :
    Unspoiled dst src n len m :=
      fun i j low _ before same => absurd same (apart i j low (Nat.lt_trans before low))

end

def hi : Mem := fun a =>
  if a = 0x1000#32 then 0x68#8 else if a = 0x1001#32 then 0x69#8 else if a = 0x1002#32 then 0 else 0xCC#8

theorem strlen_hi : strlen hi 0x1000#32 = some 2 := by
  rw [strlen_some]
  constructor
  · intro i low
    obtain rfl | rfl : i = 0 ∨ i = 1 := by bv_omega
    · decide
    · decide
  · decide

theorem strncpy_exact_two :
    bytesStored 0x2000#32 0x1000#32 2 hi = 2 ∧
      CopiesExactly 0x2000#32 0x1000#32 2 2 hi (strncpy 0x2000#32 0x1000#32 2 hi).2 :=
  (strncpy_exact_iff strlen_hi).mpr
    ⟨by decide, unspoiled_of_apart fun i j low low' => by bv_omega⟩

/-- A name field of sixteen bytes, with the `n` that `task_create` gives. -/
theorem strncpy_overruns : ¬∀ (m : Mem) (dst src n len : Word), strlen m src = some len →
    bytesStored dst src n m = n.toNat ∧ CopiesExactly dst src n len m (strncpy dst src n m).2 := by
  intro all
  have kept := (all hi 0x2000#32 0x1000#32 15 2 strlen_hi).2.kept 15 (BitVec.le_refl 15)
  revert kept
  decide

end Libc

end NovaKernel
