import NovaKernel.Common
import NovaKernel.Lib.Circular

set_option autoImplicit false

namespace NovaKernel

/-- The static variables of the keyboard driver; `queue` is `kbuf` with its two indices. -/
structure Keyboard where
  queue : Circular Nat
  shift : Bool
  caps : Bool
  extended : Bool

namespace Keyboard

def kbBufSize : Nat := 256

def keyExt : Nat := 0x100

/-- The key map without shift; the codes are ASCII, and the cells it does not list are 0. -/
def scPlain : List Nat :=
  [0, 27, 49, 50, 51, 52, 53, 54, 55, 56, 57, 48, 45, 61, 8, 9,
   113, 119, 101, 114, 116, 121, 117, 105, 111, 112, 91, 93, 10, 0,
   97, 115, 100, 102, 103, 104, 106, 107, 108, 59, 39, 96, 0, 92,
   122, 120, 99, 118, 98, 110, 109, 44, 46, 47, 0, 42, 0, 32]

def scShift : List Nat :=
  [0, 27, 33, 64, 35, 36, 37, 94, 38, 42, 40, 41, 95, 43, 8, 9,
   81, 87, 69, 82, 84, 89, 85, 73, 79, 80, 123, 125, 10, 0,
   65, 83, 68, 70, 71, 72, 74, 75, 76, 58, 34, 126, 0, 124,
   90, 88, 67, 86, 66, 78, 77, 60, 62, 63, 0, 42, 0, 32]

def kbEnqueue (kb : Keyboard) (c : Nat) : Keyboard :=
  { kb with queue := kb.queue.push kbBufSize c }

-- The same body as `kb_enqueue`, for a code that does not fit a byte.
def kbEnqueueU16 (kb : Keyboard) (c : Nat) : Keyboard := kbEnqueue kb c

def isExtKey (sc : Byte) : Bool :=
  sc ∈ [0x48#8, 0x50#8, 0x4B#8, 0x4D#8, 0x47#8, 0x4F#8, 0x49#8, 0x51#8, 0x53#8]

def keyChar (shift caps : Bool) (sc : Byte) : Nat :=
  let map := if shift then scShift else scPlain
  let c := map.getD (sc &&& 0x7F#8).toNat 0
  if 97 ≤ c ∧ c ≤ 122 ∧ caps then c - 32 else c

def keyboardHandler (kb : Keyboard) (sc : Byte) : Keyboard :=
  if sc = 0xE0#8 then { kb with extended := true }
  else if kb.extended then
    let kb := { kb with extended := false }
    if sc &&& 0x80#8 ≠ 0#8 then kb
    else if isExtKey sc then kbEnqueueU16 kb (keyExt + sc.toNat)
    else kb
  else if sc = 0x2A#8 ∨ sc = 0x36#8 then { kb with shift := true }
  else if sc = 0xAA#8 ∨ sc = 0xB6#8 then { kb with shift := false }
  else if sc = 0x3A#8 then { kb with caps := !kb.caps }
  else if sc &&& 0x80#8 ≠ 0#8 then kb
  else
    let c := keyChar kb.shift kb.caps sc
    if c ≠ 0 then kbEnqueue kb c else kb

def fresh : Keyboard where
  queue := ⟨fun _ => 0, 0, 0⟩
  shift := false
  caps := false
  extended := false

structure Flags where
  shift : Bool
  caps : Bool
  extended : Bool

def flags (kb : Keyboard) : Flags := ⟨kb.shift, kb.caps, kb.extended⟩

def decode (f : Flags) (sc : Byte) : Flags × Option Nat :=
  if sc = 0xE0#8 then ({ f with extended := true }, none)
  else if f.extended then
    ({ f with extended := false },
      if sc &&& 0x80#8 = 0#8 ∧ isExtKey sc then some (keyExt + sc.toNat) else none)
  else if sc = 0x2A#8 ∨ sc = 0x36#8 then ({ f with shift := true }, none)
  else if sc = 0xAA#8 ∨ sc = 0xB6#8 then ({ f with shift := false }, none)
  else if sc = 0x3A#8 then ({ f with caps := !f.caps }, none)
  else if sc &&& 0x80#8 = 0#8 ∧ keyChar f.shift f.caps sc ≠ 0 then (f, some (keyChar f.shift f.caps sc))
  else (f, none)

def enqueued (queue : Circular Nat) : Option Nat → Circular Nat
  | none => queue
  | some c => queue.push kbBufSize c

theorem keyboardHandler_eq (kb : Keyboard) (sc : Byte) :
    keyboardHandler kb sc =
      { queue := enqueued kb.queue (decode kb.flags sc).2, shift := (decode kb.flags sc).1.shift,
        caps := (decode kb.flags sc).1.caps, extended := (decode kb.flags sc).1.extended } := by
  obtain ⟨queue, shift, caps, extended⟩ := kb
  simp only [keyboardHandler, decode, flags]
  by_cases escape : sc = 0xE0#8
  · simp [escape, enqueued]
  by_cases hext : extended
  · by_cases release : sc &&& 0x80#8 = 0#8 <;> by_cases known : isExtKey sc <;>
      simp [escape, hext, release, known, enqueued, kbEnqueueU16, kbEnqueue]
  by_cases shiftDown : sc = 0x2A#8 ∨ sc = 0x36#8
  · simp [escape, hext, shiftDown, enqueued]
  by_cases shiftUp : sc = 0xAA#8 ∨ sc = 0xB6#8
  · simp [escape, hext, shiftDown, shiftUp, enqueued]
  by_cases lock : sc = 0x3A#8
  · simp [hext, lock, enqueued]
  by_cases release : sc &&& 0x80#8 = 0#8 <;> by_cases char : keyChar shift caps sc = 0 <;>
    simp [escape, hext, shiftDown, shiftUp, lock, release, char, enqueued, kbEnqueue]

theorem flags_handler (kb : Keyboard) (sc : Byte) :
    (keyboardHandler kb sc).flags = (decode kb.flags sc).1 := by
  rw [keyboardHandler_eq]
  rfl

theorem queue_handler (kb : Keyboard) (sc : Byte) :
    (keyboardHandler kb sc).queue = enqueued kb.queue (decode kb.flags sc).2 := by
  rw [keyboardHandler_eq]

theorem decode_ne_zero {f : Flags} {sc : Byte} {c : Nat} (decoded : (decode f sc).2 = some c) :
    c ≠ 0 := by
  simp only [decode, keyExt] at decoded
  split at decoded
  next => cases decoded
  split at decoded
  next =>
    split at decoded
    next => cases decoded; omega
    next => cases decoded
  split at decoded
  next => cases decoded
  split at decoded
  next => cases decoded
  split at decoded
  next => cases decoded
  split at decoded
  next visible =>
    cases decoded
    exact visible.2
  next => cases decoded

end Keyboard

end NovaKernel
