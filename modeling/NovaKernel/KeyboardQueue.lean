import NovaKernel.Keyboard
import NovaKernel.Lib.Transition

set_option autoImplicit false

namespace NovaKernel

namespace Keyboard

/-- Where the one caller of `keyboard_pending` and `keyboard_getc` stands between two memory
accesses. -/
inductive Reader
  | idle
  -- one operand of the comparison of `keyboard_pending` has been read
  | pendingHead (head : Nat)
  | pendingTail (tail : Nat)
  -- one operand of the comparison of `keyboard_getc`
  | getcHead (head : Nat)
  | getcTail (tail : Nat)
  -- the comparison found a code; then the index, the cell and the new tail, in turn
  | getcFound
  | getcIndex (tail : Nat)
  | getcCode (c : Nat)
  | getcNext (c next : Nat)

structure QueueState where
  keyboard : Keyboard
  reader : Reader

namespace QueueState

def boot : QueueState := ⟨fresh, .idle⟩

end QueueState

/-- What one step shows: an interrupt, the access with which a `keyboard_getc` begins, an access
inside a call, or the access with which a call returns. -/
inductive QueueEvent
  | scancode (sc : Byte)
  | call
  | access
  | pending (result : Bool)
  | getc (result : Nat)

def compared (head tail : Nat) : Reader × QueueEvent :=
  if head = tail then (.idle, .getc 0) else (.getcFound, .access)

-- The two operands of a comparison may be read in either order.
inductive QueueStep : QueueState → QueueEvent → QueueState → Prop
  | interrupt (s : QueueState) (sc : Byte) :
      QueueStep s (.scancode sc) ⟨keyboardHandler s.keyboard sc, s.reader⟩
  | pendingHead (kb : Keyboard) : QueueStep ⟨kb, .idle⟩ .access ⟨kb, .pendingHead kb.queue.head⟩
  | pendingTail (kb : Keyboard) : QueueStep ⟨kb, .idle⟩ .access ⟨kb, .pendingTail kb.queue.tail⟩
  | pendingAtTail (kb : Keyboard) (head : Nat) :
      QueueStep ⟨kb, .pendingHead head⟩ (.pending (head ≠ kb.queue.tail)) ⟨kb, .idle⟩
  | pendingAtHead (kb : Keyboard) (tail : Nat) :
      QueueStep ⟨kb, .pendingTail tail⟩ (.pending (kb.queue.head ≠ tail)) ⟨kb, .idle⟩
  | getcHead (kb : Keyboard) : QueueStep ⟨kb, .idle⟩ .call ⟨kb, .getcHead kb.queue.head⟩
  | getcTail (kb : Keyboard) : QueueStep ⟨kb, .idle⟩ .call ⟨kb, .getcTail kb.queue.tail⟩
  | getcAtTail (kb : Keyboard) (head : Nat) :
      QueueStep ⟨kb, .getcHead head⟩ (compared head kb.queue.tail).2
        ⟨kb, (compared head kb.queue.tail).1⟩
  | getcAtHead (kb : Keyboard) (tail : Nat) :
      QueueStep ⟨kb, .getcTail tail⟩ (compared kb.queue.head tail).2
        ⟨kb, (compared kb.queue.head tail).1⟩
  | getcIndex (kb : Keyboard) : QueueStep ⟨kb, .getcFound⟩ .access ⟨kb, .getcIndex kb.queue.tail⟩
  | getcCell (kb : Keyboard) (tail : Nat) :
      QueueStep ⟨kb, .getcIndex tail⟩ .access ⟨kb, .getcCode (kb.queue.cells tail)⟩
  | getcNext (kb : Keyboard) (c : Nat) :
      QueueStep ⟨kb, .getcCode c⟩ .access ⟨kb, .getcNext c ((kb.queue.tail + 1) % kbBufSize)⟩
  | getcReturn (kb : Keyboard) (c next : Nat) :
      QueueStep ⟨kb, .getcNext c next⟩ (.getc c)
        ⟨{ kb with queue := { kb.queue with tail := next } }, .idle⟩

/-- What the trace alone says: the decoder's flags, the codes that arrived while fewer than 255
were queued, the codes returned, and whether none was queued when the last call began. -/
structure History where
  flags : Flags
  accepted : List Nat
  returned : List Nat
  emptyAtCall : Bool

namespace History

def start : History := ⟨⟨false, false, false⟩, [], [], true⟩

def queued (h : History) : List Nat := h.accepted.drop h.returned.length

def arrive (h : History) : Option Nat → List Nat
  | none => h.accepted
  | some c => if h.accepted.length - h.returned.length < 255 then h.accepted ++ [c] else h.accepted

def observe (h : History) : QueueEvent → History
  | .scancode sc =>
      { h with flags := (decode h.flags sc).1, accepted := h.arrive (decode h.flags sc).2 }
  | .call => { h with emptyAtCall := h.queued.isEmpty }
  | .access | .pending _ => h
  | .getc c => if c = 0 then h else { h with returned := h.returned ++ [c] }

def of (events : List QueueEvent) : History := events.foldl observe start

@[simp] theorem of_snoc (events : List QueueEvent) (event : QueueEvent) :
    of (events ++ [event]) = (of events).observe event := by
  simp [of]

end History

def Reader.Agrees (queue : Circular Nat) (h : History) : Reader → Prop
  | .idle | .pendingHead _ | .pendingTail _ => True
  | .getcHead head =>
      (h.queued = [] → head = queue.tail) ∧ (head = queue.tail → h.emptyAtCall = true)
  | .getcTail tail => tail = queue.tail ∧ (h.queued = [] → h.emptyAtCall = true)
  | .getcFound => h.queued ≠ []
  | .getcIndex tail => tail = queue.tail ∧ h.queued ≠ []
  | .getcCode c => ∃ later, h.queued = c :: later
  | .getcNext c next => next = Circular.next kbBufSize queue.tail ∧ ∃ later, h.queued = c :: later

structure QueueState.Tracks (s : QueueState) (h : History) : Prop where
  flags_eq : s.keyboard.flags = h.flags
  returned_prefix : h.returned <+: h.accepted
  holds : s.keyboard.queue.Holds kbBufSize h.queued
  codes : ∀ c ∈ h.accepted, c ≠ 0
  agrees : s.reader.Agrees s.keyboard.queue h

namespace History

variable {h : History}

theorem accepted_eq (returned : h.returned <+: h.accepted) :
    h.returned ++ h.queued = h.accepted := by
  obtain ⟨later, whole⟩ := returned
  simp [queued, ← whole]

theorem arrive_prefix (h : History) (decoded : Option Nat) : h.accepted <+: h.arrive decoded := by
  cases decoded with
  | none => exact List.prefix_rfl
  | some c =>
    simp only [arrive]
    split
    next => exact List.prefix_append _ _
    next => exact List.prefix_rfl

-- The specification decides by counting; the driver decides by comparing indices.
theorem queue_arrive {queue : Circular Nat} (returned : h.returned <+: h.accepted)
    (holds : queue.Holds kbBufSize h.queued) (decoded : Option Nat) :
    (enqueued queue decoded).Holds kbBufSize ((h.arrive decoded).drop h.returned.length) := by
  cases decoded with
  | none => exact holds
  | some c =>
    have count : h.queued.length = h.accepted.length - h.returned.length := List.length_drop
    have size : kbBufSize = 256 := rfl
    have pushed := holds.push c
    rw [count] at pushed
    simp only [enqueued, arrive]
    by_cases room : h.accepted.length - h.returned.length < 255
    · rw [if_pos (by omega)] at pushed
      rw [if_pos room, List.drop_append_of_le_length returned.length_le]
      exact pushed
    · rw [if_neg (by omega)] at pushed
      rw [if_neg room]
      exact pushed

theorem arrive_codes {f : Flags} {sc : Byte} (codes : ∀ c ∈ h.accepted, c ≠ 0) :
    ∀ c ∈ h.arrive (decode f sc).2, c ≠ 0 := by
  cases decoded : (decode f sc).2 with
  | none => exact codes
  | some c =>
    have visible := decode_ne_zero decoded
    simp only [arrive]
    split
    next =>
      intro x hx
      rcases List.mem_append.mp hx with old | new
      · exact codes x old
      · rwa [List.mem_singleton.mp new]
    next => exact codes

theorem queued_arrive (returned : h.returned <+: h.accepted) (decoded : Option Nat) :
    h.queued <+: (h.arrive decoded).drop h.returned.length := by
  obtain ⟨new, whole⟩ := h.arrive_prefix decoded
  rw [← whole, List.drop_append_of_le_length returned.length_le]
  exact List.prefix_append _ _

end History

theorem enqueued_tail (queue : Circular Nat) (decoded : Option Nat) :
    (enqueued queue decoded).tail = queue.tail := by
  cases decoded with
  | none => rfl
  | some c =>
    simp only [enqueued, Circular.push]
    split <;> rfl

-- Arrivals only lengthen the queue at its far end, so nothing the reader has read goes stale.
theorem Reader.Agrees.interrupt {queue : Circular Nat} {h : History} {reader : Reader}
    (returned : h.returned <+: h.accepted) (agrees : reader.Agrees queue h) (sc : Byte) :
    reader.Agrees (enqueued queue (decode h.flags sc).2) (h.observe (.scancode sc)) := by
  obtain ⟨new, longer⟩ := History.queued_arrive returned (decode h.flags sc).2
  change h.queued ++ new = (h.observe (.scancode sc)).queued at longer
  have kept : (h.observe (.scancode sc)).queued = [] → h.queued = [] := fun none => by
    rw [none] at longer
    exact (List.append_eq_nil_iff.mp longer).1
  cases reader with
  | idle | pendingHead | pendingTail => trivial
  | getcHead head =>
    simp only [Agrees, enqueued_tail] at agrees ⊢
    exact ⟨fun none => agrees.1 (kept none), agrees.2⟩
  | getcTail tail =>
    simp only [Agrees, enqueued_tail] at agrees ⊢
    exact ⟨agrees.1, fun none => agrees.2 (kept none)⟩
  | getcFound => exact fun none => agrees (kept none)
  | getcIndex tail =>
    simp only [Agrees, enqueued_tail] at agrees ⊢
    exact ⟨agrees.1, fun none => agrees.2 (kept none)⟩
  | getcCode c =>
    obtain ⟨later, front⟩ := agrees
    exact ⟨later ++ new, by rw [← longer, front, List.cons_append]⟩
  | getcNext c next =>
    obtain ⟨same, later, front⟩ := agrees
    refine ⟨by rw [enqueued_tail]; exact same, later ++ new, ?_⟩
    rw [← longer, front, List.cons_append]

variable {s t : QueueState} {h : History} {event : QueueEvent} {events : List QueueEvent}

theorem QueueState.Tracks.interrupt (tracks : s.Tracks h) (sc : Byte) :
    QueueState.Tracks ⟨keyboardHandler s.keyboard sc, s.reader⟩ (h.observe (.scancode sc)) where
  flags_eq := by rw [flags_handler, tracks.flags_eq]; rfl
  returned_prefix := tracks.returned_prefix.trans (h.arrive_prefix _)
  holds := by
    rw [queue_handler, tracks.flags_eq]
    exact History.queue_arrive tracks.returned_prefix tracks.holds _
  codes := History.arrive_codes tracks.codes
  agrees := by
    rw [queue_handler, tracks.flags_eq]
    exact tracks.agrees.interrupt tracks.returned_prefix sc

-- A step that touches neither the queue nor the lists only has to justify what the reader knows.
theorem QueueState.Tracks.move {kb : Keyboard} {reader reader' : Reader}
    (tracks : QueueState.Tracks ⟨kb, reader⟩ h) (agrees : reader'.Agrees kb.queue h) :
    QueueState.Tracks ⟨kb, reader'⟩ h :=
  { tracks with agrees := agrees }

theorem QueueState.Tracks.call {kb : Keyboard} {reader reader' : Reader}
    (tracks : QueueState.Tracks ⟨kb, reader⟩ h)
    (agrees : reader'.Agrees kb.queue (h.observe .call)) :
    QueueState.Tracks ⟨kb, reader'⟩ (h.observe .call) :=
  { flags_eq := tracks.flags_eq, returned_prefix := tracks.returned_prefix, holds := tracks.holds,
    codes := tracks.codes, agrees := agrees }

theorem QueueState.Tracks.compared {kb : Keyboard} {reader : Reader} {head tail : Nat}
    (tracks : QueueState.Tracks ⟨kb, reader⟩ h) (found : head ≠ tail → h.queued ≠ []) :
    QueueState.Tracks ⟨kb, (compared head tail).1⟩ (h.observe (compared head tail).2) := by
  by_cases same : head = tail
  · rw [Keyboard.compared, if_pos same]
    exact tracks.move trivial
  · rw [Keyboard.compared, if_neg same]
    exact tracks.move (found same)

theorem QueueState.Tracks.returns {kb : Keyboard} {c next : Nat}
    (tracks : QueueState.Tracks ⟨kb, .getcNext c next⟩ h) :
    QueueState.Tracks ⟨{ kb with queue := { kb.queue with tail := next } }, .idle⟩
      (h.observe (.getc c)) := by
  obtain ⟨advance, later, front⟩ := tracks.agrees
  change next = Circular.next kbBufSize kb.queue.tail at advance
  subst advance
  have whole := History.accepted_eq tracks.returned_prefix
  rw [front] at whole
  have nonzero : c ≠ 0 := tracks.codes c (by rw [← whole]; simp)
  have rest : h.accepted.drop (h.returned.length + 1) = later := by
    rw [← whole, List.append_cons]
    exact List.drop_left' (by simp)
  have holds := tracks.holds
  rw [front] at holds
  simp only [History.observe, if_neg nonzero]
  refine ⟨tracks.flags_eq, ⟨later, by simpa using whole⟩, ?_, tracks.codes, trivial⟩
  simp only [History.queued, List.length_append, List.length_singleton, rest]
  exact holds.pop

theorem tracks_step (taken : QueueStep s event t) (tracks : s.Tracks h) :
    t.Tracks (h.observe event) := by
  cases taken with
  | interrupt s sc => exact tracks.interrupt sc
  | pendingHead | pendingTail | pendingAtTail | pendingAtHead => exact tracks.move trivial
  | getcHead kb =>
    have empty := tracks.holds.empty_iff
    exact tracks.call ⟨empty.mpr, fun same => by simp [History.observe, empty.mp same]⟩
  | getcTail kb =>
    refine tracks.call ⟨rfl, fun none => ?_⟩
    change h.queued = [] at none
    simp [History.observe, none]
  | getcAtTail kb head => exact tracks.compared fun differ none => differ (tracks.agrees.1 none)
  | getcAtHead kb tail =>
    refine tracks.compared fun differ none => differ ?_
    rw [tracks.agrees.1]
    exact tracks.holds.empty_iff.mpr none
  | getcIndex kb => exact tracks.move ⟨rfl, tracks.agrees⟩
  | getcCell kb tail =>
    obtain ⟨same, some⟩ := tracks.agrees
    change tail = kb.queue.tail at same
    subst same
    obtain ⟨c, later, front⟩ := List.exists_cons_of_ne_nil some
    have holds := tracks.holds
    rw [front] at holds
    exact tracks.move ⟨later, by rw [front, holds.oldest]⟩
  | getcNext kb c => exact tracks.move ⟨rfl, tracks.agrees⟩
  | getcReturn kb c next => exact tracks.returns

theorem boot_tracks : QueueState.boot.Tracks History.start where
  flags_eq := rfl
  returned_prefix := List.prefix_rfl
  holds := Circular.holds_nil (by decide) _
  codes c hc := absurd hc List.not_mem_nil
  agrees := trivial

theorem tracks_run (run : Transition.Run QueueStep QueueState.boot events s) :
    s.Tracks (History.of events) := by
  induction run with
  | nil => exact boot_tracks
  | snoc _ taken ih =>
    rw [History.of_snoc]
    exact tracks_step taken ih

-- A call answers 0 only for a queue it found empty.
theorem getc_zero (taken : QueueStep s event t) (zero : event = .getc 0) (tracks : s.Tracks h) :
    h.emptyAtCall = true := by
  cases taken with
  | interrupt | pendingHead | pendingTail | pendingAtTail | pendingAtHead => cases zero
  | getcHead | getcTail | getcIndex | getcCell | getcNext => cases zero
  | getcAtTail kb head =>
    by_cases same : head = kb.queue.tail
    · exact tracks.agrees.2 same
    · rw [compared, if_neg same] at zero
      cases zero
  | getcAtHead kb tail =>
    by_cases same : kb.queue.head = tail
    · rw [tracks.agrees.1] at same
      exact tracks.agrees.2 (tracks.holds.empty_iff.mp same)
    · rw [compared, if_neg same] at zero
      cases zero
  | getcReturn kb c next =>
    cases zero
    obtain ⟨-, later, front⟩ := tracks.agrees
    have whole := History.accepted_eq tracks.returned_prefix
    exact absurd rfl (tracks.codes 0 (by rw [← whole, front]; simp))

/-- The queue is a lossless FIFO for every interleaving of interrupts with the reader's accesses. -/
theorem keyboard_fifo (run : Transition.Run QueueStep QueueState.boot events s) :
    (History.of events).returned <+: (History.of events).accepted ∧
      s.keyboard.queue.Holds kbBufSize (History.of events).queued ∧
      s.keyboard.queue.head < 256 ∧ s.keyboard.queue.tail < 256 ∧
      ∀ earlier, events = earlier ++ [.getc 0] → (History.of earlier).emptyAtCall = true := by
  have tracks := tracks_run run
  refine ⟨tracks.returned_prefix, tracks.holds, tracks.holds.head_lt, tracks.holds.tail_lt, ?_⟩
  rintro earlier rfl
  obtain ⟨t, before, taken⟩ := run.last
  exact getc_zero taken rfl (tracks_run before)

def twoKeys : List QueueEvent :=
  [.scancode 0x1E#8, .call, .access, .scancode 0x30#8, .access, .access, .access, .getc 97]

theorem twoKeys_run : ∃ s, Transition.Run QueueStep QueueState.boot twoKeys s := by
  have pressed := Transition.Run.nil.snoc (QueueStep.interrupt QueueState.boot 0x1E#8)
  have called := pressed.snoc (QueueStep.getcHead _)
  have compared := called.snoc (QueueStep.getcAtTail _ _)
  have second := compared.snoc (QueueStep.interrupt _ 0x30#8)
  have index := second.snoc (QueueStep.getcIndex _)
  have cell := index.snoc (QueueStep.getcCell _ _)
  have next := cell.snoc (QueueStep.getcNext _ _)
  exact ⟨_, next.snoc (QueueStep.getcReturn _ _ _)⟩

theorem keyboard_fifo_two : (History.of twoKeys).returned = [97] ∧
    (History.of twoKeys).queued = [98] ∧
    (History.of twoKeys).returned <+: (History.of twoKeys).accepted := by
  obtain ⟨s, run⟩ := twoKeys_run
  exact ⟨by decide, by decide, (keyboard_fifo run).1⟩

end Keyboard

end NovaKernel
