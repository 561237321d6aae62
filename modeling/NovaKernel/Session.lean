import NovaKernel.FatWrite
import NovaKernel.OpenFileSpec

set_option autoImplicit false

namespace NovaKernel

inductive FdCall
  | write (mem : UserMem) (buf len : Word)
  | read (buf len : Word)
  | lseek (off whence : Word)

namespace FdCall

def run (fd : Word) (s : Files) : FdCall → Files
  | .write mem buf len => (sysWriteFile mem fd buf len s).2
  | .read buf len => (sysRead fd buf len s).2
  | .lseek off whence => (sysLseek fd off whence s).2

def after (f : OpenFile) : FdCall → OpenFile
  | .write mem buf len => if f.writable && userRangeOk buf len then (f.write mem buf len).2 else f
  | .read buf len => if userRangeOk buf len then (f.read len).2 else f
  | .lseek off whence => f.lseek off whence

-- A write that is accepted, be it of no bytes.
def stores (f : OpenFile) : FdCall → Bool
  | .write _ buf len => f.writable && userRangeOk buf len
  | _ => false

def writesAt (f : OpenFile) (i : Nat) : FdCall → Prop
  | .write mem buf len => f.writable = true ∧ userRangeOk buf len = true ∧
      f.pos.toNat ≤ i ∧ i < f.pos.toNat + (f.write mem buf len).1.toNat
  | _ => False

/-- `OFILE_CAP - pos` does not wrap in an accepted write. -/
def InBounds (f : OpenFile) (call : FdCall) : Prop := call.stores f = true → f.pos.toNat ≤ 2048

def SeeksWithin (f : OpenFile) : FdCall → Prop
  | .lseek off whence => (f.lseek off whence).pos.toNat ≤ f.size.toNat
  | _ => True

def Along (fact : OpenFile → FdCall → Prop) (f : OpenFile) : List FdCall → Prop
  | [] => True
  | call :: rest => fact f call ∧ Along fact (call.after f) rest

theorem Along.mono {fact fact' : OpenFile → FdCall → Prop} (inv : OpenFile → Prop)
    (step : ∀ f call, inv f → fact f call → inv (call.after f) ∧ fact' f call) {f : OpenFile}
    {calls : List FdCall} (holds : inv f) (along : Along fact f calls) : Along fact' f calls := by
  induction calls generalizing f with
  | nil => trivial
  | cons call rest ih =>
    obtain ⟨next, here⟩ := step f call holds along.1
    exact ⟨here, ih next along.2⟩

section Steps

variable (f : OpenFile) (call : FdCall)

theorem after_used : (call.after f).used = f.used := by
  cases call <;> simp only [after] <;> (try split) <;> rfl

theorem after_name : (call.after f).name = f.name := by
  cases call <;> simp only [after] <;> (try split) <;> rfl

theorem after_dirty : (call.after f).dirty = (f.dirty || call.stores f) := by
  cases call with
  | write mem buf len =>
    by_cases accepted : (f.writable && userRangeOk buf len) = true
    · simp only [after, stores, accepted, if_true, Bool.or_true]
      rfl
    · simp only [after, stores, Bool.eq_false_iff.mpr accepted, Bool.or_false]
      rfl
  | read buf len =>
    simp only [after, stores, Bool.or_false]
    split <;> rfl
  | lseek off whence => simp only [after, stores, Bool.or_false, OpenFile.lseek]

variable {f call}

theorem after_idle (idle : call.stores f = false) :
    (call.after f).data = f.data ∧ (call.after f).size = f.size := by
  cases call with
  | write mem buf len =>
    simp only [stores] at idle
    simp only [after, idle, Bool.false_eq_true, if_false, and_self]
  | read buf len =>
    simp only [after]
    split <;> exact ⟨rfl, rfl⟩
  | lseek off whence => exact ⟨rfl, rfl⟩

theorem after_size (inBounds : call.InBounds f) (small : f.size.toNat ≤ 2048) :
    f.size.toNat ≤ (call.after f).size.toNat ∧ (call.after f).size.toNat ≤ 2048 := by
  by_cases accepted : call.stores f = true
  · cases call with
    | write mem buf len =>
      have pos := inBounds accepted
      have spec := OpenFile.write_spec pos mem buf len
      simp only [stores] at accepted
      simp only [after, accepted, if_true]
      omega
    | read buf len => simp [stores] at accepted
    | lseek off whence => simp [stores] at accepted
  · rw [(after_idle (Bool.eq_false_iff.mpr accepted)).2]
    exact ⟨Nat.le_refl _, small⟩

theorem after_data (inBounds : call.InBounds f) {i : Nat} (unwritten : ¬ call.writesAt f i) :
    (call.after f).data i = f.data i := by
  by_cases accepted : call.stores f = true
  · cases call with
    | write mem buf len =>
      have pos := inBounds accepted
      obtain ⟨count, -, -, data, -⟩ := OpenFile.write_spec pos mem buf len
      simp only [stores] at accepted
      have both := Bool.and_eq_true_iff.mp accepted
      have stored : (f.write mem buf len).1.toNat = min len.toNat (2048 - f.pos.toNat) := by
        rw [count, BitVec.toNat_ofNat]
        omega
      have outside : ¬(f.pos.toNat ≤ i ∧ i < f.pos.toNat + min len.toNat (2048 - f.pos.toNat)) := by
        rw [← stored]
        exact fun inside => unwritten ⟨both.1, both.2, inside⟩
      simp only [after, accepted, if_true]
      rw [data, storeBytes_eq _ _ _ _ (by omega), if_neg outside]
    | read buf len => simp [stores] at accepted
    | lseek off whence => simp [stores] at accepted
  · rw [(after_idle (Bool.eq_false_iff.mpr accepted)).1]

theorem fold_dirty (f : OpenFile) (calls : List FdCall) :
    (calls.foldl after f).dirty = false ↔
      f.dirty = false ∧ Along (fun f call => call.stores f = false) f calls := by
  induction calls generalizing f with
  | nil => exact ⟨fun clean => ⟨clean, trivial⟩, And.left⟩
  | cons call rest ih =>
    rw [List.foldl_cons, ih, after_dirty, Bool.or_eq_false_iff, and_assoc, Along]

theorem fold_kept (f : OpenFile) (calls : List FdCall) :
    (calls.foldl after f).used = f.used ∧ (calls.foldl after f).name = f.name := by
  induction calls generalizing f with
  | nil => exact ⟨rfl, rfl⟩
  | cons call rest ih =>
    rw [List.foldl_cons, (ih _).1, (ih _).2, after_used, after_name]
    exact ⟨rfl, rfl⟩

theorem fold_idle {f : OpenFile} {calls : List FdCall}
    (idle : Along (fun f call => call.stores f = false) f calls) :
    (calls.foldl after f).data = f.data ∧ (calls.foldl after f).size = f.size := by
  induction calls generalizing f with
  | nil => exact ⟨rfl, rfl⟩
  | cons call rest ih =>
    obtain ⟨data, size⟩ := after_idle idle.1
    obtain ⟨data', size'⟩ := ih idle.2
    exact ⟨data'.trans data, size'.trans size⟩

theorem fold_size {f : OpenFile} {calls : List FdCall}
    (inBounds : Along (fun f call => call.InBounds f) f calls) (small : f.size.toNat ≤ 2048) :
    f.size.toNat ≤ (calls.foldl after f).size.toNat ∧ (calls.foldl after f).size.toNat ≤ 2048 := by
  induction calls generalizing f with
  | nil => exact ⟨Nat.le_refl _, small⟩
  | cons call rest ih =>
    obtain ⟨grows, small'⟩ := after_size inBounds.1 small
    obtain ⟨grows', small''⟩ := ih inBounds.2 small'
    exact ⟨Nat.le_trans grows grows', small''⟩

theorem fold_data {f : OpenFile} {calls : List FdCall}
    (inBounds : Along (fun f call => call.InBounds f) f calls) {i : Nat}
    (unwritten : Along (fun f call => ¬ call.writesAt f i) f calls) :
    (calls.foldl after f).data i = f.data i := by
  induction calls generalizing f with
  | nil => rfl
  | cons call rest ih =>
    rw [List.foldl_cons, ih inBounds.2 unwritten.2, after_data inBounds.1 unwritten.1]

theorem after_within (within : call.SeeksWithin f)
    (inside : f.pos.toNat ≤ f.size.toNat ∧ f.size.toNat ≤ 2048) :
    (call.after f).pos.toNat ≤ (call.after f).size.toNat ∧ (call.after f).size.toNat ≤ 2048 := by
  cases call with
  | write mem buf len =>
    simp only [after]
    split
    next =>
      have spec := OpenFile.write_spec (show f.pos.toNat ≤ 2048 by omega) mem buf len
      omega
    next => exact inside
  | read buf len =>
    simp only [after]
    split
    next =>
      have spec := (OpenFile.read_spec (BitVec.le_def.mpr inside.1) inside.2 len).2
      have size : (f.read len).2.size = f.size := rfl
      rw [size]
      omega
    next => exact inside
  | lseek off whence => exact ⟨within, inside.2⟩

end Steps

variable {fd : Word} {s : Files}

theorem run_eq (slot : fd.toNat < maxOpenFiles) (used : (s.ofiles fd.toNat).used = true)
    (call : FdCall) :
    call.run fd s = s.set fd.toNat (call.after (s.ofiles fd.toNat)) := by
  have inside : ¬ maxOpenFiles ≤ fd.toNat := by omega
  have same : s.set fd.toNat (s.ofiles fd.toNat) = s := by
    simp only [Files.set, Function.update_eq_self]
  cases call with
  | write mem buf len =>
    simp only [run, sysWriteFile, inside, used, if_false, after, Bool.not_true, Bool.false_or]
    by_cases writable : (s.ofiles fd.toNat).writable = true <;>
      by_cases valid : userRangeOk buf len = true <;> simp [writable, valid, same]
  | read buf len =>
    simp only [run, sysRead, inside, used, if_false, after, Bool.not_true, Bool.false_eq_true]
    by_cases valid : userRangeOk buf len = true <;> simp [valid, same]
  | lseek off whence =>
    simp only [run, sysLseek, inside, used, if_false, after, Bool.not_true, Bool.false_eq_true]

theorem session_eq (slot : fd.toNat < maxOpenFiles) (used : (s.ofiles fd.toNat).used = true)
    (calls : List FdCall) :
    calls.foldl (run fd) s = s.set fd.toNat (calls.foldl after (s.ofiles fd.toNat)) := by
  induction calls generalizing s with
  | nil => simp only [List.foldl_nil, Files.set, Function.update_eq_self]
  | cons call rest ih =>
    rw [List.foldl_cons, List.foldl_cons, run_eq slot used]
    have here : (s.set fd.toNat (call.after (s.ofiles fd.toNat))).ofiles fd.toNat =
        call.after (s.ofiles fd.toNat) := Function.update_self _ _ _
    rw [ih (by rw [here, after_used, used]), here]
    simp only [Files.set, Function.update_idem]

end FdCall

end NovaKernel
