import NovaKernel.FatChains

set_option autoImplicit false

namespace NovaKernel

open Linked

def chunk (data : Nat → Byte) (len written : Nat) : Nat → Byte := fun j =>
  if written + j < len then data (written + j) else 0

theorem chunk_min {data : Nat → Byte} {len written j : Nat} :
    chunk data len (min (written + 512) len) j = chunk data len written (512 + j) := by
  simp only [chunk]
  by_cases short : written + 512 ≤ len
  · rw [Nat.min_eq_left short, Nat.add_assoc]
  · rw [Nat.min_eq_right (by omega), if_neg (by omega), if_neg (by omega)]

theorem writeSectors_cases (faults : Faults) (data : Nat → Byte) (len n lba : Nat) {written : Nat}
    (bounded : written ≤ len) (s : Io) :
    ∃ o s', writeSectors (device faults) data len n lba written s = (o, s') ∧
      (∀ a, a < 512 * lba ∨ 512 * (lba + n) ≤ a → s'.disk a = s.disk a) ∧
      (∀ w, o = some w → w = min (written + 512 * n) len ∧
        ((∀ j < 512 * n, s.disk (512 * lba + j) = 0) →
          ∀ j < 512 * n, s'.disk (512 * lba + j) = chunk data len written j)) ∧
      (o = none → ∃ i < n, Bad faults (lba + i)) := by
  induction n generalizing lba written s with
  | zero =>
    refine ⟨some written, s, rfl, fun _ _ => rfl,
      fun w same => ⟨?_, fun _ j low => absurd low (by omega)⟩, by simp⟩
    have := Option.some.inj same
    omega
  | succ n ih =>
    by_cases more : written < len
    · rcases storePatched_cases faults lba (fun i => if i < 512 then
          (if written + i < len then data (written + i) else 0) else s.secbuf i) s with
        ⟨s₁, failed, disk, bad⟩ | ⟨s₁, stored, disk⟩
      · refine ⟨none, s₁, by simp only [writeSectors, if_pos more, failed], fun a _ => by rw [disk],
          by simp, fun _ => ⟨0, Nat.succ_pos n, bad⟩⟩
      · obtain ⟨o, s', call, outside, done, failed⟩ :=
          ih (lba + 1) (show min (written + 512) len ≤ len from Nat.min_le_right _ _) s₁
        refine ⟨o, s', by simp only [writeSectors, if_pos more, stored, call], ?_, ?_, ?_⟩
        · intro a out
          have sector : a / 512 ≠ lba := by omega
          rw [outside a (by omega), disk, putSector, if_neg sector]
        · intro w same
          obtain ⟨total, content⟩ := done w same
          refine ⟨by omega, fun zero j low => ?_⟩
          by_cases first : j < 512
          · have sector : (512 * lba + j) / 512 = lba := by omega
            have offset : (512 * lba + j) % 512 = j := by omega
            rw [outside _ (by omega), disk, putSector, if_pos sector, offset, if_pos first, chunk]
          · have place : 512 * lba + j = 512 * (lba + 1) + (j - 512) := by omega
            have index : 512 + (j - 512) = j := by omega
            rw [place, content _ (j - 512) (by omega), chunk_min, index]
            intro i below
            have sector : (512 * (lba + 1) + i) / 512 ≠ lba := by omega
            have place' : 512 * (lba + 1) + i = 512 * lba + (512 + i) := by omega
            rw [disk, putSector, if_neg sector, place']
            exact zero (512 + i) (by omega)
        · intro halted
          obtain ⟨i, below, bad⟩ := failed halted
          exact ⟨i + 1, by omega, by rwa [Nat.add_assoc, Nat.add_comm 1] at bad⟩
    · refine ⟨some written, s, by simp only [writeSectors, if_neg more], fun _ _ => rfl,
        fun w same => ?_, by simp⟩
      have := Option.some.inj same
      refine ⟨by omega, fun zero j low => ?_⟩
      rw [zero j low, chunk, if_neg (by omega)]

def block (vol : Volume) (data : Nat → Byte) (len written : Nat) : Nat → Byte := fun j =>
  if j < 512 * vol.spc then chunk data len written j else 0

def View.stream (vol : Volume) (data : Nat → Byte) (len : Nat) : List Nat → Nat → View → View
  | [], _, v => v
  | c :: l, written, v =>
    stream vol data len l (written + 512 * vol.spc) (v.setData c (block vol data len written))

section Streams

variable {faults : Faults} {vol : Volume} (geo : Geometry vol) {data : Nat → Byte} {len : Nat}

variable (vol data len) in
theorem stream_kept (l : List Nat) (written : Nat) (v : View) :
    (v.stream vol data len l written).link = v.link ∧
      (v.stream vol data len l written).dir = v.dir ∧
      ∀ c, c ∉ l → (v.stream vol data len l written).data c = v.data c := by
  induction l generalizing written v with
  | nil => exact ⟨rfl, rfl, fun _ _ => rfl⟩
  | cons c l ih =>
    obtain ⟨link, dir, others⟩ :=
      ih (written + 512 * vol.spc) (v.setData c (block vol data len written))
    refine ⟨link, dir, fun e out => ?_⟩
    have outside : e ≠ c ∧ e ∉ l := by simpa using out
    rw [View.stream, others e outside.2, View.setData_data, Function.update_of_ne outside.1]

include geo

variable (faults data) in
theorem writeCluster_cases {c : Nat} (inside : Cluster vol c) {written : Nat}
    (bounded : written ≤ len) (s : Io) :
    (∃ s', writeSectors (device faults) data len vol.spc (vol.dataLba + (c - 2) * vol.spc) written s =
        (some (min (written + 512 * vol.spc) len), s') ∧
      (∃ f, view vol s'.disk = (view vol s.disk).setData c f) ∧
      (((view vol s.disk).data c = fun _ => 0) →
        Becomes vol s s' ((view vol s.disk).setData c (block vol data len written)))) ∨
    ∃ s' f, writeSectors (device faults) data len vol.spc (vol.dataLba + (c - 2) * vol.spc) written s =
        (none, s') ∧ view vol s'.disk = (view vol s.disk).setData c f ∧ ¬ Reliable faults := by
  have place : dataAddr vol c = 512 * (vol.dataLba + (c - 2) * vol.spc) := rfl
  have last : 512 * (vol.dataLba + (c - 2) * vol.spc + vol.spc) =
      dataAddr vol c + 512 * vol.spc := by
    rw [place, Nat.mul_add]
  have bounded' := geo.cluster_end inside
  obtain ⟨o, s', call, outside, done, failed⟩ :=
    writeSectors_cases faults data len vol.spc (vol.dataLba + (c - 2) * vol.spc) bounded s
  rw [last, ← place] at outside
  rw [← place] at done
  have becomes :=
    becomes_data geo inside (fun j => s'.disk (dataAddr vol c + j)) outside fun _ _ => rfl
  cases o with
  | some w =>
    obtain ⟨rfl, content⟩ := done w rfl
    refine .inl ⟨s', call, ⟨_, becomes.shows⟩, fun zero => ?_⟩
    refine becomes_data geo inside (chunk data len written) outside (content fun j low => ?_)
    have byte := congrFun zero j
    simp only [view, inside, low, and_self, if_true] at byte
    exact byte
  | none =>
    obtain ⟨i, below, bad⟩ := failed rfl
    exact .inr ⟨s', _, call, becomes.shows, fun reliable => reliable.good (by omega) bad⟩

theorem writeChain_ok (reliable : Reliable faults) {first : Nat} (l : List Nat) (n : Nat)
    (enough : l.length ≤ n) {c written : Nat} {s : Io} (chain : FatChain vol (view vol s.disk) c l)
    (zero : ∀ e ∈ l, (view vol s.disk).data e = fun _ => 0) (more : written < len)
    (fits : len ≤ written + 512 * vol.spc * l.length)
    (needed : written + 512 * vol.spc * l.length < len + 512 * vol.spc) :
    ∃ s', writeChain (device faults) vol data len first n c written s = (true, s') ∧
      Becomes vol s s' ((view vol s.disk).stream vol data len l written) := by
  induction l generalizing n c written s with
  | nil =>
    simp only [List.length_nil, Nat.mul_zero] at fits
    omega
  | cons e l ih =>
    have fresh := (List.nodup_cons.mp (FatChain.nodup geo chain)).1
    obtain ⟨n, rfl⟩ : ∃ m, n = m + 1 := ⟨n - 1, by simp at enough; omega⟩
    rw [List.length_cons, Nat.mul_succ] at fits needed
    cases chain with
    | cons inside later =>
      rcases writeCluster_cases faults geo data inside (Nat.le_of_lt more) s with
        ⟨s₁, wrote, -, becomes⟩ | ⟨_, _, _, _, unreliable⟩
      · have becomes := becomes (zero e (by simp))
        have entered : 2 ≤ e ∧ written < len := ⟨inside.1, more⟩
        by_cases rest : written + 512 * vol.spc < len
        · obtain ⟨s₂, got, disk₂⟩ := fatGet_ok geo reliable inside s₁
          have link : (view vol s₁.disk).link e = (view vol s.disk).link e := by
            rw [becomes.shows]
            rfl
          have later₂ : FatChain vol (view vol s₂.disk) ((view vol s.disk).link e) l := by
            rw [disk₂, becomes.shows]
            exact later
          have zero₂ : ∀ d ∈ l, (view vol s₂.disk).data d = fun _ => 0 := by
            intro d member
            have other : d ≠ e := by
              rintro rfl
              exact fresh member
            rw [disk₂, becomes.shows, View.setData_data, Function.update_of_ne other]
            exact zero d (by simp [member])
          obtain ⟨s', run, becomes'⟩ :=
            ih n (by simpa using enough) later₂ zero₂ rest (by omega) (by omega)
          refine ⟨s', ?_, ?_⟩
          · rw [writeChain, if_pos entered]
            simp only [wrote, Nat.min_eq_left (Nat.le_of_lt rest), if_pos rest, got, link, run]
          · rw [disk₂, becomes.shows] at becomes'
            exact becomes.trans ((Becomes.refl disk₂).trans becomes')
        · -- The payload ends in this cluster, and the chain does too.
          have ended : l = [] := by
            cases l with
            | nil => rfl
            | cons d l =>
              rw [List.length_cons, Nat.mul_succ] at needed
              omega
          have full : min (written + 512 * vol.spc) len = len := Nat.min_eq_right (by omega)
          refine ⟨s₁, ?_, by rw [ended]; exact becomes⟩
          rw [writeChain, if_pos entered]
          simp only [wrote, full, Nat.lt_irrefl, if_false]
          cases n with
          | zero => rfl
          | succ n => rw [writeChain, if_neg (by omega)]
      · exact absurd reliable unreliable

end Streams

end NovaKernel
