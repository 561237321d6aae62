import NovaKernel.FatStream

set_option autoImplicit false

namespace NovaKernel

open Linked

def View.contents (vol : Volume) (v : View) (l : List Nat) : List Byte :=
  l.flatMap fun c => (List.range (512 * vol.spc)).map (v.data c)

theorem View.contents_cons (vol : Volume) (v : View) (c : Nat) (l : List Nat) :
    v.contents vol (c :: l) = (List.range (512 * vol.spc)).map (v.data c) ++ v.contents vol l := rfl

theorem View.contents_congr {vol : Volume} {v v' : View} {l : List Nat}
    (same : ∀ c ∈ l, v'.data c = v.data c) : v'.contents vol l = v.contents vol l := by
  induction l with
  | nil => rfl
  | cons c l ih =>
    rw [View.contents_cons, View.contents_cons, same c (by simp),
      ih fun d member => same d (by simp [member])]

theorem View.contents_length (vol : Volume) (v : View) (l : List Nat) :
    (v.contents vol l).length = 512 * vol.spc * l.length := by
  induction l with
  | nil => rfl
  | cons c l ih =>
    rw [View.contents_cons, List.length_append, ih, List.length_map, List.length_range,
      List.length_cons, Nat.mul_succ, Nat.add_comm]

theorem block_map (vol : Volume) (data : Nat → Byte) (len written : Nat) :
    (List.range (512 * vol.spc)).map (block vol data len written) =
      (List.range (512 * vol.spc)).map (chunk data len written) := by
  refine List.map_congr_left fun j member => ?_
  rw [block, if_pos (List.mem_range.mp member)]

theorem stream_contents (vol : Volume) (data : Nat → Byte) (len : Nat) (l : List Nat)
    (nodup : l.Nodup) (written : Nat) (v : View) :
    (v.stream vol data len l written).contents vol l =
      (List.range (512 * vol.spc * l.length)).map (chunk data len written) := by
  induction l generalizing written v with
  | nil => rfl
  | cons c l ih =>
    obtain ⟨fresh, nodup'⟩ := List.nodup_cons.mp nodup
    have kept := (stream_kept vol data len l (written + 512 * vol.spc)
      (v.setData c (block vol data len written))).2.2 c fresh
    have shift : (fun j => chunk data len (written + 512 * vol.spc) j) =
        fun j => chunk data len written (512 * vol.spc + j) := by
      funext j
      simp only [chunk, Nat.add_assoc]
    rw [View.contents_cons, View.stream, kept, View.setData_data, Function.update_self, block_map,
      ih nodup', List.length_cons, Nat.mul_succ, Nat.add_comm (512 * vol.spc * l.length),
      List.range_add, List.map_append, List.map_map]
    exact congrArg _ (List.map_congr_left fun j _ => congrFun shift j)

theorem stream_file (vol : Volume) (data : Nat → Byte) {len : Nat} (l : List Nat) (nodup : l.Nodup)
    (fits : len ≤ 512 * vol.spc * l.length) (v : View) :
    ((v.stream vol data len l 0).contents vol l).take len = (List.range len).map data := by
  rw [stream_contents vol data len l nodup, ← List.map_take, List.take_range, Nat.min_eq_left fits]
  refine List.map_congr_left fun j member => ?_
  have below := List.mem_range.mp member
  rw [chunk, Nat.zero_add, if_pos below]

section Reads

variable {faults : Faults} {vol : Volume} (geo : Geometry vol)

theorem readCluster_ok (reliable : Reliable faults) (fsize max n lba : Nat)
    (bounded : lba + n ≤ diskSectors) (out : List Byte) (s : Io) :
    ∃ s', readCluster (device faults) fsize max n lba out s =
      (some (out ++ (List.range (min (512 * n) (min fsize max - out.length))).map fun j =>
        s.disk (512 * lba + j)), s') ∧ s'.disk = s.disk := by
  induction n generalizing lba out s with
  | zero => exact ⟨s, by simp [readCluster], rfl⟩
  | succ n ih =>
    by_cases more : out.length < fsize ∧ out.length < max
    · obtain ⟨s₁, read, disk⟩ : ∃ s₁, (device faults).readSector lba s =
        (some (sectorOf s.disk lba), s₁) ∧
          s₁.disk = s.disk := by
        rcases readSector_cases faults lba s with ⟨s₁, -, -, bad⟩ | done
        · exact absurd bad (reliable.good (by omega))
        · exact done
      generalize taken : min (min (fsize - out.length) 512) (max - out.length) = count
      obtain ⟨s', call, disk'⟩ :=
        ih (lba + 1) (by omega) (out ++ (List.range count).map (sectorOf s.disk lba)) s₁
      refine ⟨s', ?_, disk'.trans disk⟩
      rw [readCluster, if_pos more]
      simp only [read, taken, call, disk, List.append_assoc, Prod.mk.injEq, Option.some.injEq,
        and_true, List.append_cancel_left_eq, List.length_append, List.length_map,
        List.length_range]
      -- The first sector's bytes, and then those of the others.
      by_cases whole : count = 512
      · have split : min (512 * (n + 1)) (min fsize max - out.length) =
            512 + min (512 * n) (min fsize max - (out.length + count)) := by omega
        rw [split, List.range_add, List.map_append, List.map_map, whole]
        congr 1
        refine List.map_congr_left fun j _ => ?_
        rw [Function.comp_apply, show 512 * (lba + 1) + j = 512 * lba + (512 + j) by omega]
      · have none' : min (512 * n) (min fsize max - (out.length + count)) = 0 := by omega
        have part : min (512 * (n + 1)) (min fsize max - out.length) = count := by omega
        rw [none', part]
        simp [sectorOf]
    · have none' : min (512 * (n + 1)) (min fsize max - out.length) = 0 := by omega
      exact ⟨s, by simp [readCluster, more, none'], rfl⟩

include geo

theorem readChain_ok (reliable : Reliable faults) (fsize max : Nat) (l : List Nat) (n : Nat)
    (enough : l.length ≤ n) {a : Nat} (out : List Byte) (s : Io)
    (chain : FatChain vol (view vol s.disk) a l) :
    ∃ s', readChain (device faults) vol fsize max n a out s =
      (some (out ++ ((view vol s.disk).contents vol l).take (min fsize max - out.length)), s') ∧
        s'.disk = s.disk := by
  induction l generalizing n a out s with
  | nil =>
    refine ⟨s, ?_, rfl⟩
    have nothing : (view vol s.disk).contents vol [] = [] := rfl
    rw [nothing, List.take_nil, List.append_nil]
    cases chain with
    | nil halted =>
      cases n with
      | zero => rfl
      | succ n => rw [readChain, if_neg (by omega)]
  | cons c l ih =>
    obtain ⟨n, rfl⟩ : ∃ m, n = m + 1 := ⟨n - 1, by simp at enough; omega⟩
    cases chain with
    | cons inside later =>
      have small := geo.cluster_lt inside
      by_cases more : out.length < fsize ∧ out.length < max
      · obtain ⟨s₁, read, disk₁⟩ := readCluster_ok reliable fsize max vol.spc
          (vol.dataLba + (c - 2) * vol.spc) (geo.cluster_end inside) out s
        obtain ⟨s₂, got, disk₂⟩ := fatGet_ok geo reliable inside s₁
        rw [disk₁] at got disk₂
        obtain ⟨s', call, disk'⟩ := ih n (by simpa using enough) (out ++
          (List.range (min (512 * vol.spc) (min fsize max - out.length))).map fun j =>
            s.disk (512 * (vol.dataLba + (c - 2) * vol.spc) + j)) s₂ (by rw [disk₂]; exact later)
        refine ⟨s', ?_, disk'.trans disk₂⟩
        rw [fatGet] at got
        rw [readChain, if_pos ⟨inside.1, by omega, more⟩]
        simp only [read, got, call, disk₂, List.append_assoc, Prod.mk.injEq, Option.some.injEq,
          and_true, List.append_cancel_left_eq, List.length_append, List.length_map,
          List.length_range]
        rw [View.contents_cons, List.take_append, List.length_map, List.length_range,
          ← List.map_take, List.take_range]
        have bytes : ∀ j ∈ List.range (min (512 * vol.spc) (min fsize max - out.length)),
            s.disk (512 * (vol.dataLba + (c - 2) * vol.spc) + j) = (view vol s.disk).data c j := by
          intro j member
          have low : j < 512 * vol.spc := by
            have := List.mem_range.mp member
            omega
          simp only [view, inside, low, and_self, if_true, dataAddr]
        rw [List.map_congr_left bytes, Nat.min_comm (512 * vol.spc)]
        congr 2
        omega
      · have none' : min fsize max - out.length = 0 := by omega
        refine ⟨s, ?_, rfl⟩
        rw [none', List.take_zero, List.append_nil, readChain, if_neg (by omega)]

end Reads

end NovaKernel
