import NovaKernel.FatLayout

set_option autoImplicit false

namespace NovaKernel

open Linked

theorem u8_byte (n i : Nat) : (u8 ((n >>> i) &&& 0xFF)).toNat = n / 2 ^ i % 256 := by
  rw [u8, BitVec.toNat_ofNat, show (0xFF : Nat) = 2 ^ 8 - 1 by rfl, low_bits,
    Nat.shiftRight_eq_div_pow]
  exact Nat.mod_mod _ _

section NewEntry

variable (norm : List Byte) (first len : Nat)

theorem newEntry_start (small : first < 2 ^ 16) : u16Of (newEntry norm first len) 26 = first := by
  have low : newEntry norm first len 26 = u8 ((first >>> 0) &&& 0xFF) := rfl
  have high : newEntry norm first len (26 + 1) = u8 ((first >>> 8) &&& 0xFF) := rfl
  have small₀ : first / 2 ^ 0 % 256 < 2 ^ 8 := by omega
  rw [u16Of, low, high, u8_byte, u8_byte, or_shift _ _ small₀]
  omega

theorem newEntry_size (small : len < 2 ^ 32) : u32Of (newEntry norm first len) 28 = len := by
  have b0 : newEntry norm first len 28 = u8 ((len >>> 0) &&& 0xFF) := rfl
  have b1 : newEntry norm first len (28 + 1) = u8 ((len >>> 8) &&& 0xFF) := rfl
  have b2 : newEntry norm first len (28 + 2) = u8 ((len >>> 16) &&& 0xFF) := rfl
  have b3 : newEntry norm first len (28 + 3) = u8 ((len >>> 24) &&& 0xFF) := rfl
  have small₀ : len / 2 ^ 0 % 256 < 2 ^ 8 := by omega
  have small₁ : len / 2 ^ 0 % 256 + 2 ^ 8 * (len / 2 ^ 8 % 256) < 2 ^ 16 := by omega
  have small₂ : len / 2 ^ 0 % 256 + 2 ^ 8 * (len / 2 ^ 8 % 256) + 2 ^ 16 * (len / 2 ^ 16 % 256) < 2 ^ 24 := by
    omega
  rw [u32Of, b0, b1, b2, b3, u8_byte, u8_byte, u8_byte, u8_byte, or_shift _ _ small₀,
    or_shift _ _ small₁, or_shift _ _ small₂]
  omega

variable {norm}

theorem newEntry_name (long : norm.length = 11) :
    (List.range 11).map (newEntry norm first len) = norm := by
  refine List.ext_getElem (by rw [List.length_map, List.length_range, long]) fun i low low' => ?_
  rw [List.length_map, List.length_range] at low
  rw [List.getElem_map, List.getElem_range, newEntry, if_pos low, List.getD_eq_getElem _ _ low']

end NewEntry

/-- Names whose entry is neither the end mark nor a deleted one. -/
def Usable (norm : List Byte) : Prop :=
  norm.length = 11 ∧ norm.getD 0 0 ≠ 0x00 ∧ norm.getD 0 0 ≠ 0xE5

/-- The file is stored in slot `k`, in clusters that are free once those of `old` are released. -/
structure Stored (vol : Volume) (v v' : View) (old cs : List Nat) (k first : Nat) (norm : List Byte)
    (data : Nat → Byte) (len : Nat) : Prop where
  dir : v'.dir = Function.update v.dir k fun j => if j < 32 then newEntry norm first len j else 0
  free : ∀ c ∈ cs, Cluster vol c ∧ (v.release old).link c = 0
  link : ∀ c, c ∉ cs → v'.link c = (v.release old).link c
  kept : ∀ c, c ∉ cs → v'.data c = v.data c
  chain : FileChain vol v' first cs
  length : cs.length = (len + (512 * vol.spc - 1)) / (512 * vol.spc)
  bytes : (v'.contents vol cs).take len = (List.range len).map data

namespace Stored

variable {vol : Volume} {v v' : View} {old cs : List Nat} {k first : Nat} {norm : List Byte}
  {data : Nat → Byte} {len : Nat} (stored : Stored vol v v' old cs k first norm data len)
  (usable : Usable norm)

include stored

theorem dir_here {j : Nat} (low : j < 32) : v'.dir k j = newEntry norm first len j := by
  rw [stored.dir, Function.update_self, if_pos low]

theorem dir_ne {i : Nat} (other : i ≠ k) : v'.dir i = v.dir i := by
  rw [stored.dir, Function.update_of_ne other]

theorem live_ne {i : Nat} (other : i ≠ k) : v'.live i = v.live i := by
  rw [View.live, View.live, stored.dir_ne other]

theorem start_here (small : first < 2 ^ 16) : v'.start k = first := by
  rw [View.start, ← newEntry_start norm first len small, u16Of, u16Of, stored.dir_here (by decide),
    stored.dir_here (by decide)]

theorem size_here (small : len < 2 ^ 32) : v'.size k = len := by
  rw [View.size, ← newEntry_size norm first len small, u32Of, u32Of, stored.dir_here (by decide),
    stored.dir_here (by decide), stored.dir_here (by decide), stored.dir_here (by decide)]

include usable

theorem name_here : v'.name k = norm := by
  rw [← newEntry_name first len usable.1]
  refine List.map_congr_left fun j member => ?_
  exact stored.dir_here (by have := List.mem_range.mp member; omega)

theorem live_here : v'.live k = true := by
  refine View.live_iff.mpr ⟨?_, ?_, ?_⟩
  · rw [stored.dir_here (by decide)]
    exact usable.2.1
  · rw [stored.dir_here (by decide)]
    exact usable.2.2
  · rw [stored.dir_here (by decide)]
    exact (show (0x20 : Byte) ≠ 0x0F by decide)

end Stored

section Layouts

variable {vol : Volume} {v v' : View} {last : Nat} {chain : Nat → List Nat}
    (layout : Layout vol v last chain)
  {cs : List Nat} {k first : Nat} {existed : Bool} {norm : List Byte} {data : Nat → Byte} {len : Nat}

def oldClusters (chain : Nat → List Nat) (k : Nat) (existed : Bool) : List Nat :=
  if existed then chain k else []

include layout

theorem Layout.released_link (chosen : Chosen vol v last norm k existed) {i : Nat}
    (live : v.live i = true) (other : i ≠ k) {c : Nat} (member : c ∈ chain i) :
    (v.release (oldClusters chain k existed)).link c = v.link c := by
  refine if_neg fun released => ?_
  cases existed with
  | false => simp [oldClusters] at released
  | true => exact layout.disjoint i k live chosen.2.2.1 other member released

variable (chosen : Chosen vol v last norm k existed) (usable : Usable norm)
  (stored : Stored vol v v' (oldClusters chain k existed) cs k first norm data len)

include chosen stored

theorem Stored.apart {i : Nat} (live : v.live i = true) (other : i ≠ k) {c : Nat}
    (member : c ∈ chain i) :
    c ∉ cs := by
  intro taken
  have free := (stored.free c taken).2
  rw [layout.released_link chosen live other member] at free
  exact (layout.chains i live).link_ne member free

theorem Stored.link_ne {i : Nat} (live : v.live i = true) (other : i ≠ k) {c : Nat}
    (member : c ∈ chain i) :
    v'.link c = v.link c :=
  (stored.link c (stored.apart layout chosen live other member)).trans
    (layout.released_link chosen live other member)

theorem Stored.file_ne {i : Nat} (live : v.live i = true) (other : i ≠ k) :
    v'.file vol i (chain i) = v.file vol i (chain i) := by
  have same : v'.contents vol (chain i) = v.contents vol (chain i) :=
    View.contents_congr fun c member => stored.kept c (stored.apart layout chosen live other member)
  rw [View.file, View.file, same, View.size, View.size, stored.dir_ne other]

include usable

theorem Stored.keepsLayout (small : len < 2 ^ 32) (geo : Geometry vol) :
    Layout vol v' (max last (k + 1)) (Function.update chain k cs) := by
  obtain ⟨inside, within, slot⟩ := chosen
  have bounded := layout.bounded
  have absent : ∀ i, i ≠ k → v.live i = true → v.name i ≠ norm := by
    intro i other live named
    cases existed with
    | false => exact slot.2 i live named
    | true => exact other (layout.distinct i k live slot.1 (named.trans slot.2.symm))
  have others : ∀ i, i ≠ k → v'.live i = true → v.live i = true := fun i other live => by
    rwa [stored.live_ne other] at live
  constructor
  case bounded => omega
  case before =>
    intro i below
    by_cases here : i = k
    · exact here ▸ (View.live_iff.mp (stored.live_here usable)).1
    · rw [stored.dir_ne here]
      exact layout.before i (by omega)
  case after =>
    intro i beyond j
    rw [stored.dir_ne (by omega)]
    exact layout.after i (by omega) j
  case distinct =>
    intro i j liveI liveJ same
    by_cases hereI : i = k
    · by_cases hereJ : j = k
      · rw [hereI, hereJ]
      · rw [hereI, stored.name_here usable, View.name, stored.dir_ne hereJ] at same
        exact absurd same.symm (absent j hereJ (others j hereJ liveJ))
    · by_cases hereJ : j = k
      · rw [hereJ, stored.name_here usable, View.name, stored.dir_ne hereI] at same
        exact absurd same (absent i hereI (others i hereI liveI))
      · rw [View.name, View.name, stored.dir_ne hereI, stored.dir_ne hereJ] at same
        exact layout.distinct i j (others i hereI liveI) (others j hereJ liveJ) same
  case chains =>
    intro i live
    by_cases here : i = k
    · rw [here, Function.update_self, stored.start_here (stored.chain.small geo)]
      exact stored.chain
    · have live := others i here live
      rw [Function.update_of_ne here, View.start, stored.dir_ne here]
      exact (layout.chains i live).congr fun c member =>
        stored.link_ne layout ⟨inside, within, slot⟩ live here member
  case sizes =>
    intro i live
    by_cases here : i = k
    · rw [here, Function.update_self, stored.size_here small]
      exact stored.length
    · rw [Function.update_of_ne here, View.size, stored.dir_ne here]
      exact layout.sizes i (others i here live)
  case disjoint =>
    intro i j liveI liveJ other
    by_cases hereI : i = k
    · have hereJ : j ≠ k := fun h => other (hereI.trans h.symm)
      rw [hereI, Function.update_self, Function.update_of_ne hereJ]
      exact fun c taken member =>
        stored.apart layout ⟨inside, within, slot⟩ (others j hereJ liveJ) hereJ member taken
    · rw [Function.update_of_ne hereI]
      by_cases hereJ : j = k
      · rw [hereJ, Function.update_self]
        exact fun c member taken =>
          stored.apart layout ⟨inside, within, slot⟩ (others i hereI liveI) hereI member taken
      · rw [Function.update_of_ne hereJ]
        exact layout.disjoint i j (others i hereI liveI) (others j hereJ liveJ) other
  case covered =>
    intro c cluster used
    by_cases taken : c ∈ cs
    · exact ⟨k, stored.live_here usable, by rwa [Function.update_self]⟩
    · rw [stored.link c taken, View.release_link] at used
      have kept : c ∉ oldClusters chain k existed := fun released => used (if_pos released)
      rw [if_neg kept] at used
      obtain ⟨i, live, member⟩ := layout.covered c cluster used
      have other : i ≠ k := by
        rintro rfl
        cases existed with
        | false => exact View.live_of_dead slot.1 live
        | true => exact kept member
      exact ⟨i, by rwa [stored.live_ne other], by rwa [Function.update_of_ne other]⟩

variable (small : len < 2 ^ 32) (geo : Geometry vol)

include small geo

omit layout chosen usable geo in
theorem Stored.file_here : v'.file vol k (Function.update chain k cs k) =
    (List.range len).map data := by
  rw [Function.update_self, View.file, stored.size_here small, stored.bytes]

theorem Stored.lookup :
    v'.lookup vol (Function.update chain k cs) =
      Function.update (v.lookup vol chain) norm (some ((List.range len).map data)) := by
  have layout' := stored.keepsLayout layout chosen usable small geo
  funext norm'
  by_cases same : norm' = norm
  · rw [same, Function.update_self,
      layout'.lookup_found (stored.live_here usable) (stored.name_here usable),
      stored.file_here small]
  · have other : ∀ i, v'.live i = true → v'.name i = norm' → i ≠ k := by
      rintro i - named rfl
      exact same (named.symm.trans (stored.name_here usable))
    rw [Function.update_of_ne same]
    rcases layout.find_cases norm' with ⟨i, -, live, named⟩ | ⟨-, absent⟩
    · have apart : i ≠ k := by
        rintro rfl
        obtain ⟨-, -, slot⟩ := chosen
        cases existed with
        | false => exact View.live_of_dead slot.1 live
        | true => exact same (named.symm.trans slot.2)
      have live' : v'.live i = true := by rwa [stored.live_ne apart]
      have named' : v'.name i = norm' := by rwa [View.name, stored.dir_ne apart]
      rw [layout.lookup_found live named, layout'.lookup_found live' named',
        Function.update_of_ne apart, stored.file_ne layout chosen live apart]
    · rw [layout.lookup_absent absent]
      refine layout'.lookup_absent fun i live named => ?_
      have apart := other i live named
      rw [stored.live_ne apart] at live
      rw [View.name, stored.dir_ne apart] at named
      exact absent i live named

end Layouts

end NovaKernel
