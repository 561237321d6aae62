import NovaKernel.FatWrite

set_option autoImplicit false

namespace NovaKernel

open Linked

def deletedEntry (e : Nat → Byte) : Nat → Byte := Function.update e 0 0xE5

structure Deleted (v v' : View) (k : Nat) (old : List Nat) : Prop where
  dir : v'.dir = Function.update v.dir k (deletedEntry (v.dir k))
  link : v'.link = (v.release old).link
  data : v'.data = v.data

section Deletes

variable {faults : Faults} {vol : Volume} (geo : Geometry vol) (reliable : Reliable faults)
  {last : Nat} {chain : Nat → List Nat} {s : Io}

include geo reliable

theorem markSlot_ok {k : Nat} (inside : k < 16 * vol.rootSectors) (s : Io) :
    ∃ s₁ s₂, loadSecbuf (device faults) (slotOf vol k true).lba s = (true, s₁) ∧
      u16Of s₁.secbuf ((slotOf vol k true).off + 26) = (view vol s.disk).start k ∧
      storeSecbuf (device faults) (slotOf vol k true).lba
        { s₁ with secbuf := Function.update s₁.secbuf (slotOf vol k true).off 0xE5 } = (true, s₂) ∧
      Becomes vol s s₂ ((view vol s.disk).setSlot k (deletedEntry ((view vol s.disk).dir k))) := by
  obtain ⟨s₁, loaded, disk₁, buf, start⟩ := loadStart_ok geo reliable inside true s
  obtain ⟨s₁', loaded', -, -, bytes⟩ := loadSlot_ok geo reliable inside true s
  obtain rfl : s₁ = s₁' := (Prod.mk.inj (loaded.symm.trans loaded')).2
  have marked : Function.update s₁.secbuf (slotOf vol k true).off 0xE5 =
      putEntry (sectorOf s₁.disk (slotOf vol k true).lba) (slotOf vol k true).off
        (deletedEntry ((view vol s.disk).dir k)) := by
    funext j
    rw [disk₁, ← buf, putEntry]
    by_cases first : j = (slotOf vol k true).off
    · rw [first, Function.update_self, if_pos (by omega), Nat.sub_self, deletedEntry,
        Function.update_self]
    · rw [Function.update_of_ne first]
      by_cases within : (slotOf vol k true).off ≤ j ∧ j < (slotOf vol k true).off + 32
      · have index : (slotOf vol k true).off + (j - (slotOf vol k true).off) = j := by omega
        rw [if_pos within, deletedEntry, Function.update_of_ne (by omega), ← bytes _ (by omega), index]
      · rw [if_neg within]
  obtain ⟨s₂, stored, becomes⟩ := storeSlot_ok geo reliable inside true marked
  rw [disk₁] at becomes
  have entry : (fun j => if j < 32 then deletedEntry ((view vol s.disk).dir k) j else 0) =
      deletedEntry ((view vol s.disk).dir k) := by
    funext j
    by_cases low : j < 32
    · rw [if_pos low]
    · have beyond : (view vol s.disk).dir k j = 0 := if_neg fun h => low h.2
      rw [if_neg low, deletedEntry, Function.update_of_ne (by omega), beyond]
  rw [entry] at becomes
  exact ⟨s₁, s₂, loaded, start, stored, (Becomes.refl disk₁).trans becomes⟩

variable (layout : Layout vol (view vol s.disk) last chain)

include layout

theorem fatDelete_cases (name : List Byte) :
    (∃ k s', fatDelete (device faults) vol name s = (true, s') ∧ (view vol s.disk).live k = true ∧
        (view vol s.disk).name k = normName name ∧
          (CopiesAgree vol s.disk → CopiesAgree vol s'.disk) ∧
        Deleted (view vol s.disk) (view vol s'.disk) k (chain k)) ∨
      ∃ s', fatDelete (device faults) vol name s = (false, s') ∧
        (∀ k, (view vol s.disk).live k = true → (view vol s.disk).name k ≠ normName name) ∧
        s'.disk = s.disk := by
  have mounted : ¬ (!vol.mounted) = true := by simp [geo.mounted]
  obtain ⟨s₁, searched, disk₁⟩ := dirFindSlot_ok (normName_length name) geo reliable s
  rcases layout.findSlot_cases (normName name) with ⟨⟨k, existed⟩, found, inside, -, slot⟩ | ⟨none', absent⟩
  · rw [found, Option.map_some] at searched
    cases existed with
    | false =>
      refine .inr ⟨s₁, ?_, slot.2, disk₁⟩
      rw [fatDelete, if_neg mounted, searched]
      rfl
    | true =>
      obtain ⟨s₂, s₃, loaded, start, stored, becomes⟩ := markSlot_ok geo reliable inside s₁
      rw [disk₁] at start becomes
      have owned : FileChain vol (view vol s₃.disk) ((view vol s.disk).start k) (chain k) := by
        rw [becomes.shows]
        exact (layout.chains k slot.1).congr fun _ _ => rfl
      have freed := freeFile_ok geo reliable owned
      rw [becomes.shows] at freed
      refine .inl ⟨k, fatFreeChain (device faults) vol ((view vol s.disk).start k) s₃, ?_, slot.1,
        slot.2, ?_, ?_⟩
      · have there : (!(slotOf vol k true).existed) = false := rfl
        rw [fatDelete, if_neg mounted, searched]
        simp only [there, Bool.false_eq_true, if_false, loaded, start, stored]
      · have agree := becomes.agree
        rw [disk₁] at agree
        exact freed.agree ∘ agree
      · rw [freed.shows]
        exact ⟨rfl, rfl, rfl⟩
  · rw [none', Option.map_none] at searched
    refine .inr ⟨s₁, ?_, absent, disk₁⟩
    rw [fatDelete, if_neg mounted, searched]

end Deletes

section Layouts

variable {vol : Volume} {v v' : View} {last k : Nat} {chain : Nat → List Nat} {norm : List Byte}
  (layout : Layout vol v last chain) (deleted : Deleted v v' k (chain k))

include deleted

omit layout in
theorem Deleted.dead : v'.live k ≠ true := by
  refine View.live_of_dead (.inr ?_)
  rw [deleted.dir, Function.update_self, deletedEntry, Function.update_self]

omit layout in
theorem Deleted.dir_ne {i : Nat} (other : i ≠ k) : v'.dir i = v.dir i := by
  rw [deleted.dir, Function.update_of_ne other]

omit layout in
theorem Deleted.live_iff (i : Nat) : v'.live i = true ↔ v.live i = true ∧ i ≠ k := by
  by_cases here : i = k
  · subst here
    exact ⟨fun live => absurd live deleted.dead, fun both => absurd rfl both.2⟩
  · have same : v'.live i = v.live i := by rw [View.live, View.live, deleted.dir_ne here]
    rw [same]
    exact ⟨fun live => ⟨live, here⟩, And.left⟩

variable (here : v.live k = true)

include layout here

theorem Deleted.keepsLayout : Layout vol v' last chain := by
  have below := layout.live_lt here
  have others : ∀ i, v'.live i = true → v.live i = true ∧ v'.dir i = v.dir i := fun i live => by
    obtain ⟨live, other⟩ := (deleted.live_iff i).mp live
    exact ⟨live, deleted.dir_ne other⟩
  have apart : ∀ i, v'.live i = true → ∀ c ∈ chain i, c ∉ chain k := fun i live c member => by
    obtain ⟨live, other⟩ := (deleted.live_iff i).mp live
    exact layout.disjoint i k live here other member
  constructor
  case bounded => exact layout.bounded
  case before =>
    intro i low
    by_cases same : i = k
    · rw [same, deleted.dir, Function.update_self, deletedEntry, Function.update_self]
      decide
    · rw [deleted.dir_ne same]
      exact layout.before i low
  case after =>
    intro i beyond j
    rw [deleted.dir_ne (by omega)]
    exact layout.after i beyond j
  case distinct =>
    intro i j liveI liveJ same
    obtain ⟨liveI, dirI⟩ := others i liveI
    obtain ⟨liveJ, dirJ⟩ := others j liveJ
    rw [View.name, View.name, dirI, dirJ] at same
    exact layout.distinct i j liveI liveJ same
  case chains =>
    intro i live
    rw [View.start, (others i live).2]
    refine (layout.chains i (others i live).1).congr fun c member => ?_
    rw [deleted.link, View.release_link, if_neg (apart i live c member)]
  case sizes =>
    intro i live
    rw [View.size, (others i live).2]
    exact layout.sizes i (others i live).1
  case disjoint => exact fun i j liveI liveJ => layout.disjoint i j (others i liveI).1 (others j liveJ).1
  case covered =>
    intro c cluster used
    rw [deleted.link, View.release_link] at used
    have kept : c ∉ chain k := fun member => used (if_pos member)
    rw [if_neg kept] at used
    obtain ⟨i, live, member⟩ := layout.covered c cluster used
    refine ⟨i, (deleted.live_iff i).mpr ⟨live, ?_⟩, member⟩
    rintro rfl
    exact kept member

theorem Deleted.lookup (named : v.name k = norm) :
    v'.lookup vol chain = Function.update (v.lookup vol chain) norm none := by
  have layout' := deleted.keepsLayout layout here
  funext norm'
  by_cases same : norm' = norm
  · rw [same, Function.update_self]
    refine layout'.lookup_absent fun i live named' => ?_
    obtain ⟨live, other⟩ := (deleted.live_iff i).mp live
    rw [View.name, deleted.dir_ne other] at named'
    exact other (layout.distinct i k live here (named'.trans named.symm))
  · rw [Function.update_of_ne same]
    rcases layout.find_cases norm' with ⟨i, -, live, named'⟩ | ⟨-, absent⟩
    · have other : i ≠ k := by
        rintro rfl
        exact same (named'.symm.trans named)
      have live' := (deleted.live_iff i).mpr ⟨live, other⟩
      have dir := deleted.dir_ne other
      have contents : v'.contents vol (chain i) = v.contents vol (chain i) :=
        View.contents_congr fun c _ => by rw [deleted.data]
      rw [layout.lookup_found live named', layout'.lookup_found live' (by rwa [View.name, dir]),
        View.file, View.file, contents, View.size, View.size, dir]
    · rw [layout.lookup_absent absent]
      refine layout'.lookup_absent fun i live named' => ?_
      obtain ⟨live, other⟩ := (deleted.live_iff i).mp live
      rw [View.name, deleted.dir_ne other] at named'
      exact absent i live named'

end Layouts

end NovaKernel
