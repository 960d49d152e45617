import Mathlib.Data.Fintype.Card
import Mathlib.Data.List.Nodup
import Mathlib.Data.Set.Card

/-!
The best of a list: what the first items of any arrangement by rank have to say of the
whole list. Items of one rank may stand in any order.
-/
namespace Ranking

variable {Item Key : Type} (above : Item → Item → Prop)

/-- The items in an order in which none stands before one that is above it. -/
structure Arranged (items sorted : List Item) : Prop where
  perm : sorted.Perm items
  falling : sorted.Pairwise above

/-- At most `limit` of the items, in falling order and with nothing above them left out. -/
structure Best (limit : Nat) (items best : List Item) : Prop where
  length : best.length = min limit items.length
  chosen : List.Subperm best items
  falling : best.Pairwise above
  others : ∀ item ∈ items, item ∉ best → ∀ chosen ∈ best, above chosen item

theorem take_best (limit : Nat) (items sorted : List Item)
    (arranged : Arranged above items sorted) : Best above limit items (sorted.take limit) where
  length := by rw [List.length_take, arranged.perm.length_eq]
  chosen := (List.take_sublist limit sorted).subperm.trans arranged.perm.subperm
  falling := arranged.falling.sublist (List.take_sublist limit sorted)
  others := by
    intro item member absent chosen taken
    -- What is not among the first items is among the others, behind all of them.
    have parts := List.take_append_drop limit sorted
    have falling := arranged.falling
    have placed := arranged.perm.mem_iff.mpr member
    rw [← parts] at falling placed
    obtain ⟨-, -, across⟩ := List.pairwise_append.mp falling
    obtain early | late := List.mem_append.mp placed
    · exact absurd early absent
    · exact across chosen taken item late

/-! Arrangements of a total preorder. -/

theorem merge_sort_arranged (before : Item → Item → Bool)
    (spec : ∀ first second, before first second = true ↔ above first second)
    (trans : ∀ first second third, above first second → above second third → above first third)
    (total : ∀ first second, above first second ∨ above second first) (items : List Item) :
    Arranged above items (items.mergeSort before) where
  perm := List.mergeSort_perm items before
  falling := by
    have sorted : (items.mergeSort before).Pairwise fun first second => before first second := by
      apply List.pairwise_mergeSort
      · intro first second third
        simp only [spec]
        exact trans first second third
      · intro first second
        rw [Bool.or_eq_true, spec, spec]
        exact total first second
    exact sorted.imp fun ordered => (spec _ _).mp ordered

def superior (before : Item → Item → Bool) (item : Item) (items : List Item) : List Item :=
  items.filter fun other => !before item other

theorem placed_few (before : Item → Item → Bool)
    (spec : ∀ first second, before first second = true ↔ above first second)
    (refl : ∀ item, above item item) (items sorted : List Item)
    (arranged : Arranged above items sorted) (limit : Nat) (item : Item)
    (placed : item ∈ sorted.take limit) : (superior before item items).length < limit := by
  obtain ⟨index, bound, rfl⟩ := List.mem_iff_getElem.mp placed
  rw [List.length_take, Nat.lt_min] at bound
  rw [List.getElem_take]
  -- Nothing from the item's place on is superior to it.
  have behind : superior before sorted[index] (sorted.drop index) = [] := by
    rw [superior, List.filter_eq_nil_iff]
    intro other member
    have falling := arranged.falling.sublist (List.drop_sublist index sorted)
    rw [List.drop_eq_getElem_cons bound.2] at member falling
    have high : above sorted[index] other := by
      obtain rfl | later := List.mem_cons.mp member
      · exact refl _
      · exact (List.pairwise_cons.mp falling).1 other later
    simp [(spec _ _).mpr high]
  have whole : (superior before sorted[index] items).length =
      (superior before sorted[index] sorted).length :=
    (arranged.perm.filter _).length_eq.symm
  have parts : superior before sorted[index] sorted =
      superior before sorted[index] (sorted.take index) ++
        superior before sorted[index] (sorted.drop index) := by
    rw [superior, superior, superior, ← List.filter_append, List.take_append_drop]
  rw [whole, parts, behind, List.append_nil]
  have few := List.length_filter_le (fun other => !before sorted[index] other) (sorted.take index)
  rw [List.length_take] at few
  exact Nat.lt_of_le_of_lt (few.trans (Nat.min_le_left _ _)) bound.1

theorem stacked (upper lower high low : List Item) (first : Arranged above upper high)
    (second : Arranged above lower low) (across : ∀ item ∈ upper, ∀ other ∈ lower, above item other) :
    Arranged above (upper ++ lower) (high ++ low) where
  perm := first.perm.append second.perm
  falling := by
    refine List.pairwise_append.mpr ⟨first.falling, second.falling, fun item placed other after => ?_⟩
    exact across item (first.perm.mem_iff.mp placed) other (second.perm.mem_iff.mp after)

theorem topped (item : Item) (lower low : List Item) (arranged : Arranged above lower low)
    (highest : ∀ other ∈ lower, above item other) :
    Arranged above (item :: lower) (item :: low) :=
  stacked above [item] lower [item] low ⟨.refl _, List.pairwise_singleton _ _⟩ arranged
    fun _ only => List.mem_singleton.mp only ▸ highest

theorem few_placed (before : Item → Item → Bool)
    (spec : ∀ first second, before first second = true ↔ above first second)
    (trans : ∀ first second third, above first second → above second third → above first third)
    (total : ∀ first second, above first second ∨ above second first) (items : List Item)
    (limit : Nat) (item : Item) (member : item ∈ items)
    (few : (superior before item items).length < limit) :
    ∃ sorted, Arranged above items sorted ∧ item ∈ sorted.take limit := by
  let others := items.filter fun other => before item other
  have own : item ∈ others :=
    List.mem_filter.mpr ⟨member, (spec item item).mpr ((total item item).elim id id)⟩
  obtain ⟨front, back, split⟩ := List.append_of_mem own
  have all : others.Perm (item :: (front ++ back)) := by
    rw [split]
    exact List.perm_middle
  have below : ∀ other ∈ item :: (front ++ back), above item other := fun other placed =>
    (spec _ _).mp (List.mem_filter.mp (all.mem_iff.mpr placed)).2
  have high : ∀ other ∈ superior before item items, above other item := by
    intro other placed
    have apart := (List.mem_filter.mp placed).2
    refine (total item other).resolve_left fun ordered => ?_
    rw [(spec _ _).mpr ordered] at apart
    contradiction
  have sort := merge_sort_arranged above before spec trans total
  have early := sort (superior before item items)
  have late := topped above item _ _ (sort (front ++ back))
    fun other placed => below other (List.mem_cons_of_mem item placed)
  have whole := stacked above _ _ _ _ early late
    fun first placed second after => trans _ _ _ (high first placed) (below second after)
  have halves : (superior before item items ++ item :: (front ++ back)).Perm items :=
    ((List.Perm.refl _).append all.symm).trans (List.perm_append_comm.trans
      (List.filter_append_perm (fun other => before item other) items))
  refine ⟨_, ⟨whole.perm.trans halves, whole.falling⟩, ?_⟩
  obtain ⟨room, positive⟩ : ∃ room, limit - ((superior before item items).mergeSort before).length =
      room + 1 := by
    rw [early.perm.length_eq]
    exact ⟨limit - (superior before item items).length - 1, by omega⟩
  rw [List.take_append, positive, List.take_succ_cons]
  exact List.mem_append_right _ List.mem_cons_self

theorem subperm_distinct (key : Item → Key) (items best : List Item)
    (chosen : List.Subperm best items) (distinct : (items.map key).Nodup) :
    (best.map key).Nodup := by
  obtain ⟨picked, perm, sublist⟩ := chosen
  exact (perm.map key).nodup_iff.mp (distinct.sublist (sublist.map key))

theorem keys_card (key : Item → Key) (items : List Item) (distinct : (items.map key).Nodup) :
    Set.ncard {value | value ∈ items.map key} = items.length := by
  classical
  have finite : {value | value ∈ items.map key} = ((items.map key).toFinset : Set Key) := by
    ext value
    simp
  rw [finite, Set.ncard_coe_finset, List.toFinset_card_of_nodup distinct, List.length_map]

end Ranking
