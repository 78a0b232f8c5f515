import Kademlia.Ranking
import Mathlib.Data.List.Dedup
import Mathlib.Data.List.Induction

/-!
# Kademlia.Proofs.Ranking

The order of ids by their distance to a target. Different ids are at different distances, so a
strictly ascending list is determined by the ids in it (`Id.Ascending.eq`), and there is one such
list for any given ids (`Id.closestFirst`). That is the order in which a ranking holds its ids
(`Ranking.ids_ofList`), whatever the order in which they were ranked; only the addresses depend on
it.
-/

namespace Kademlia

/-! ### Ids by distance -/

/-- What is sorted by numbers is in the order of the numbers. -/
theorem pairwise_mergeSort_key {α : Type} (key : α → Nat) (items : List α) :
    (items.mergeSort fun a b => key a ≤ key b).Pairwise fun a b => key a ≤ key b := by
  have h : (items.mergeSort fun a b => key a ≤ key b).Pairwise fun a b =>
      decide (key a ≤ key b) = true := by
    refine List.pairwise_mergeSort (fun a b c hab hbc => ?_) (fun a b => ?_) items
    · simp only [decide_eq_true_eq] at *
      omega
    · simp only [Bool.or_eq_true, decide_eq_true_eq]
      omega
  exact h.imp of_decide_eq_true

namespace Id

variable {target id : Id} {ids others : List Id} {count : Nat}

/-- Ids in strictly ascending distance to a target. -/
def Ascending (target : Id) (ids : List Id) : Prop :=
  ids.Pairwise fun a b => target.distance a < target.distance b

theorem Ascending.nodup (h : Ascending target ids) : ids.Nodup := by
  refine List.Pairwise.imp (fun {a b} hlt => ?_) h
  rintro rfl
  exact Nat.lt_irrefl _ hlt

/-- There is one ascending list of given ids. -/
theorem Ascending.eq (h : Ascending target ids) (hothers : Ascending target others)
    (hmem : ∀ id, id ∈ ids ↔ id ∈ others) : ids = others := by
  have hperm : ids.Perm others := (List.perm_ext_iff_of_nodup h.nodup hothers.nodup).mpr hmem
  refine hperm.eq_of_pairwise (fun a b _ _ hab hba => ?_) h hothers
  exact absurd hba (Nat.lt_asymm hab)

/-- Given ids, each once, in ascending distance to a target. -/
def closestFirst (target : Id) (ids : List Id) : List Id :=
  ids.dedup.mergeSort fun a b => target.distance a ≤ target.distance b

theorem mem_closestFirst : id ∈ closestFirst target ids ↔ id ∈ ids := by
  rw [closestFirst, (List.mergeSort_perm ..).mem_iff, List.mem_dedup]

theorem ascending_closestFirst (target : Id) (ids : List Id) :
    Ascending target (closestFirst target ids) := by
  have hsorted : (closestFirst target ids).Pairwise fun a b =>
      target.distance a ≤ target.distance b := pairwise_mergeSort_key ..
  have hnodup : (closestFirst target ids).Nodup :=
    (List.mergeSort_perm ..).nodup_iff.mpr (List.nodup_dedup ids)
  refine List.Pairwise.imp₂ (fun a b hle hne => ?_) hsorted hnodup
  exact Nat.lt_of_le_of_ne hle fun heq => hne (distance_inj.mp heq)

theorem Ascending.eq_closestFirst (h : Ascending target ids)
    (hmem : ∀ id, id ∈ ids ↔ id ∈ others) : ids = closestFirst target others :=
  h.eq (ascending_closestFirst target others) fun id => (hmem id).trans mem_closestFirst.symm

/-- The order of the given ids does not count, nor how often each is given. -/
theorem closestFirst_congr (target : Id) (hmem : ∀ id, id ∈ ids ↔ id ∈ others) :
    closestFirst target ids = closestFirst target others :=
  (ascending_closestFirst target ids).eq_closestFirst fun id => mem_closestFirst.trans (hmem id)

theorem filter_closestFirst (target : Id) (ids : List Id) (keep : Id → Bool) :
    (closestFirst target ids).filter keep = closestFirst target (ids.filter keep) := by
  refine Ascending.eq_closestFirst ((ascending_closestFirst target ids).filter keep) fun id => ?_
  rw [List.mem_filter, List.mem_filter, mem_closestFirst]

/-- If the first of many ids are among some of them, then the first of those are the same. -/
theorem Ascending.take_subset (h : Ascending target ids) (hothers : Ascending target others)
    (hsubset : ids ⊆ others) (htake : others.take count ⊆ ids) :
    ids.take count ⊆ others.take count := by
  have hfilter : ids = others.filter (· ∈ ids) := by
    refine h.eq (List.Pairwise.filter _ hothers) fun id => ?_
    simp only [List.mem_filter, decide_eq_true_eq]
    exact ⟨fun hid => ⟨hsubset hid, hid⟩, And.right⟩
  have hfront : (others.take count).filter (· ∈ ids) = others.take count :=
    List.filter_eq_self.mpr fun id hid => decide_eq_true (htake hid)
  have hids : ids = others.take count ++ (others.drop count).filter (· ∈ ids) := by
    conv_lhs => rw [hfilter, ← List.take_append_drop count others, List.filter_append, hfront]
  rcases Nat.le_total others.length count with hshort | hlong
  · rw [List.take_of_length_le hshort]
    exact List.Subset.trans (List.take_subset count ids) hsubset
  · have hlength : (others.take count).length = count := List.length_take_of_le hlong
    rw [hids, List.take_left' hlength]
    exact List.Subset.refl _

end Id

/-! ### Rankings -/

namespace Ranking

variable {ranking : Ranking} {target : Id} {contact : Contact} {contacts : List Contact}
  {P : Contact → Prop}

theorem forall_mem_insert (h : ∀ contact ∈ ranking.contacts, P contact) {contact : Contact}
    (hcontact : P contact) : ∀ other ∈ (ranking.insert contact).contacts, P other := by
  intro other hother
  rcases mem_of_mem_place hother with rfl | hother
  · exact hcontact
  · exact h other hother

theorem forall_mem_insertAll (h : ∀ contact ∈ ranking.contacts, P contact)
    {contacts : List Contact} (hcontacts : ∀ contact ∈ contacts, P contact) :
    ∀ other ∈ (ranking.insertAll contacts).contacts, P other := by
  induction contacts generalizing ranking with
  | nil => exact h
  | cons contact contacts ih =>
    obtain ⟨hcontact, hrest⟩ := List.forall_mem_cons.mp hcontacts
    exact ih (forall_mem_insert h hcontact) hrest

/-- A contact whose id is not ranked yet is added. -/
theorem place_perm (h : contact.id ∉ contacts.map Contact.id) :
    (place target contact contacts).Perm (contact :: contacts) := by
  induction contacts with
  | nil => exact List.Perm.refl _
  | cons head rest ih =>
    rw [List.map_cons, List.mem_cons, not_or] at h
    rw [place_cons]
    split
    · exact List.Perm.refl _
    · rw [if_neg h.1]
      exact ((ih h.2).cons head).trans (List.Perm.swap contact head rest)

theorem insertAll_perm (ranking : Ranking)
    (h : (ranking.ids ++ contacts.map Contact.id).Nodup) :
    (ranking.insertAll contacts).contacts.Perm (ranking.contacts ++ contacts) := by
  induction contacts generalizing ranking with
  | nil => rw [List.append_nil]; exact List.Perm.refl _
  | cons contact contacts ih =>
    have hout : contact.id ∉ ranking.contacts.map Contact.id := by
      intro hin
      exact List.disjoint_of_nodup_append h hin List.mem_cons_self
    have hplace : (ranking.insert contact).contacts.Perm (contact :: ranking.contacts) :=
      place_perm hout
    have hmove : ((ranking.insert contact).contacts ++ contacts).Perm
        (ranking.contacts ++ contact :: contacts) :=
      (hplace.append_right contacts).trans List.perm_middle.symm
    refine (ih (ranking.insert contact) ?_).trans hmove
    have hids := hmove.map Contact.id
    rw [List.map_append, List.map_append] at hids
    exact hids.nodup_iff.mpr h

/-- A contact whose id is ranked is not added. -/
theorem place_of_mem (h : Sorted target contacts) (hid : contact.id ∈ contacts.map Contact.id) :
    place target contact contacts = contacts := by
  induction contacts with
  | nil => simp at hid
  | cons head rest ih =>
    obtain ⟨hhead, hrest⟩ := List.pairwise_cons.mp h
    rw [place_cons]
    rcases List.mem_cons.mp hid with heq | hid
    · rw [if_neg (heq ▸ Nat.lt_irrefl _), if_pos heq]
    · obtain ⟨other, hother, hsame⟩ := List.mem_map.mp hid
      have hlt := hsame ▸ hhead other hother
      rw [if_neg (Nat.lt_asymm hlt), if_neg (fun heq => Nat.lt_irrefl _ (heq ▸ hlt)), ih hrest hid]

theorem insertAll_append (ranking : Ranking) (contacts others : List Contact) :
    ranking.insertAll (contacts ++ others) = (ranking.insertAll contacts).insertAll others :=
  List.foldl_append

theorem ascending_ids : Id.Ascending target (contacts.map Contact.id) ↔ Sorted target contacts :=
  List.pairwise_map

@[simp] theorem target_ofList (target : Id) (contacts : List Contact) :
    (ofList target contacts).target = target :=
  target_insertAll ..

/-- A ranking holds the ids that were ranked, the closest first. -/
theorem ids_ofList (target : Id) (contacts : List Contact) :
    (ofList target contacts).ids = Id.closestFirst target (contacts.map Contact.id) :=
  Id.Ascending.eq_closestFirst (ascending_ids.mpr (sorted_ofList target contacts)) fun _ =>
    mem_ids_ofList

/-- A ranking holds the contact that an id was ranked with first. -/
theorem find?_of_mem_ofList (h : contact ∈ (ofList target contacts).contacts) :
    contacts.find? (·.id = contact.id) = some contact := by
  induction contacts using List.reverseRecOn with
  | nil => simp [ofList, insertAll, empty] at h
  | append_singleton contacts last ih =>
    have hinsert : (ofList target (contacts ++ [last])).contacts =
        place target last (ofList target contacts).contacts := by
      rw [ofList, insertAll_append, ← ofList]
      show place (ofList target contacts).target _ _ = _
      rw [target_ofList]
    rw [hinsert] at h
    rw [List.find?_append]
    by_cases hid : last.id ∈ (ofList target contacts).ids
    · rw [place_of_mem (sorted_ofList target contacts) hid] at h
      simp [ih h]
    · rcases List.mem_cons.mp ((place_perm hid).subset h) with rfl | h
      · have hnone : contacts.find? (·.id = contact.id) = none := by
          rw [mem_ids_ofList] at hid
          simpa using hid
        simp [hnone]
      · simp [ih h]

end Ranking

end Kademlia
