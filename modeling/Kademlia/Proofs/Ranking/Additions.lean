import Kademlia.Proofs.Ranking

/-!
# Kademlia.Proofs.Ranking.Additions

A ranking is a sorted set (`Ranking.sortedSet`): after any additions it holds each id that was added
once, the closest first, with the address that it was added with first, and it has told of each
contact whether its id was new. So it does not matter in which order contacts are added, if no id
comes with two addresses.

`Ranking.add` goes through the contacts from the front. The place that it finds is the one that any
search for the distance has to find (`Ranking.addBy_eq_add`), `Ranking.binarySearch` for one. A
search may answer anything where the contacts are not in order; that they are is what every addition
keeps, so search and order are proved together (`Ranking.addAll_addBy`).
-/

namespace Kademlia

namespace Ranking

variable {ranking : Ranking} {target id : Id} {contact : Contact} {contacts others : List Contact}
  {distance index : Nat}

/-! ### Searching for a distance -/

/-- What a search for a distance answers. -/
inductive Spot where
  /-- The contact at this index is at the distance. -/
  | taken (index : Nat)
  /-- None is, and one that is belongs at this index. -/
  | free (index : Nat)

/-- An answer that is right. -/
inductive Spot.Fits (target : Id) (distance : Nat) (contacts : List Contact) : Spot → Prop
  | taken {index : Nat} {contact : Contact} (hget : contacts[index]? = some contact)
      (hdistance : target.distance contact.id = distance) :
      Fits target distance contacts (.taken index)
  | free {front back : List Contact} (heq : contacts = front ++ back)
      (hfront : ∀ contact ∈ front, target.distance contact.id < distance)
      (hback : ∀ contact ∈ back, distance < target.distance contact.id) :
      Fits target distance contacts (.free front.length)

/-- A search that is right wherever contacts are in order, and may answer anything elsewhere. -/
def Searches (search : Id → Nat → List Contact → Spot) : Prop :=
  ∀ target distance contacts, Sorted target contacts →
    (search target distance contacts).Fits target distance contacts

/-- Looks for a distance from one index up to another, by halves. -/
def searchBetween (target : Id) (distance : Nat) (contacts : List Contact) (low high : Nat) :
    Spot :=
  if low < high then
    let middle := (low + high) / 2
    match contacts[middle]? with
    | none => .free low
    | some contact =>
      match compare (target.distance contact.id) distance with
      | .lt => searchBetween target distance contacts (middle + 1) high
      | .eq => .taken middle
      | .gt => searchBetween target distance contacts low middle
  else .free low
termination_by high - low

/-- Binary search. -/
def binarySearch (target : Id) (distance : Nat) (contacts : List Contact) : Spot :=
  searchBetween target distance contacts 0 contacts.length

/-- The contacts before another are closer, those after it are further away. -/
theorem Sorted.around (h : Sorted target contacts) (hget : contacts[index]? = some contact) :
    (∀ before ∈ contacts.take index, target.distance before.id < target.distance contact.id) ∧
      ∀ after ∈ contacts.drop (index + 1),
        target.distance contact.id < target.distance after.id := by
  obtain ⟨hlt, rfl⟩ := List.getElem?_eq_some_iff.mp hget
  have hsorted := h
  rw [Sorted, ← List.take_append_drop index contacts, List.drop_eq_getElem_cons hlt,
    List.pairwise_append, List.pairwise_cons] at hsorted
  obtain ⟨-, ⟨hafter, -⟩, hbefore⟩ := hsorted
  exact ⟨fun before hmem => hbefore before hmem _ List.mem_cons_self, hafter⟩

/-- The part of the list that is left to search is between contacts that are too close and contacts
that are too far away. -/
theorem fits_searchBetween (h : Sorted target contacts) {low high : Nat} (hle : low ≤ high)
    (hhigh : high ≤ contacts.length)
    (hfront : ∀ contact ∈ contacts.take low, target.distance contact.id < distance)
    (hback : ∀ contact ∈ contacts.drop high, distance < target.distance contact.id) :
    (searchBetween target distance contacts low high).Fits target distance contacts := by
  fun_induction searchBetween target distance contacts low high with
  | case1 low high hlt middle hnone =>
    have hlength := List.getElem?_eq_none_iff.mp hnone
    omega
  | case2 low high hlt middle contact hget hcompare ih =>
    have hcloser := Nat.compare_eq_lt.mp hcompare
    refine ih (by omega) hhigh (fun before hbefore => ?_) hback
    rw [List.take_add_one, hget, Option.toList_some, List.mem_append, List.mem_singleton] at hbefore
    rcases hbefore with hbefore | rfl
    · exact Nat.lt_trans ((h.around hget).1 before hbefore) hcloser
    · exact hcloser
  | case3 low high hlt middle contact hget hcompare =>
    exact .taken hget (Nat.compare_eq_eq.mp hcompare)
  | case4 low high hlt middle contact hget hcompare ih =>
    have hfurther := Nat.compare_eq_gt.mp hcompare
    refine ih (by omega) (by omega) hfront fun after hafter => ?_
    obtain ⟨hlength, heq⟩ := List.getElem?_eq_some_iff.mp hget
    rw [List.drop_eq_getElem_cons hlength, heq, List.mem_cons] at hafter
    rcases hafter with rfl | hafter
    · exact hfurther
    · exact Nat.lt_trans hfurther ((h.around hget).2 after hafter)
  | case5 low high hge =>
    obtain rfl : low = high := by omega
    have hlow := List.length_take_of_le hhigh
    have hfree := Spot.Fits.free (List.take_append_drop low contacts).symm hfront hback
    rwa [hlow] at hfree

/-- Binary search is right. -/
theorem searches_binarySearch : Searches binarySearch := by
  intro target distance contacts h
  refine fits_searchBetween h (Nat.zero_le _) (Nat.le_refl _) ?_ ?_
  · simp
  · simp

/-! ### Adding by a search -/

/-- Ranks a contact where a search finds a place for it. -/
def addBy (search : Id → Nat → List Contact → Spot) (ranking : Ranking) (contact : Contact) :
    Ranking × Bool :=
  match search ranking.target (ranking.target.distance contact.id) ranking.contacts with
  | .taken _ => (ranking, false)
  | .free index =>
    ({ ranking with
        contacts := ranking.contacts.take index ++ contact :: ranking.contacts.drop index }, true)

theorem contains_iff : ranking.contains id = true ↔ id ∈ ranking.ids := by
  simp [contains, ids]

/-- A contact goes behind those that are closer and before those that are further away. -/
theorem place_append {front back : List Contact}
    (hfront : ∀ other ∈ front, target.distance other.id < target.distance contact.id)
    (hback : ∀ other ∈ back, target.distance contact.id < target.distance other.id) :
    place target contact (front ++ back) = front ++ contact :: back := by
  induction front with
  | nil =>
    cases back with
    | nil => rfl
    | cons head rest =>
      rw [List.nil_append, place_cons, if_pos (hback head List.mem_cons_self)]
      rfl
  | cons head rest ih =>
    obtain ⟨hhead, hrest⟩ := List.forall_mem_cons.mp hfront
    have hne : contact.id ≠ head.id := by
      intro heq
      rw [heq] at hhead
      exact Nat.lt_irrefl _ hhead
    rw [List.cons_append, place_cons, if_neg (Nat.lt_asymm hhead), if_neg hne, ih hrest]
    rfl

/-- An id whose distance is between those of the contacts is not ranked. -/
theorem not_mem_ids_of_between {front back : List Contact}
    (hfront : ∀ other ∈ front, target.distance other.id < target.distance id)
    (hback : ∀ other ∈ back, target.distance id < target.distance other.id) :
    id ∉ (front ++ back).map Contact.id := by
  rw [List.mem_map]
  rintro ⟨other, hother, rfl⟩
  rcases List.mem_append.mp hother with hother | hother
  · exact Nat.lt_irrefl _ (hfront other hother)
  · exact Nat.lt_irrefl _ (hback other hother)

/-- Whatever way a search goes about it, there is one place for a contact. -/
theorem addBy_eq_add {search : Id → Nat → List Contact → Spot} (hsearch : Searches search)
    (h : Sorted ranking.target ranking.contacts) (contact : Contact) :
    ranking.addBy search contact = ranking.add contact := by
  have hfits := hsearch _ (ranking.target.distance contact.id) _ h
  rw [addBy]
  generalize search ranking.target (ranking.target.distance contact.id) ranking.contacts = spot
    at hfits
  cases hfits with
  | taken hget hdistance =>
    rename_i index other
    have hid : contact.id ∈ ranking.ids := by
      rw [← Id.distance_inj.mp hdistance]
      exact List.mem_map_of_mem (List.mem_of_getElem? hget)
    have hinsert : ranking.insert contact = ranking := by
      rw [insert, place_of_mem h hid]
    rw [add, hinsert, contains_iff.mpr hid]
    rfl
  | free heq hfront hback =>
    rename_i front back
    have hid : contact.id ∉ ranking.ids := by
      rw [ids, heq]
      exact not_mem_ids_of_between hfront hback
    have hinsert : ranking.insert contact =
        { ranking with contacts := front ++ contact :: back } := by
      rw [insert, heq, place_append hfront hback]
    have hcontains : ranking.contains contact.id = false :=
      Bool.eq_false_iff.mpr (mt contains_iff.mp hid)
    rw [add, hinsert, hcontains]
    simp [heq]

/-! ### Adding one contact after the other -/

/-- Adds contacts one after the other, and collects the answers. -/
def addAll (add : Ranking → Contact → Ranking × Bool) :
    Ranking → List Contact → Ranking × List Bool
  | ranking, [] => (ranking, [])
  | ranking, contact :: contacts =>
    let (ranking, answer) := add ranking contact
    let (ranking, answers) := addAll add ranking contacts
    (ranking, answer :: answers)

theorem fst_addAll (ranking : Ranking) (contacts : List Contact) :
    (ranking.addAll add contacts).1 = ranking.insertAll contacts := by
  induction contacts generalizing ranking with
  | nil => rfl
  | cons contact contacts ih => exact ih (ranking.insert contact)

/-- Each contact is answered for: is its id neither ranked from the start nor added before it? -/
theorem getElem?_snd_addAll (ranking : Ranking) (contacts : List Contact) (index : Nat) :
    (ranking.addAll add contacts).2[index]? = contacts[index]?.map fun contact =>
      decide (contact.id ∉ ranking.ids ∧ contact.id ∉ (contacts.take index).map Contact.id) := by
  induction contacts generalizing ranking index with
  | nil => rfl
  | cons contact contacts ih =>
    cases index with
    | zero =>
      show some (!ranking.contains contact.id) = some _
      rw [Option.some.injEq, Bool.eq_iff_iff, Bool.not_eq_true', Bool.eq_false_iff, Ne,
        contains_iff]
      simp
    | succ index =>
      have hids : ∀ id, id ∈ (ranking.insert contact).ids ↔ id = contact.id ∨ id ∈ ranking.ids :=
        fun id => mem_ids_place
      show (addAll add (ranking.insert contact) contacts).2[index]? = contacts[index]?.map _
      rw [ih]
      congr 1
      funext other
      rw [decide_eq_decide, hids, List.take_succ_cons, List.map_cons, List.mem_cons, not_or, not_or]
      tauto

theorem sorted_empty (target : Id) : Sorted (empty target).target (empty target).contacts :=
  List.Pairwise.nil

/-- With any search that is right in its place, adding comes to the same. -/
theorem addAll_addBy {search : Id → Nat → List Contact → Spot} (hsearch : Searches search)
    (h : Sorted ranking.target ranking.contacts) (contacts : List Contact) :
    ranking.addAll (addBy search) contacts = ranking.addAll add contacts := by
  induction contacts generalizing ranking with
  | nil => rfl
  | cons contact contacts ih =>
    have hsorted : Sorted (ranking.insert contact).target (ranking.insert contact).contacts :=
      sorted_place h
    rw [addAll, addAll, addBy_eq_add hsearch h contact]
    simp only [add, ih hsorted]

/-! ### What is ranked in the end -/

/-- A ranking holds the contacts that its ids were added with first. -/
theorem mem_ofList_iff : contact ∈ (ofList target contacts).contacts ↔
    contacts.find? (·.id = contact.id) = some contact := by
  refine ⟨find?_of_mem_ofList, fun hfind => ?_⟩
  have hid : contact.id ∈ (ofList target contacts).ids :=
    mem_ids_ofList.mpr (List.mem_map_of_mem (List.mem_of_find?_eq_some hfind))
  obtain ⟨other, hother, hsame⟩ := List.mem_map.mp hid
  have hfirst := find?_of_mem_ofList hother
  rw [hsame, hfind] at hfirst
  obtain rfl := Option.some.inj hfirst
  exact hother

theorem Sorted.nodup (h : Sorted target contacts) : contacts.Nodup :=
  (ascending_ids.mpr h).nodup.of_map

/-- Sorted contacts are determined by which they are. -/
theorem Sorted.eq (h : Sorted target contacts) (hothers : Sorted target others)
    (hmem : ∀ contact, contact ∈ contacts ↔ contact ∈ others) : contacts = others := by
  have hperm := (List.perm_ext_iff_of_nodup h.nodup hothers.nodup).mpr hmem
  exact hperm.eq_of_pairwise (fun a b _ _ hab hba => absurd hba (Nat.lt_asymm hab)) h hothers

/-- No id comes with two addresses. -/
def OneAddressEach (contacts : List Contact) : Prop :=
  ∀ first ∈ contacts, ∀ second ∈ contacts, first.id = second.id → first = second

theorem OneAddressEach.mem_ofList_iff (h : OneAddressEach contacts) :
    contact ∈ (ofList target contacts).contacts ↔ contact ∈ contacts := by
  rw [Ranking.mem_ofList_iff]
  constructor
  · exact List.mem_of_find?_eq_some
  · intro hmem
    cases hfind : contacts.find? (·.id = contact.id) with
    | none =>
      have hnone := List.find?_eq_none.mp hfind contact hmem
      simp at hnone
    | some first =>
      have hid := List.find?_some hfind
      rw [decide_eq_true_eq] at hid
      rw [h first (List.mem_of_find?_eq_some hfind) contact hmem hid]

/-- Then neither the order in which contacts are added counts, nor how often. -/
theorem OneAddressEach.ofList_congr (h : OneAddressEach contacts)
    (hmem : ∀ contact, contact ∈ others ↔ contact ∈ contacts) :
    ofList target others = ofList target contacts := by
  have hothers : OneAddressEach others := fun first hfirst second hsecond =>
    h first ((hmem first).mp hfirst) second ((hmem second).mp hsecond)
  have hcontacts : (ofList target others).contacts = (ofList target contacts).contacts := by
    refine (sorted_ofList target others).eq (sorted_ofList target contacts) fun contact => ?_
    rw [hothers.mem_ofList_iff, h.mem_ofList_iff, hmem]
  have htargets : (ofList target others).target = (ofList target contacts).target := by
    rw [target_ofList, target_ofList]
  exact congrArg₂ Ranking.mk htargets hcontacts

/-! ### The result -/

/-- A ranking to which contacts were added, one after the other, and the answers to that. -/
structure SortedSet (target : Id) (added : List Contact) (ranking : Ranking) (answers : List Bool) :
    Prop where
  centre : ranking.target = target
  sorted : Sorted target ranking.contacts
  mem_ids_iff : ∀ id, id ∈ ranking.ids ↔ id ∈ added.map Contact.id
  /-- An id has the address that it was added with first. -/
  mem_iff : ∀ contact,
    contact ∈ ranking.contacts ↔ added.find? (·.id = contact.id) = some contact
  /-- To each contact the answer is whether its id was not added before it. -/
  answered : ∀ index, answers[index]? = added[index]?.map fun contact =>
    decide (contact.id ∉ (added.take index).map Contact.id)
  /-- The order in which contacts are added does not count. -/
  unordered : OneAddressEach added → ∀ others, (∀ contact, contact ∈ others ↔ contact ∈ added) →
    ((empty target).addAll add others).1 = ranking
  /-- Nor does it count how the place of a contact is searched for. -/
  searched : ∀ search, Searches search →
    (empty target).addAll (addBy search) added = (ranking, answers)
  /-- It may be searched for by halves. -/
  halved : (empty target).addAll (addBy binarySearch) added = (ranking, answers)

/-- **A ranking is a sorted set.** -/
theorem sortedSet (target : Id) (contacts : List Contact) :
    SortedSet target contacts ((empty target).addAll add contacts).1
      ((empty target).addAll add contacts).2 where
  centre := by
    rw [fst_addAll, ← ofList, target_ofList]
  sorted := by
    rw [fst_addAll]
    exact sorted_ofList target contacts
  mem_ids_iff := by
    intro id
    rw [fst_addAll]
    exact mem_ids_ofList
  mem_iff := by
    intro contact
    rw [fst_addAll]
    exact mem_ofList_iff
  answered := by
    intro index
    rw [getElem?_snd_addAll]
    simp [ids, empty]
  unordered := by
    intro h others hmem
    rw [fst_addAll, fst_addAll]
    exact h.ofList_congr hmem
  searched := fun search hsearch => addAll_addBy hsearch (sorted_empty target) contacts
  halved := addAll_addBy searches_binarySearch (sorted_empty target) contacts

end Ranking

end Kademlia
