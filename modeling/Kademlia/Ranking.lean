import Kademlia.Contact

/-!
# Kademlia.Ranking

Contacts in the order of their distance to a target, each id at most once. `Ranking.place` puts a
contact where it belongs; an id that is already there keeps the address it came with first.

`sorted_ofList` says that a ranking is strictly ascending in distance, and `mem_ids_ofList` that it
holds the ids it was given and no others.
-/

namespace Kademlia

/-- Contacts in the order of their distance to a target. -/
structure Ranking where
  target : Id
  /-- The contacts, closest first. -/
  contacts : List Contact
deriving DecidableEq

namespace Ranking

/-- Puts a contact whose distance is known before the first that is further away, unless its id is
there already. -/
def placeAt (target : Id) (distance : Nat) (contact : Contact) : List Contact → List Contact
  | [] => [contact]
  | head :: rest =>
    if distance < target.distance head.id then contact :: head :: rest
    else if contact.id = head.id then head :: rest
    else head :: placeAt target distance contact rest

/-- Puts a contact before the first that is further away, unless its id is there already. -/
def place (target : Id) (contact : Contact) (contacts : List Contact) : List Contact :=
  placeAt target (target.distance contact.id) contact contacts

/-- The ranking without contacts. -/
def empty (target : Id) : Ranking := ⟨target, []⟩

/-- Is the id ranked? -/
def contains (ranking : Ranking) (id : Id) : Bool := ranking.contacts.any (·.id == id)

/-- Ranks a contact, unless its id is ranked already. -/
def insert (ranking : Ranking) (contact : Contact) : Ranking :=
  { ranking with contacts := place ranking.target contact ranking.contacts }

/-- Ranks a contact and tells whether its id is new. -/
def add (ranking : Ranking) (contact : Contact) : Ranking × Bool :=
  (ranking.insert contact, !ranking.contains contact.id)

/-- Ranks contacts one after the other. -/
def insertAll (ranking : Ranking) (contacts : List Contact) : Ranking :=
  contacts.foldl insert ranking

/-- The ranking of a list of contacts. -/
def ofList (target : Id) (contacts : List Contact) : Ranking :=
  (empty target).insertAll contacts

/-- The number of ranked contacts. -/
def size (ranking : Ranking) : Nat := ranking.contacts.length

/-- The closest contact. -/
def best? (ranking : Ranking) : Option Contact := ranking.contacts.head?

/-- The ids of the ranked contacts. -/
def ids (ranking : Ranking) : List Id := ranking.contacts.map Contact.id

/-! ### Order and members -/

@[simp] theorem place_nil (target : Id) (contact : Contact) : place target contact [] = [contact] :=
  rfl

theorem place_cons (target : Id) (contact head : Contact) (rest : List Contact) :
    place target contact (head :: rest) =
      if target.distance contact.id < target.distance head.id then contact :: head :: rest
      else if contact.id = head.id then head :: rest
      else head :: place target contact rest := rfl

/-- Contacts in strictly ascending distance to a target. -/
def Sorted (target : Id) (contacts : List Contact) : Prop :=
  contacts.Pairwise fun a b => target.distance a.id < target.distance b.id

theorem mem_ids_place {target id : Id} {contact : Contact} {contacts : List Contact} :
    id ∈ (place target contact contacts).map Contact.id ↔
      id = contact.id ∨ id ∈ contacts.map Contact.id := by
  induction contacts with
  | nil => simp
  | cons head rest ih =>
    rw [place_cons]
    split
    · simp
    split
    · rename_i heq; simp [heq]
    · rw [List.map_cons, List.map_cons, List.mem_cons, List.mem_cons, ih, or_left_comm]

/-- A contact of the result was there before or is the one that was placed. -/
theorem mem_of_mem_place {target : Id} {contact other : Contact} {contacts : List Contact}
    (h : other ∈ place target contact contacts) : other = contact ∨ other ∈ contacts := by
  induction contacts with
  | nil => simpa using h
  | cons head rest ih =>
    rw [place_cons] at h
    split at h
    · simpa using h
    split at h
    · exact .inr h
    · rcases List.mem_cons.mp h with rfl | h
      · simp
      · rcases ih h with h | h
        · exact .inl h
        · exact .inr (List.mem_cons_of_mem _ h)

theorem sorted_place {target : Id} {contact : Contact} {contacts : List Contact}
    (h : Sorted target contacts) : Sorted target (place target contact contacts) := by
  induction contacts with
  | nil => simp [Sorted]
  | cons head rest ih =>
    obtain ⟨hhead, hrest⟩ := List.pairwise_cons.mp h
    rw [place_cons]
    split
    · rename_i hlt
      refine List.pairwise_cons.mpr ⟨fun other hother => ?_, h⟩
      rcases List.mem_cons.mp hother with rfl | hother
      · exact hlt
      · exact Nat.lt_trans hlt (hhead other hother)
    split
    · exact h
    · rename_i hnlt hne
      refine List.pairwise_cons.mpr ⟨fun other hother => ?_, ih hrest⟩
      rcases mem_of_mem_place hother with rfl | hother
      · have hne' : target.distance other.id ≠ target.distance head.id :=
          fun heq => hne (Id.distance_inj.mp heq)
        omega
      · exact hhead other hother

@[simp] theorem target_insertAll (ranking : Ranking) (contacts : List Contact) :
    (ranking.insertAll contacts).target = ranking.target := by
  induction contacts generalizing ranking with
  | nil => rfl
  | cons contact contacts ih => exact ih (ranking.insert contact)

theorem sorted_insertAll (ranking : Ranking) (contacts : List Contact)
    (h : Sorted ranking.target ranking.contacts) :
    Sorted ranking.target (ranking.insertAll contacts).contacts := by
  induction contacts generalizing ranking with
  | nil => exact h
  | cons contact contacts ih => exact ih (ranking.insert contact) (sorted_place h)

/-- The ranking of a list is strictly ascending in distance. -/
theorem sorted_ofList (target : Id) (contacts : List Contact) :
    Sorted target (ofList target contacts).contacts :=
  sorted_insertAll (empty target) contacts List.Pairwise.nil

theorem mem_ids_insertAll (ranking : Ranking) {contacts : List Contact} {id : Id} :
    id ∈ (ranking.insertAll contacts).ids ↔ id ∈ ranking.ids ∨ id ∈ contacts.map Contact.id := by
  induction contacts generalizing ranking with
  | nil => simp [insertAll]
  | cons contact contacts ih =>
    refine (ih (ranking.insert contact)).trans ?_
    rw [ids, insert, mem_ids_place, List.map_cons, List.mem_cons, ids, or_assoc, or_left_comm]

/-- The ranking of a list holds the ids of the list. -/
theorem mem_ids_ofList {target : Id} {contacts : List Contact} {id : Id} :
    id ∈ (ofList target contacts).ids ↔ id ∈ contacts.map Contact.id := by
  rw [ofList, mem_ids_insertAll]
  simp [ids, empty]

end Ranking

end Kademlia
