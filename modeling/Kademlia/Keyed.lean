import Kademlia.Id.Basic

/-!
# Kademlia.Keyed

Values filed under ids, at most one under each. Filing under an id replaces what was there, and
`Keyed.retain` looks at every value in place: it leaves another one behind, or takes the id out of
the map.

A map hands out its keys in the order of its entries, those filed last first. A hashed map promises
no order at all, so nothing may depend on this one. Nothing does: values are looked up under their
keys, sums and counts range over all entries, and upkeep, which goes through lists of keys, takes
them in any order (`Node.perform`).
-/

namespace Kademlia

/-- Values filed under ids. -/
structure Keyed (α : Type) where
  entries : List (Id × α)
  /-- Nothing is filed twice under one id. -/
  nodup : (entries.map Prod.fst).Nodup
deriving DecidableEq

namespace Keyed

variable {α : Type}

/-- The map without entries. -/
def empty : Keyed α := ⟨[], List.nodup_nil⟩

/-- Is nothing filed at all? -/
def isEmpty (map : Keyed α) : Bool := map.entries.isEmpty

/-- The ids under which something is filed. -/
def keys (map : Keyed α) : List Id := map.entries.map Prod.fst

/-- What is filed, in the order of the keys. -/
def values (map : Keyed α) : List α := map.entries.map Prod.snd

/-- What is filed under a key. -/
def find? (map : Keyed α) (key : Id) : Option α :=
  (map.entries.find? (·.1 = key)).map Prod.snd

/-- Files a value under a key, in place of any other. -/
def put (map : Keyed α) (key : Id) (value : α) : Keyed α where
  entries := (key, value) :: map.entries.filter (·.1 ≠ key)
  nodup := by
    rw [List.map_cons]
    refine List.nodup_cons.mpr ⟨fun hmem => ?_, map.nodup.sublist (List.filter_sublist.map _)⟩
    obtain ⟨entry, hentry, hkey⟩ := List.mem_map.mp hmem
    exact absurd hkey (by simpa using (List.mem_filter.mp hentry).2)

/-- What is left of an entry after its value was looked at. -/
def retained? (keep : α → Option α) (entry : Id × α) : Option (Id × α) :=
  (keep entry.2).map (entry.1, ·)

theorem sublist_keys_filterMap (keep : α → Option α) (entries : List (Id × α)) :
    ((entries.filterMap (retained? keep)).map Prod.fst).Sublist (entries.map Prod.fst) := by
  induction entries with
  | nil => exact .slnil
  | cons entry rest ih =>
    cases hkeep : keep entry.2 with
    | none => simpa [List.filterMap_cons, retained?, hkeep] using ih.cons entry.1
    | some value => simpa [List.filterMap_cons, retained?, hkeep] using ih

/-- Looks at every value, and keeps what is left of it; a key of which nothing is left goes. -/
def retain (map : Keyed α) (keep : α → Option α) : Keyed α where
  entries := map.entries.filterMap (retained? keep)
  nodup := map.nodup.sublist (sublist_keys_filterMap keep map.entries)

/-! ### What is found -/

variable {map : Keyed α} {key other : Id} {value : α}

theorem find?_eq_some_iff : map.find? key = some value ↔ (key, value) ∈ map.entries := by
  obtain ⟨entries, hnodup⟩ := map
  show (entries.find? (·.1 = key)).map Prod.snd = some value ↔ (key, value) ∈ entries
  induction entries with
  | nil => simp
  | cons entry rest ih =>
    obtain ⟨hfirst, hrest⟩ := List.nodup_cons.mp hnodup
    by_cases hkey : entry.1 = key
    · -- The key is not to be found behind this entry.
      have hgone : (key, value) ∉ rest := fun hmem => hfirst (hkey ▸ List.mem_map_of_mem hmem)
      simp [hkey, hgone, Prod.ext_iff, eq_comm]
    · have hne : (key, value) ≠ entry := fun heq => hkey (heq ▸ rfl)
      simpa [List.find?_cons, hkey, hne] using ih hrest

@[simp] theorem find?_empty (key : Id) : (empty : Keyed α).find? key = none := rfl

@[simp] theorem find?_put_self (map : Keyed α) (key : Id) (value : α) :
    (map.put key value).find? key = some value :=
  find?_eq_some_iff.mpr List.mem_cons_self

theorem find?_put_of_ne (map : Keyed α) (h : other ≠ key) (value : α) :
    (map.put key value).find? other = map.find? other := by
  refine Option.ext fun found => ?_
  simp [find?_eq_some_iff, put, h]

/-- Every value is looked at by itself. -/
theorem find?_retain (map : Keyed α) (keep : α → Option α) (key : Id) :
    (map.retain keep).find? key = (map.find? key).bind keep := by
  refine Option.ext fun found => ?_
  simp only [find?_eq_some_iff, Option.bind_eq_some_iff, retain, retained?, List.mem_filterMap,
    Option.map_eq_some_iff, Prod.mk.injEq]
  constructor
  · rintro ⟨⟨_, value⟩, hentry, left, hleft, rfl, rfl⟩
    exact ⟨value, hentry, hleft⟩
  · rintro ⟨value, hentry, hleft⟩
    exact ⟨(key, value), hentry, found, hleft, rfl, rfl⟩

theorem values_retain (map : Keyed α) (keep : α → Option α) :
    (map.retain keep).values = map.values.filterMap keep := by
  have hleft : ∀ entry : Id × α, (retained? keep entry).map Prod.snd = keep entry.2 := by
    intro entry
    cases hkeep : keep entry.2 <;> simp [retained?, hkeep]
  rw [values, retain, values, List.map_filterMap, List.filterMap_map, funext hleft]
  rfl

theorem mem_keys_iff : key ∈ map.keys ↔ (map.find? key).isSome = true := by
  rw [Option.isSome_iff_exists, keys, List.mem_map]
  simp [find?_eq_some_iff]

theorem keys_eq_nil_iff : map.keys = [] ↔ map.isEmpty = true := by
  rw [keys, List.map_eq_nil_iff, isEmpty, List.isEmpty_iff]

/-- The keys lead to the values. -/
theorem map_find?_keys (map : Keyed α) : map.keys.map map.find? = map.values.map some := by
  rw [keys, values, List.map_map, List.map_map]
  exact List.map_congr_left fun entry hentry => find?_eq_some_iff.mpr hentry

end Keyed

end Kademlia
