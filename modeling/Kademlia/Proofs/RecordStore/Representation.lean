import Kademlia.Proofs.RecordStore.History
import Mathlib.Algebra.Ring.Nat
import Mathlib.Data.List.Induction

/-!
# Kademlia.Proofs.RecordStore.Representation

What a record store looks like after any operations at instants that do not decrease
(`RecordStore.wellKept_run`): how many records a key has, whose they are, in which order they stand
and how long they live, what is dropped when records expire or a key has too many publishers, and
which keys are to be published again.

The records of a key are those of latest deposits (`Reflects`), so they inherit the order of the
history: what stands further back was stored earlier and expires earlier. That is why the cap,
which looks at positions only, prefers live records. That no key is filed without records takes
a word on each operation (`Occupied.insert`, `occupied_sweep`). What was published is a matter of
its own, and is read off the operations (`find?_published_run`).
-/

namespace Kademlia

namespace RecordStore

open Deposit

/-! ### Operations -/

/-- What may be done to a store. -/
inductive Operation where
  | insert (key : Id) (publisher : Contact)
  | publish (key : Id) (publisher : Contact)
  | expire
deriving DecidableEq

/-- An operation and the instant at which it is done. -/
abbrev Event := Time × Operation

/-- Does the operation publish the key? -/
def Operation.publishes (key : Id) : Operation → Bool
  | .publish published _ => published = key
  | _ => false

/-- Performs an operation. -/
def perform (store : RecordStore) (now : Time) : Operation → RecordStore
  | .insert key publisher => store.insert key publisher now
  | .publish key publisher => store.publish key publisher now
  | .expire => (store.expireAt now).1

/-- Performs one operation after the other. -/
def run (store : RecordStore) (events : List Event) : RecordStore :=
  events.foldl (fun store event => store.perform event.1 event.2) store

/-- The instants of the operations do not decrease. -/
def InOrder (events : List Event) : Prop := (events.map Prod.fst).Pairwise (· ≤ ·)

instance (events : List Event) : Decidable (InOrder events) :=
  inferInstanceAs (Decidable ((events.map Prod.fst).Pairwise (· ≤ ·)))

/-- The instant at which a key was published last. -/
def lastPublished (events : List Event) (key : Id) : Option Time :=
  (events.reverse.find? fun event => event.2.publishes key).map Prod.fst

variable {store : RecordStore} {history : List Deposit} {events : List Event} {now later : Time}
  {key : Id} {publisher : Contact}

theorem follows_perform (store : RecordStore) (now : Time) (operation : Operation) :
    ∃ made, store.Follows now made (store.perform now operation) := by
  cases operation with
  | insert key publisher => exact ⟨_, .insert key publisher⟩
  | publish key publisher => exact ⟨_, .publish key publisher⟩
  | expire => exact ⟨_, .sweep⟩

/-- What every operation keeps holds after any number of them. -/
theorem run_keeps (Keeps : RecordStore → Prop)
    (hstep : ∀ store now operation, Keeps store → Keeps (store.perform now operation))
    (store : RecordStore) (h : Keeps store) (events : List Event) : Keeps (store.run events) := by
  induction events generalizing store with
  | nil => exact h
  | cons event events ih => exact ih _ (hstep store event.1 event.2 h)

theorem settings_run (store : RecordStore) (events : List Event) :
    (store.run events).expire = store.expire ∧ (store.run events).republish = store.republish := by
  refine run_keeps (fun next => next.expire = store.expire ∧ next.republish = store.republish)
    (fun next now operation h => ?_) store ⟨rfl, rfl⟩ events
  obtain ⟨made, hfollows⟩ := next.follows_perform now operation
  exact ⟨hfollows.expire.trans h.1, hfollows.republish.trans h.2⟩

theorem exists_le_instants (events : List Event) : ∃ later, ∀ event ∈ events, event.1 ≤ later := by
  induction events with
  | nil => exact ⟨0, List.forall_mem_nil _⟩
  | cons event events ih =>
    obtain ⟨later, hlater⟩ := ih
    refine ⟨max event.1 later, List.forall_mem_cons.mpr ⟨Nat.le_max_left .., ?_⟩⟩
    intro other hother
    exact Nat.le_trans (hlater other hother) (Nat.le_max_right ..)

/-- Whatever is done to a store, it reflects some history. -/
theorem Reflects.run (h : store.Reflects history now) (hafter : ∀ event ∈ events, now ≤ event.1)
    (horder : InOrder events) (hnow : now ≤ later) (hlater : ∀ event ∈ events, event.1 ≤ later) :
    ∃ history, (store.run events).Reflects history later := by
  induction events generalizing store history now with
  | nil => exact ⟨history, h.mono hnow⟩
  | cons event events ih =>
    obtain ⟨hfirst, hrest⟩ := List.pairwise_cons.mp horder
    obtain ⟨made, hfollows⟩ := store.follows_perform event.1 event.2
    have hnext := (h.mono (hafter event List.mem_cons_self)).follows hfollows
    refine ih hnext (fun other hother => ?_) hrest (hlater event List.mem_cons_self)
      fun other hother => hlater other (List.mem_cons_of_mem _ hother)
    exact hfirst other.1 (List.mem_map_of_mem hother)

theorem reflects_run (expire republish : Duration) (horder : InOrder events)
    (hlater : ∀ event ∈ events, event.1 ≤ later) :
    ∃ history, ((new expire republish).run events).Reflects history later :=
  (reflects_new expire republish 0).run (fun _ _ => Nat.zero_le _) horder (Nat.zero_le _) hlater

/-! ### The records of a key -/

theorem Reflects.nodup (h : store.Reflects history now) (key : Id) :
    ((store.of key).map (·.publisher.id)).Nodup := by
  obtain ⟨kept, gone, hdeposits, hrecords, -, -⟩ := h.leaves key
  have hnodup := nodup_latest (history.filter (·.key = key))
  rw [hdeposits, List.map_append] at hnodup
  rw [hrecords, List.map_map]
  exact hnodup.of_append_left

theorem Reflects.pairwise (h : store.Reflects history now) (key : Id) :
    (store.of key).Pairwise fun fresher staler => staler.storedAt ≤ fresher.storedAt := by
  obtain ⟨kept, gone, hdeposits, hrecords, -, -⟩ := h.leaves key
  have hlatest := h.ordered.sublist ((latest_sublist _).trans
    (List.filter_sublist (p := (·.key = key)) (l := history)))
  rw [hdeposits] at hlatest
  rw [hrecords, List.pairwise_map]
  exact (List.pairwise_append.mp hlatest).1

theorem Reflects.storedAt_le (h : store.Reflects history now) {record : Record}
    (hrecord : record ∈ store.of key) : record.storedAt ≤ now := by
  obtain ⟨kept, gone, hdeposits, hrecords, -, -⟩ := h.leaves key
  rw [hrecords] at hrecord
  obtain ⟨deposit, hdeposit, rfl⟩ := List.mem_map.mp hrecord
  have hlatest : deposit ∈ latest (history.filter (·.key = key)) :=
    hdeposits ▸ List.mem_append_left gone hdeposit
  exact h.past deposit (List.mem_of_mem_filter ((latest_sublist _).subset hlatest))

theorem Reflects.expiresAt_eq (h : store.Reflects history now) {record : Record}
    (hrecord : record ∈ store.of key) : record.expiresAt = record.storedAt + store.expire := by
  obtain ⟨kept, gone, -, hrecords, -, -⟩ := h.leaves key
  rw [hrecords] at hrecord
  obtain ⟨deposit, -, rfl⟩ := List.mem_map.mp hrecord
  rfl

/-- Whose record is dropped when another publisher is stored has none that outlives one that is
kept: the dropped are the last of the list, and the list is in the order of expiry. -/
theorem Reflects.expiresAt_le_of_dropped (h : store.Reflects history now) {lost kept : Record}
    (hlost : lost ∈ store.of key)
    (hgone : lost.publisher.id ∉
      ((store.insert key publisher now).of key).map (·.publisher.id))
    (hkept : kept ∈ (store.insert key publisher now).of key) :
    lost.expiresAt ≤ kept.expiresAt := by
  rw [of_insert_self, stored] at hgone hkept
  generalize hnew : (⟨publisher, now, now + store.expire⟩ : Record) = new at hgone hkept
  generalize hothers : (store.of key).filter (·.publisher.id ≠ publisher.id) = others
    at hgone hkept
  have hne : lost.publisher.id ≠ publisher.id := by
    intro heq
    refine hgone (heq ▸ List.mem_map.mpr ⟨new, ?_, congrArg (·.publisher.id) hnew.symm⟩)
    rw [maxPublishers, List.take_succ_cons]
    exact List.mem_cons_self
  have hexpires : (new :: others).Pairwise fun a b => b.expiresAt ≤ a.expiresAt := by
    subst hnew hothers
    refine List.pairwise_cons.mpr ⟨fun record hrecord => ?_, ?_⟩
    · have hrecord := List.mem_of_mem_filter hrecord
      rw [h.expiresAt_eq hrecord]
      exact Nat.add_le_add_right (h.storedAt_le hrecord) store.expire
    · refine ((h.pairwise key).imp_of_mem ?_).sublist List.filter_sublist
      intro fresher staler hfresher hstaler hle
      rw [h.expiresAt_eq hfresher, h.expiresAt_eq hstaler]
      exact Nat.add_le_add_right hle store.expire
  have hdropped : lost ∈ (new :: others).drop maxPublishers := by
    have hmem : lost ∈ new :: others :=
      List.mem_cons_of_mem _ (hothers ▸ List.mem_filter.mpr ⟨hlost, by simpa using hne⟩)
    rw [← List.take_append_drop maxPublishers (new :: others)] at hmem
    refine (List.mem_append.mp hmem).resolve_left fun htaken => ?_
    exact hgone (List.mem_map_of_mem htaken)
  rw [← List.take_append_drop maxPublishers (new :: others)] at hexpires
  exact (List.pairwise_append.mp hexpires).2.2 kept hkept lost hdropped

/-! ### The keys that are filed -/

/-- No key is filed without records. -/
def Occupied (store : RecordStore) : Prop :=
  ∀ key records, store.records.find? key = some records → records ≠ []

theorem occupied_new (expire republish : Duration) : (new expire republish).Occupied :=
  fun _ _ h => absurd h (by simp [new])

/-- Whoever is stored is the first of the records of the key. -/
theorem stored_ne_nil (store : RecordStore) (key : Id) (publisher : Contact) (now : Time) :
    store.stored key publisher now ≠ [] := by
  simp [stored, maxPublishers]

theorem Occupied.insert (h : store.Occupied) (key : Id) (publisher : Contact) (now : Time) :
    (store.insert key publisher now).Occupied := by
  intro other records hrecords
  by_cases heq : other = key
  · rw [heq, RecordStore.insert, Keyed.find?_put_self] at hrecords
    exact Option.some.inj hrecords ▸ store.stored_ne_nil key publisher now
  · rw [RecordStore.insert, Keyed.find?_put_of_ne _ heq] at hrecords
    exact h other records hrecords

theorem live?_eq_some {records live : List Record} (h : live? now records = some live) :
    live = records.filter (now < ·.expiresAt) ∧ live ≠ [] := by
  unfold live? at h
  split at h
  · cases h
  · next hlive =>
    obtain rfl := Option.some.inj h
    exact ⟨rfl, hlive⟩

/-- A key that is left after a sweep has records left, or it would have been dropped. -/
theorem occupied_sweep (store : RecordStore) (now : Time) : (store.sweep now).Occupied := by
  intro key records hrecords
  rw [sweep, Keyed.find?_retain] at hrecords
  obtain ⟨before, -, hlive⟩ := Option.bind_eq_some_iff.mp hrecords
  exact (live?_eq_some hlive).2

theorem Occupied.perform (h : store.Occupied) (now : Time) (operation : Operation) :
    (store.perform now operation).Occupied := by
  cases operation with
  | insert key publisher => exact h.insert key publisher now
  | publish key publisher => exact h.insert key publisher now
  | expire => exact store.occupied_sweep now

/-- **No key is ever filed without records**: a key is filed with a record, and a sweep that takes
the last record of a key takes the key too. -/
theorem occupied_run (expire republish : Duration) (events : List Event) :
    ((new expire republish).run events).Occupied :=
  run_keeps Occupied (fun _ now operation h => h.perform now operation) _
    (occupied_new expire republish) events

theorem Occupied.mem_keys_iff (h : store.Occupied) : key ∈ store.keys ↔ store.of key ≠ [] := by
  rw [keys, Keyed.mem_keys_iff, of]
  cases hfind : store.records.find? key with
  | none => simp
  | some records => simpa using h key records hfind

/-- The keys lead to all records. -/
theorem map_of_keys (store : RecordStore) : store.keys.map store.of = store.records.values := by
  have hfound := congrArg (List.map fun records => records.getD []) store.records.map_find?_keys
  rw [List.map_map, List.map_map] at hfound
  exact hfound.trans (List.map_id _)

/-- Whatever is counted of the records of each key. -/
theorem map_keys (store : RecordStore) (count : List Record → Nat) :
    (store.keys.map fun key => count (store.of key)) = store.records.values.map count := by
  rw [← map_of_keys, List.map_map]
  rfl

theorem size_eq_sum (store : RecordStore) :
    store.size = (store.keys.map fun key => (store.of key).length).sum := by
  rw [map_keys, size, List.length_flatten]

theorem Occupied.size_eq_zero_iff (h : store.Occupied) :
    store.size = 0 ↔ store.isEmpty = true := by
  rw [isEmpty, ← Keyed.keys_eq_nil_iff, size_eq_sum]
  refine ⟨fun hsum => List.eq_nil_iff_forall_not_mem.mpr fun key hkey => ?_, fun hnil => ?_⟩
  · -- Each key has a record, and would count.
    have hlength : (store.of key).length = 0 :=
      List.sum_eq_zero_iff_forall_eq_nat.mp hsum _ (List.mem_map_of_mem hkey)
    exact h.mem_keys_iff.mp hkey (List.length_eq_zero_iff.mp hlength)
  · rw [keys, hnil]
    rfl

/-! ### What a sweep drops -/

/-- What is left of several keys' records is what has not expired of all of them. -/
theorem flatten_filterMap_live? (now : Time) (lists : List (List Record)) :
    (lists.filterMap (live? now)).flatten = lists.flatten.filter (now < ·.expiresAt) := by
  induction lists with
  | nil => rfl
  | cons records rest ih =>
    rw [List.flatten_cons, List.filter_append, ← getD_live? now records, ← ih]
    cases hkept : live? now records <;> simp [hkept]

/-- Expired records are counted as they are dropped. -/
theorem snd_expireAt (store : RecordStore) (now : Time) :
    (store.expireAt now).2 =
      (store.keys.map fun key => (store.of key).countP (·.expiresAt ≤ now)).sum := by
  have hsplit : store.size = store.records.values.flatten.countP (·.expiresAt ≤ now) +
      (store.records.values.flatten.filter (now < ·.expiresAt)).length := by
    rw [size, List.length_eq_countP_add_countP (·.expiresAt ≤ now), ← List.countP_eq_length_filter]
    simp
  have hleft : (store.sweep now).size =
      (store.records.values.flatten.filter (now < ·.expiresAt)).length := by
    rw [size, sweep, Keyed.values_retain, flatten_filterMap_live?]
  rw [store.map_keys (List.countP (·.expiresAt ≤ now)), ← List.countP_flatten, expireAt, hsplit,
    hleft]
  exact Nat.add_sub_cancel ..

/-- A sweep leaves the keys that have a record left. -/
theorem mem_keys_expireAt (store : RecordStore) (now : Time) (key : Id) :
    key ∈ (store.expireAt now).1.keys ↔ ∃ record ∈ store.of key, now < record.expiresAt := by
  rw [expireAt, (store.occupied_sweep now).mem_keys_iff, of_sweep, ne_eq,
    List.filter_eq_nil_iff]
  simp

/-! ### What was published -/

theorem run_concat (store : RecordStore) (events : List Event) (event : Event) :
    store.run (events ++ [event]) = (store.run events).perform event.1 event.2 := by
  rw [run, List.foldl_append]
  rfl

theorem lastPublished_concat (events : List Event) (event : Event) (key : Id) :
    lastPublished (events ++ [event]) key =
      if event.2.publishes key then some event.1 else lastPublished events key := by
  rw [lastPublished, List.reverse_append, List.reverse_singleton, List.singleton_append,
    List.find?_cons]
  cases event.2.publishes key <;> rfl

/-- A published key is noted with the instant at which it was published last. -/
theorem find?_published_run (expire republish : Duration) (events : List Event) (key : Id) :
    ((new expire republish).run events).published.find? key = lastPublished events key := by
  induction events using List.reverseRecOn with
  | nil => rfl
  | append_singleton events event ih =>
    rw [run_concat, lastPublished_concat]
    obtain ⟨now, operation⟩ := event
    cases operation with
    | insert other publisher => exact ih
    | expire => exact ih
    | publish other publisher =>
      simp only [perform, publish, Operation.publishes, decide_eq_true_eq]
      by_cases heq : other = key
      · rw [heq, Keyed.find?_put_self, if_pos rfl]
      · rw [Keyed.find?_put_of_ne _ (Ne.symm heq), if_neg heq]
        exact ih

/-- A key that was published is never forgotten. -/
theorem isPublished_perform (store : RecordStore) (now : Time) (operation : Operation)
    (h : store.isPublished key = true) : (store.perform now operation).isPublished key = true := by
  cases operation with
  | insert other publisher => exact h
  | expire => exact h
  | publish other publisher =>
    rw [isPublished, perform, publish]
    by_cases heq : key = other
    · rw [heq, Keyed.find?_put_self]
      rfl
    · rw [Keyed.find?_put_of_ne _ heq]
      exact h

/-! ### The representation -/

/-- A store to which operations have been done. -/
structure WellKept (expire republish : Duration) (events : List Event) (store : RecordStore) :
    Prop where
  /-- A key that is filed has records, and not too many. -/
  bounded : ∀ key ∈ store.keys,
    1 ≤ (store.of key).length ∧ (store.of key).length ≤ maxPublishers
  nodup_keys : store.keys.Nodup
  distinct : ∀ key, ((store.of key).map (·.publisher.id)).Nodup
  freshestFirst : ∀ key,
    (store.of key).Pairwise fun fresher staler => staler.storedAt ≤ fresher.storedAt
  lifetime : ∀ key, ∀ record ∈ store.of key, record.expiresAt = record.storedAt + expire
  size_eq : store.size = (store.keys.map fun key => (store.of key).length).sum
  /-- No records, no keys and being empty are the same. -/
  empty : (store.size = 0 ↔ store.isEmpty = true) ∧ (store.keys = [] ↔ store.isEmpty = true)
  /-- As many records are dropped as have expired. -/
  counted : ∀ now, (store.expireAt now).2 =
    (store.keys.map fun key => (store.of key).countP (·.expiresAt ≤ now)).sum
  /-- Those that have not expired are left, in order, and no others. -/
  swept : ∀ now key, (store.expireAt now).1.of key = (store.of key).filter (now < ·.expiresAt)
  /-- A key goes with the last of its records. -/
  emptied : ∀ now key,
    key ∈ (store.expireAt now).1.keys ↔ ∃ record ∈ store.of key, now < record.expiresAt
  /-- That they were dropped is not noticed by who asks later. -/
  unnoticed : ∀ now later key, now ≤ later →
    (store.expireAt now).1.get key later = store.get key later
  /-- A publisher that is dropped for another to be stored expires before all that are kept. -/
  dropped : ∀ now, (∀ event ∈ events, event.1 ≤ now) → ∀ key publisher,
    ∀ lost ∈ store.of key,
      lost.publisher.id ∉ ((store.insert key publisher now).of key).map (·.publisher.id) →
        ∀ kept ∈ (store.insert key publisher now).of key, lost.expiresAt ≤ kept.expiresAt
  original_iff : ∀ key, store.isPublished key = true ↔ (lastPublished events key).isSome
  /-- A key that was published is never forgotten. -/
  remembered : ∀ now operation key, store.isPublished key = true →
    (store.perform now operation).isPublished key = true
  /-- A key is to be published again when it was last published long enough ago. -/
  due_iff : ∀ now, (∀ event ∈ events, event.1 ≤ now) → ∀ key, key ∈ store.due now ↔
    ∃ instant, lastPublished events key = some instant ∧ instant + republish ≤ now
  nodup_due : ∀ now, (store.due now).Nodup

/-- **The representation of a store** after any operations at instants that do not decrease. -/
theorem wellKept_run (expire republish : Duration) (events : List Event) (h : InOrder events) :
    WellKept expire republish events ((new expire republish).run events) := by
  -- Any instant after the operations will do where none is given.
  obtain ⟨later, hlater⟩ := exists_le_instants events
  obtain ⟨history, hreflects⟩ := reflects_run expire republish h hlater
  obtain ⟨hexpire, hrepublish⟩ := settings_run (new expire republish) events
  have hoccupied := occupied_run expire republish events
  refine
    { bounded := fun key hkey => ⟨?_, hreflects.length_of_le key⟩
      nodup_keys := Keyed.nodup _
      distinct := hreflects.nodup
      freshestFirst := hreflects.pairwise
      lifetime := fun key record hrecord => ?_
      size_eq := size_eq_sum _
      empty := ⟨hoccupied.size_eq_zero_iff, Keyed.keys_eq_nil_iff⟩
      counted := snd_expireAt _
      swept := fun now key => of_sweep _ key now
      emptied := mem_keys_expireAt _
      unnoticed := fun now later key hle => get_sweep _ key hle
      dropped := fun now hnow key publisher lost hlost hgone kept hkept => ?_
      original_iff := fun key => ?_
      remembered := fun now operation key => isPublished_perform _ now operation
      due_iff := fun now hnow key => ?_
      nodup_due := fun now => (Keyed.nodup _).sublist (List.filter_sublist.map _) }
  · exact List.length_pos_iff.mpr (hoccupied.mem_keys_iff.mp hkey)
  · have hexpires := hreflects.expiresAt_eq hrecord
    rwa [hexpire] at hexpires
  · obtain ⟨history, hreflects⟩ := reflects_run expire republish h hnow
    exact hreflects.expiresAt_le_of_dropped hlost hgone hkept
  · rw [isPublished, find?_published_run]
  · rw [mem_due_iff, hrepublish]
    refine exists_congr fun instant => ?_
    rw [find?_published_run]
    refine and_congr_right fun hlast => ?_
    -- It was published by one of the operations, so not later than now.
    obtain ⟨event, hevent, rfl⟩ := Option.map_eq_some_iff.mp hlast
    have hle := hnow event (List.mem_reverse.mp (List.mem_of_find?_eq_some hevent))
    exact Nat.le_sub_iff_add_le' hle

/-- Two publishers of a key, one of them stored again before the other has expired. -/
theorem wellKept_run_of_republished :
    let publisher : Nat → Contact := fun n => ⟨⟨BitVec.ofNat _ n⟩, ⟨⟨10, 0, 0, 2⟩, 3333⟩⟩
    let events : List Event := [(0, .insert ⟨7⟩ (publisher 1)), (0, .publish ⟨7⟩ (publisher 2)),
      (60, .insert ⟨7⟩ (publisher 1)), (120, .expire)]
    InOrder events ∧ WellKept 100 50 events ((new 100 50).run events) :=
  ⟨by decide, wellKept_run 100 50 _ (by decide)⟩

end RecordStore

end Kademlia
