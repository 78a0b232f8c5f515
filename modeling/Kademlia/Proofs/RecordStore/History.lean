import Kademlia.Proofs.Ledger.Handles
import Kademlia.RecordStore

/-!
# Kademlia.Proofs.RecordStore.History

What a record store remembers is a function of what was stored in it. A history is a list of
deposits, most recent first; of each publisher only the latest counts (`Deposit.latest`), and the
store keeps the hundred latest that have not expired (`RecordStore.remembered`).

The store itself is lazier and more forgetful than that: expired records stay until they are swept,
and what falls off the end of a full list is gone for good. `Leaves` says how far the two may
differ. The records of a key are a front part of the latest deposits, and what is missing behind it
has expired, unless the front part is full. A deposit can make a full list shorter by no more than
the one record that it replaces, so nothing that fell off is ever missed.
-/

namespace Kademlia

/-- A publisher was stored under a key. -/
structure Deposit where
  key : Id
  publisher : Contact
  storedAt : Time
deriving DecidableEq

namespace Deposit

/-- The record of a deposit. -/
def record (expire : Duration) (deposit : Deposit) : Record :=
  ⟨deposit.publisher, deposit.storedAt, deposit.storedAt + expire⟩

/-- Does the record of a deposit count at an instant? -/
def isLive (expire : Duration) (now : Time) (deposit : Deposit) : Bool :=
  now < deposit.storedAt + expire

/-- The latest deposit of each publisher. Deposits are given most recent first. -/
def latest : List Deposit → List Deposit
  | [] => []
  | deposit :: earlier =>
    deposit :: (latest earlier).filter (·.publisher.id ≠ deposit.publisher.id)

/-- Deposits in the order of their times, most recent first. -/
def Ordered (deposits : List Deposit) : Prop :=
  deposits.Pairwise fun later earlier => earlier.storedAt ≤ later.storedAt

variable {deposits : List Deposit} {expire : Duration} {now : Time}

theorem latest_sublist (deposits : List Deposit) : (latest deposits).Sublist deposits := by
  induction deposits with
  | nil => exact .slnil
  | cons deposit earlier ih => exact (List.filter_sublist.trans ih).cons_cons deposit

/-- No publisher has two latest deposits. -/
theorem nodup_latest (deposits : List Deposit) :
    ((latest deposits).map (·.publisher.id)).Nodup := by
  induction deposits with
  | nil => exact List.nodup_nil
  | cons deposit earlier ih =>
    rw [latest, List.map_cons]
    refine List.nodup_cons.mpr ⟨fun hmem => ?_, ih.sublist (List.filter_sublist.map _)⟩
    obtain ⟨other, hother, heq⟩ := List.mem_map.mp hmem
    exact absurd heq (by simpa using List.of_mem_filter hother)

/-- What was stored earlier expires earlier. -/
theorem isLive_of_le {deposit other : Deposit} (hle : other.storedAt ≤ deposit.storedAt)
    (h : deposit.isLive expire now = false) : other.isLive expire now = false := by
  simp only [isLive, decide_eq_false_iff_not] at h ⊢
  exact fun hlive => h (Nat.lt_of_lt_of_le hlive (Nat.add_le_add_right hle expire))

/-- What has expired stays so. -/
theorem isLive_mono {deposit : Deposit} {later : Time} (hle : now ≤ later)
    (h : deposit.isLive expire now = false) : deposit.isLive expire later = false := by
  simp only [isLive, decide_eq_false_iff_not] at h ⊢
  exact fun hlive => h (Nat.lt_of_le_of_lt hle hlive)

/-- Deposits in order are live up to some point and expired from there on. -/
theorem Ordered.exists_append (h : Ordered deposits) (expire : Duration) (now : Time) :
    ∃ live expired, deposits = live ++ expired ∧
      (∀ deposit ∈ live, deposit.isLive expire now = true) ∧
      ∀ deposit ∈ expired, deposit.isLive expire now = false := by
  induction deposits with
  | nil => exact ⟨[], [], rfl, by simp, by simp⟩
  | cons deposit earlier ih =>
    obtain ⟨hdeposit, hearlier⟩ := List.pairwise_cons.mp h
    by_cases hlive : deposit.isLive expire now = true
    · obtain ⟨live, expired, rfl, hlives, hexpired⟩ := ih hearlier
      refine ⟨deposit :: live, expired, rfl, ?_, hexpired⟩
      exact List.forall_mem_cons.mpr ⟨hlive, hlives⟩
    · refine ⟨[], deposit :: earlier, rfl, by simp, ?_⟩
      have hexpired : deposit.isLive expire now = false := by simpa using hlive
      refine List.forall_mem_cons.mpr ⟨hexpired, fun other hother => ?_⟩
      exact isLive_of_le (hdeposit other hother) hexpired

/-- Leaving out one publisher makes a list of latest deposits shorter by one at most. -/
theorem length_le_filter (hnodup : (deposits.map (·.publisher.id)).Nodup) (id : Id) :
    deposits.length ≤ (deposits.filter (·.publisher.id ≠ id)).length + 1 := by
  by_cases hmem : id ∈ deposits.map (·.publisher.id)
  · obtain ⟨deposit, hdeposit, rfl⟩ := List.mem_map.mp hmem
    exact Nat.le_of_eq (perm_cons_filter hnodup hdeposit).length_eq
  · have hall : deposits.filter (·.publisher.id ≠ id) = deposits := by
      refine List.filter_eq_self.mpr fun deposit hdeposit => decide_eq_true fun heq => ?_
      exact hmem (heq ▸ List.mem_map_of_mem hdeposit)
    rw [hall]
    exact Nat.le_succ _

/-! ### The records of a key -/

/-- The records that are left of latest deposits at an instant: those of a front part. What is
missing has expired, unless the front part is as long as can be. -/
def Leaves (expire : Duration) (now : Time) (deposits : List Deposit) (records : List Record) :
    Prop :=
  ∃ kept gone, deposits = kept ++ gone ∧ records = kept.map (record expire) ∧
    kept.length ≤ RecordStore.maxPublishers ∧
    (kept.length = RecordStore.maxPublishers ∨
      ∀ deposit ∈ gone, deposit.isLive expire now = false)

variable {records : List Record}

/-- What is missing stays expired. -/
theorem Leaves.mono (h : Leaves expire now deposits records) {later : Time} (hle : now ≤ later) :
    Leaves expire later deposits records := by
  obtain ⟨kept, gone, hdeposits, hrecords, hlength, hgone⟩ := h
  refine ⟨kept, gone, hdeposits, hrecords, hlength, hgone.imp_right fun hgone => ?_⟩
  exact fun deposit hdeposit => isLive_mono hle (hgone deposit hdeposit)

/-- The live records, of which there are the same whether expired ones were dropped or not. -/
theorem filter_map_record (expire : Duration) (now : Time) (deposits : List Deposit) :
    (deposits.map (record expire)).filter (now < ·.expiresAt) =
      (deposits.filter (isLive expire now)).map (record expire) := by
  rw [List.filter_map]
  rfl

theorem Leaves.sweep (h : Leaves expire now deposits records) (hordered : Ordered deposits) :
    Leaves expire now deposits (records.filter (now < ·.expiresAt)) := by
  obtain ⟨kept, gone, rfl, rfl, hlength, hgone⟩ := h
  obtain ⟨hkept, -, hcross⟩ := List.pairwise_append.mp hordered
  obtain ⟨live, expired, rfl, hlive, hexpired⟩ := Ordered.exists_append hkept expire now
  have hfilter : (live ++ expired).filter (isLive expire now) = live := by
    rw [List.filter_append, List.filter_eq_self.mpr hlive,
      List.filter_eq_nil_iff.mpr fun deposit hdeposit => by simp [hexpired deposit hdeposit],
      List.append_nil]
  rw [filter_map_record, hfilter]
  rw [List.length_append] at hlength hgone
  refine ⟨live, expired ++ gone, List.append_assoc .., rfl, by omega, ?_⟩
  cases expired with
  | nil => simpa using hgone
  | cons first expired =>
    -- Something has expired here, so all that is missing behind it has.
    refine .inr fun deposit hdeposit => ?_
    rcases List.mem_append.mp hdeposit with hdeposit | hdeposit
    · exact hexpired deposit hdeposit
    · have hle := hcross first (List.mem_append_right _ List.mem_cons_self) deposit hdeposit
      exact isLive_of_le hle (hexpired first List.mem_cons_self)

theorem Leaves.store (h : Leaves expire now deposits records)
    (hnodup : (deposits.map (·.publisher.id)).Nodup) (deposit : Deposit) :
    Leaves expire now (deposit :: deposits.filter (·.publisher.id ≠ deposit.publisher.id))
      ((deposit.record expire :: records.filter (·.publisher.id ≠ deposit.publisher.id)).take
        RecordStore.maxPublishers) := by
  obtain ⟨kept, gone, rfl, rfl, hlength, hgone⟩ := h
  rw [List.map_append] at hnodup
  have hshorter := length_le_filter hnodup.of_append_left deposit.publisher.id
  refine ⟨(deposit :: kept.filter (·.publisher.id ≠ deposit.publisher.id)).take
      RecordStore.maxPublishers,
    (deposit :: kept.filter (·.publisher.id ≠ deposit.publisher.id)).drop
      RecordStore.maxPublishers ++ gone.filter (·.publisher.id ≠ deposit.publisher.id),
    ?_, ?_, List.length_take_le .., ?_⟩
  · rw [← List.append_assoc, List.take_append_drop, List.filter_append, List.cons_append]
  · rw [List.filter_map, List.map_take]
    rfl
  · rw [List.length_take, List.length_cons]
    rcases Nat.lt_or_ge ((kept.filter (·.publisher.id ≠ deposit.publisher.id)).length + 1)
      RecordStore.maxPublishers with hroom | hfull
    · -- There is room, so there was room before, and what is missing has expired.
      refine .inr fun other hother => ?_
      rw [List.drop_eq_nil_of_le (by rw [List.length_cons]; omega), List.nil_append] at hother
      refine hgone.elim (fun hfull => ?_) fun hgone => hgone other (List.mem_of_mem_filter hother)
      omega
    · exact .inl (Nat.min_eq_left hfull)

/-- The live records are those of the hundred latest deposits that are live. -/
theorem Leaves.filter_eq (h : Leaves expire now deposits records) :
    records.filter (now < ·.expiresAt) =
      ((deposits.take RecordStore.maxPublishers).filter (isLive expire now)).map
        (record expire) := by
  obtain ⟨kept, gone, rfl, rfl, hlength, hgone⟩ := h
  have hmissing : (gone.take (RecordStore.maxPublishers - kept.length)).filter
      (isLive expire now) = [] := by
    refine List.filter_eq_nil_iff.mpr fun deposit hdeposit => ?_
    rcases hgone with hfull | hgone
    · rw [hfull, Nat.sub_self, List.take_zero] at hdeposit
      exact absurd hdeposit List.not_mem_nil
    · simp [hgone deposit (List.mem_of_mem_take hdeposit)]
  rw [filter_map_record, List.take_append, List.take_of_length_le hlength, List.filter_append,
    hmissing, List.append_nil]

end Deposit

/-! ### Stores and histories -/

namespace RecordStore

open Deposit

/-- The publishers of a key that a history leaves at an instant: the hundred stored last, each as it
was stored last, without those whose last store is too long ago. -/
def remembered (expire : Duration) (history : List Deposit) (key : Id) (now : Time) :
    List Contact :=
  (((latest (history.filter (·.key = key))).take maxPublishers).filter (isLive expire now)).map
    Deposit.publisher

/-- A store that has come about by a history. -/
structure Reflects (store : RecordStore) (history : List Deposit) (now : Time) : Prop where
  past : ∀ deposit ∈ history, deposit.storedAt ≤ now
  ordered : Ordered history
  leaves : ∀ key, Leaves store.expire now (latest (history.filter (·.key = key))) (store.of key)

/-- What may be done to a store at an instant, and the deposits that it makes. -/
inductive Follows (now : Time) (store : RecordStore) : List Deposit → RecordStore → Prop where
  | rest : Follows now store [] store
  | sweep : Follows now store [] (store.sweep now)
  | insert (key : Id) (publisher : Contact) :
    Follows now store [⟨key, publisher, now⟩] (store.insert key publisher now)
  | publish (key : Id) (publisher : Contact) :
    Follows now store [⟨key, publisher, now⟩] (store.publish key publisher now)

variable {store next : RecordStore} {history made : List Deposit} {now later : Time}

theorem reflects_new (expire republish : Duration) (now : Time) :
    (new expire republish).Reflects [] now where
  past := List.forall_mem_nil _
  ordered := List.Pairwise.nil
  leaves := fun _ => ⟨[], [], rfl, rfl, Nat.zero_le _, .inr (List.forall_mem_nil _)⟩

theorem Reflects.mono (h : store.Reflects history now) (hle : now ≤ later) :
    store.Reflects history later where
  past := fun deposit hdeposit => Nat.le_trans (h.past deposit hdeposit) hle
  ordered := h.ordered
  leaves := fun key => (h.leaves key).mono hle

theorem Reflects.sweep (h : store.Reflects history now) :
    (store.sweep now).Reflects history now where
  past := h.past
  ordered := h.ordered
  leaves := by
    intro key
    rw [of_sweep]
    exact (h.leaves key).sweep (h.ordered.sublist ((latest_sublist _).trans List.filter_sublist))

theorem Reflects.insert (h : store.Reflects history now) (key : Id) (publisher : Contact) :
    (store.insert key publisher now).Reflects (⟨key, publisher, now⟩ :: history) now where
  past := List.forall_mem_cons.mpr ⟨Nat.le_refl _, h.past⟩
  ordered := List.pairwise_cons.mpr ⟨h.past, h.ordered⟩
  leaves := by
    intro other
    by_cases hkey : key = other
    · subst hkey
      rw [of_insert_self, List.filter_cons_of_pos (by simp)]
      exact (h.leaves key).store (nodup_latest _) ⟨key, publisher, now⟩
    · rw [of_insert_of_ne store (Ne.symm hkey), List.filter_cons_of_neg (by simpa using hkey)]
      exact h.leaves other

theorem Reflects.follows (h : store.Reflects history now) (hfollows : store.Follows now made next) :
    next.Reflects (made ++ history) now := by
  cases hfollows with
  | rest => exact h
  | sweep => exact h.sweep
  | insert key publisher => exact h.insert key publisher
  | publish key publisher =>
    -- Publishing differs from storing in what is to be published again only.
    obtain ⟨hpast, hordered, hleaves⟩ := h.insert key publisher
    exact ⟨hpast, hordered, hleaves⟩

theorem Follows.expire (h : store.Follows now made next) : next.expire = store.expire := by
  cases h <;> rfl

theorem Follows.republish (h : store.Follows now made next) : next.republish = store.republish := by
  cases h <;> rfl

theorem mem_due_iff {key : Id} :
    key ∈ store.due now ↔
      ∃ time, store.published.find? key = some time ∧ store.republish ≤ now - time := by
  simp [due, Keyed.find?_eq_some_iff]

/-- **What a store hands out is what its history has left**, whenever it was swept. -/
theorem Reflects.get_eq (h : store.Reflects history now) (key : Id) :
    store.get key now = remembered store.expire history key now := by
  rw [get, (h.leaves key).filter_eq, List.map_map]
  rfl

theorem Reflects.length_of_le (h : store.Reflects history now) (key : Id) :
    (store.of key).length ≤ maxPublishers := by
  obtain ⟨kept, -, -, hrecords, hlength, -⟩ := h.leaves key
  rw [hrecords, List.length_map]
  exact hlength

/-! ### A single publisher -/

/-- The records of a publisher under a key. -/
def ofPublisher (store : RecordStore) (key publisher : Id) : List Record :=
  (store.of key).filter (·.publisher.id = publisher)

/-- A publisher that was just stored has one record, the new one. -/
theorem ofPublisher_insert (store : RecordStore) (key : Id) (publisher : Contact) (now : Time) :
    (store.insert key publisher now).ofPublisher key publisher.id =
      [⟨publisher, now, now + store.expire⟩] := by
  have hothers : (((store.of key).filter (·.publisher.id ≠ publisher.id)).take 99).filter
      (·.publisher.id = publisher.id) = [] := by
    refine List.filter_eq_nil_iff.mpr fun record hrecord => ?_
    simpa using List.of_mem_filter (List.mem_of_mem_take hrecord)
  rw [ofPublisher, of_insert_self, stored, maxPublishers, List.take_succ_cons,
    List.filter_cons_of_pos (by simp), hothers]

end RecordStore

end Kademlia
