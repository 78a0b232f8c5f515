import Kademlia.Proofs.Bucket

/-!
# Kademlia.Proofs.Share

The share of a bucket that some of its ids make up, `Bucket.restrict`, and what a step of the bucket
does to its shares.

* `Bucket.Alike` compares buckets by all but when they were used: a share and the bucket that it is
  compared with may have been used at different times, and no step depends on it (`Unclocked`).
* `Bucket.LocalAt` says of a step for an id that it is a step of the share that keeps the id, and
  leaves every other share alone. Steps that involve replacements or a ping are not of this kind: a
  place that becomes free may go to a replacement of another share.
-/

namespace Kademlia

namespace Bucket

variable {bucket : Bucket} {entry : Entry} {id : Id} {now : Time} {keep : Id → Bool}

/-! ### Buckets but for their use -/

/-- Two buckets differ at most in when they were used. -/
structure Alike (a b : Bucket) : Prop where
  nodes : a.nodes = b.nodes
  replacements : a.replacements = b.replacements
  pinging : a.pinging = b.pinging

namespace Alike

variable {a b c : Bucket}

theorem refl (a : Bucket) : a.Alike a := ⟨rfl, rfl, rfl⟩

theorem symm (h : a.Alike b) : b.Alike a := ⟨h.nodes.symm, h.replacements.symm, h.pinging.symm⟩

theorem trans (h : a.Alike b) (h' : b.Alike c) : a.Alike c :=
  ⟨h.nodes.trans h'.nodes, h.replacements.trans h'.replacements, h.pinging.trans h'.pinging⟩

theorem of_touch (a : Bucket) (now : Time) : a.Alike (a.touch now) := ⟨rfl, rfl, rfl⟩

theorem exists_eq_touch (h : a.Alike b) : ∃ now, b = a.touch now := by
  obtain ⟨hn, hr, hp⟩ := h
  refine ⟨b.touched, ?_⟩
  rw [Bucket.touch, hn, hr, hp]

theorem restrict (h : a.Alike b) (keep : Id → Bool) :
    (a.restrict keep).Alike (b.restrict keep) := by
  obtain ⟨now, rfl⟩ := h.exists_eq_touch
  exact of_touch (a.restrict keep) now

end Alike

/-- A step that does not depend on when the bucket was used. -/
def Unclocked {α : Type} (change : Bucket → Bucket × α) : Prop :=
  ∀ bucket now, (change bucket).1.Alike (change (bucket.touch now)).1 ∧
    (change bucket).2 = (change (bucket.touch now)).2

variable {α : Type} {answer : α}

theorem unclocked_offer (entry : Entry) : Unclocked (·.offer entry) :=
  fun _ _ => ⟨Alike.refl _, rfl⟩

theorem unclocked_touch (now : Time) : Unclocked fun bucket => (bucket.touch now, answer) :=
  fun _ _ => ⟨Alike.refl _, rfl⟩

theorem unclocked_remove (id : Id) : Unclocked fun bucket => (bucket.remove id, answer) :=
  fun _ _ => ⟨⟨rfl, rfl, rfl⟩, rfl⟩

theorem settlePing_touch (bucket : Bucket) (id : Id) (now : Time) :
    (bucket.touch now).settlePing id = (bucket.settlePing id).touch now := by
  unfold settlePing
  by_cases h : bucket.pinging = some id
  · rw [if_pos h, if_pos (show (bucket.touch now).pinging = some id from h)]
    rfl
  · rw [if_neg h, if_neg (show ¬ (bucket.touch now).pinging = some id from h)]

theorem unclocked_settlePing (id : Id) :
    Unclocked fun bucket => (bucket.settlePing id, answer) := by
  intro bucket now
  dsimp only
  rw [settlePing_touch]
  exact ⟨Alike.of_touch _ now, rfl⟩

theorem promote_touch (bucket : Bucket) (now : Time) :
    (bucket.touch now).promote = (bucket.promote.1.touch now, bucket.promote.2) := by
  unfold promote
  rw [show (bucket.touch now).replacements = bucket.replacements from rfl]
  split <;> rfl

theorem unclocked_evict (id : Id) : Unclocked (·.evict id) := by
  intro bucket now
  dsimp only
  by_cases hin : id ∈ bucket.nodeIds
  · have hmove : ((bucket.touch now).settlePing id).remove id =
        ((bucket.settlePing id).remove id).touch now := by
      rw [settlePing_touch]
      rfl
    have hin' : id ∈ (bucket.touch now).nodeIds := hin
    rw [evict_of_mem hin, evict_of_mem hin', hmove, promote_touch]
    exact ⟨Alike.of_touch _ now, rfl⟩
  · have hout' : id ∉ (bucket.touch now).nodeIds := hin
    rw [evict_of_not_mem hin, evict_of_not_mem hout', settlePing_touch]
    exact ⟨Alike.of_touch _ now, rfl⟩

/-! ### Shares -/

theorem nodes_restrict (bucket : Bucket) (keep : Id → Bool) :
    (bucket.restrict keep).nodes = bucket.nodes.filter fun entry => keep entry.id := rfl

theorem mem_nodeIds_restrict (h : keep id = true) :
    id ∈ (bucket.restrict keep).nodeIds ↔ id ∈ bucket.nodeIds := by
  rw [nodeIds_restrict, List.mem_filter]
  exact and_iff_left h

/-- A bucket is its own share if the share keeps all ids that the bucket mentions. -/
theorem restrict_eq_self (h : ∀ id, bucket.Mentions id → keep id = true) :
    bucket.restrict keep = bucket := by
  obtain ⟨nodes, replacements, pinging, used⟩ := bucket
  have hn : nodes.filter (fun entry => keep entry.id) = nodes :=
    List.filter_eq_self.mpr fun entry hentry => h _ (.inl (List.mem_map_of_mem hentry))
  have hr : replacements.filter (fun entry => keep entry.id) = replacements :=
    List.filter_eq_self.mpr fun entry hentry => h _ (.inr (.inl (List.mem_map_of_mem hentry)))
  have hp : pinging.filter keep = pinging := by
    cases pinging with
    | none => rfl
    | some id => rw [Option.filter_some, if_pos (h id (.inr (.inr rfl)))]
  rw [restrict, part, hn, hr, hp]

theorem restrict_restrict (bucket : Bucket) (first second : Id → Bool) :
    (bucket.restrict first).restrict second = bucket.restrict fun id => second id && first id := by
  simp only [restrict, part, List.filter_filter, Option.filter_filter]
  congr 2
  funext id
  exact Bool.and_comm ..

/-- A share is taken before or after an id is dropped. -/
theorem filter_dropId (entries : List Entry) (keep : Id → Bool) (id : Id) :
    (dropId id entries).filter (fun entry => keep entry.id) =
      dropId id (entries.filter fun entry => keep entry.id) := by
  rw [dropId, dropId, List.filter_filter, List.filter_filter]
  exact List.filter_congr fun entry _ => Bool.and_comm ..

/-- A share that does not keep an id does not notice that it is dropped. -/
theorem filter_dropId_of_false (entries : List Entry) (h : keep id = false) :
    (dropId id entries).filter (fun entry => keep entry.id) =
      entries.filter fun entry => keep entry.id := by
  rw [filter_dropId]
  refine dropId_eq_self fun hmem => ?_
  obtain ⟨entry, hentry, rfl⟩ := List.mem_map.mp hmem
  rw [(List.mem_filter.mp hentry).2] at h
  exact absurd h (by decide)

/-! ### Steps of a share -/

/-- A step for an id does to the share that keeps the id what it does to the bucket, and to other
shares nothing. -/
structure LocalAt (change : Bucket → Bucket × α) (id : Id) (bucket : Bucket) : Prop where
  kept : ∀ keep : Id → Bool, keep id = true →
    ((change bucket).1.restrict keep).Alike (change (bucket.restrict keep)).1 ∧
      (change bucket).2 = (change (bucket.restrict keep)).2
  left : ∀ keep : Id → Bool, keep id = false →
    ((change bucket).1.restrict keep).Alike (bucket.restrict keep)

/-- Idle buckets are compared by their contacts. -/
theorem Alike.of_idle {a b : Bucket} (ha : a.Idle) (hb : b.Idle) (h : a.nodes = b.nodes) :
    a.Alike b :=
  ⟨h, ha.1.trans hb.1.symm, ha.2.trans hb.2.symm⟩

theorem localAt_touch (now : Time) (id : Id) (bucket : Bucket) :
    LocalAt (fun bucket => (bucket.touch now, answer)) id bucket :=
  ⟨fun _ _ => ⟨Alike.refl _, rfl⟩, fun _ _ => ⟨rfl, rfl, rfl⟩⟩

theorem localAt_remove (id : Id) (bucket : Bucket) :
    LocalAt (fun bucket => (bucket.remove id, answer)) id bucket where
  kept := fun keep _ => ⟨⟨filter_dropId bucket.nodes keep id, rfl, rfl⟩, rfl⟩
  left := fun _ hkeep => ⟨filter_dropId_of_false bucket.nodes hkeep, rfl, rfl⟩

theorem localAt_settlePing (h : bucket.Idle) (id : Id) :
    LocalAt (fun bucket => (bucket.settlePing id, answer)) id bucket where
  kept := fun keep _ => by
    dsimp only
    rw [settlePing_of_idle h, settlePing_of_idle (h.restrict keep)]
    exact ⟨Alike.refl _, rfl⟩
  left := fun keep _ => by
    dsimp only
    rw [settlePing_of_idle h]
    exact Alike.refl _

theorem localAt_evict (h : bucket.Idle) (id : Id) : LocalAt (·.evict id) id bucket := by
  have hremove : LocalAt (fun bucket => (bucket.remove id, ())) id bucket :=
    localAt_remove id bucket
  refine ⟨fun keep hkeep => ?_, fun keep hkeep => ?_⟩
  · rw [evict_of_idle h, evict_of_idle (h.restrict keep)]
    exact ⟨(hremove.kept keep hkeep).1, rfl⟩
  · rw [evict_of_idle h]
    exact hremove.left keep hkeep

/-- In a bucket that has no place left only its own contacts can be offered locally. -/
theorem localAt_offer (h : bucket.Idle)
    (hroom : entry.id ∉ bucket.nodeIds → bucket.nodes.length < capacity) :
    LocalAt (·.offer entry) entry.id bucket := by
  refine ⟨fun keep hkeep => ?_, fun keep hkeep => ?_⟩
  · have hmem : entry.id ∈ (bucket.restrict keep).nodeIds ↔ entry.id ∈ bucket.nodeIds :=
      mem_nodeIds_restrict hkeep
    have hroom' : entry.id ∉ (bucket.restrict keep).nodeIds →
        (bucket.restrict keep).nodes.length < capacity := fun hout =>
      Nat.lt_of_le_of_lt (List.length_filter_le ..) (hroom (mt hmem.mpr hout))
    refine ⟨Alike.of_idle ((h.offer hroom).restrict keep) ((h.restrict keep).offer hroom') ?_, ?_⟩
    · rw [nodes_offer hroom', nodes_restrict, nodes_offer hroom, List.filter_cons, if_pos hkeep,
        filter_dropId]
      rfl
    · by_cases hin : entry.id ∈ bucket.nodeIds
      · rw [offer_of_mem hin, offer_of_mem (hmem.mpr hin)]
      · rw [offer_of_lt hin (hroom hin),
          offer_of_lt (mt hmem.mp hin) (hroom' (mt hmem.mp hin))]
  · have hout : ¬ keep entry.id = true := by simp [hkeep]
    refine Alike.of_idle ((h.offer hroom).restrict keep) (h.restrict keep) ?_
    rw [nodes_restrict, nodes_offer hroom, List.filter_cons, if_neg hout,
      filter_dropId_of_false _ hkeep]
    rfl

end Bucket

end Kademlia
