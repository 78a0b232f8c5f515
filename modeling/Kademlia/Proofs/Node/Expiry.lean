import Kademlia.Proofs.Node.Lasting
import Kademlia.Proofs.Node.Replication

/-!
# Kademlia.Proofs.Node.Expiry

How old a record can be that a node passes on. Upkeep begins with a sweep, so a record that it finds
later counted at that instant or was stored since (`Node.Swept`), and this stays so whatever happens
in between. Hence what upkeep passes on counted when it began (`Node.replicated_of_live`).

It need not count any more when it is sent. Upkeep waits for lookups before it comes to a key and
again between reading the records of the key and sending them, and it reads them whether they have
expired or not, so a record can expire on the way and is passed on all the same, to live another
full period elsewhere (`Node.replicates_expired`).
-/

namespace Kademlia

namespace RecordStore

variable {store next : RecordStore} {made : List Deposit} {now : Time} {record : Record} {key : Id}

theorem mem_of_insert {other : Id} {publisher : Contact}
    (h : record ∈ (store.insert other publisher now).of key) :
    record ∈ store.of key ∨ record.storedAt = now := by
  by_cases heq : key = other
  · rw [heq, of_insert_self] at h
    rcases List.mem_cons.mp (List.mem_of_mem_take h) with rfl | hold
    · exact .inr rfl
    · exact .inl (heq ▸ List.mem_of_mem_filter hold)
  · rw [of_insert_of_ne store heq] at h
    exact .inl h

/-- Records are as old as the store says: those that were not there have just been stored. -/
theorem Follows.mem_of (h : store.Follows now made next) (hrecord : record ∈ next.of key) :
    record ∈ store.of key ∨ record.storedAt = now := by
  cases h with
  | rest => exact .inl hrecord
  | sweep =>
    rw [of_sweep] at hrecord
    exact .inl (List.mem_of_mem_filter hrecord)
  | insert other publisher => exact mem_of_insert hrecord
  | publish other publisher =>
    have hinserted : record ∈ (store.insert other publisher now).of key := hrecord
    exact mem_of_insert hinserted

end RecordStore

namespace Node

open Dialogue

variable {since : Time} {node : Node}

/-- The records counted at an instant, or were stored since. -/
def Swept (since : Time) (node : Node) : Prop :=
  ∀ key, ∀ record ∈ node.records.of key, since < record.expiresAt ∨ since ≤ record.storedAt

theorem swept_sweepRecords (node : Node) (now : Time) : (node.sweepRecords now).Swept now := by
  intro key record hrecord
  rw [sweepRecords, RecordStore.of_sweep] at hrecord
  exact .inl (by simpa using List.of_mem_filter hrecord)

theorem lasting_swept (since : Time) : Lasting since (Swept since) := by
  intro now node next hnow hturn hswept key record hrecord
  obtain ⟨made, hfollows⟩ := hturn.follows
  rcases hfollows.mem_of hrecord with hold | hstored
  · exact hswept key record hold
  · exact .inr (hstored ▸ hnow)

/-! ### Upkeep -/

/-- The life of a node in which upkeep has begun: expired records were dropped. -/
def beginUpkeep (course : Course) (upkeep : Upkeep) (resolve : Resolver) : Attended Upkeep :=
  (Attended.start course (maintain upkeep resolve)).perform (.proceed true)

/-- After the sweep upkeep is as good as before it. -/
theorem honours_beginUpkeep (own : Id) (seen : Node → Prop) (course : Course) (upkeep : Upkeep)
    (resolve : Resolver) :
    (beginUpkeep course upkeep resolve).Honours (upkeepContract own seen) fun _ _ => True := by
  have hrest : (Dialogue.step (.draw upkeep) fun decided =>
      (Node.perform resolve decided.2).bind fun _ => .done decided.1).Ensures
        (upkeepContract own seen) fun _ _ => True := by
    refine Ensures.step fun node now _ => ?_
    exact Ensures.bind ((ensures_perform own seen resolve _).mono fun _ _ _ => ensures_pure trivial)
  exact ⟨List.forall_mem_nil _, hrest⟩

/-- **A record that is passed on counted when upkeep began**, or was stored since: whenever upkeep
asks a node to store another publisher, it has seen a record of that publisher with such a time,
whatever happens to the node and however long the lookups take. -/
theorem replicated_of_live (config : Config) (address : Endpoint) (draws : Draws) (start : Time)
    (incidents : List Incident) (upkeep : Upkeep) (resolve : Resolver) (beats : List Attended.Beat)
    {key publisher : Id} {port : UInt16} {destination : Endpoint} :
    let course := (Course.start config address draws start).live incidents
    let begun := beginUpkeep course upkeep resolve
    (destination, Request.store key publisher port) ∈ (begun.run beats).asked →
    publisher ≠ course.node.id →
    ∃ before, before <+: beats ∧
      ∃ record ∈ (begun.run before).course.node.records.of key,
        record.publisher.id = publisher ∧ record.publisher.address.port = port ∧
        (course.now < record.expiresAt ∨ course.now ≤ record.storedAt) := by
  intro course begun hasked hother
  have hsweep := (Attended.start course (maintain upkeep resolve)).turns_perform (.proceed true)
  have hkeeps : ∀ now node next, Turns now node next → node.Poised course.node.id →
      next.Poised course.node.id := fun _ _ _ hturn h => h.turns hturn
  have hcourse : course.node.Poised course.node.id := by
    have hlive : course.node.Poised (new config address draws start).id :=
      Course.live_keeps (Poised _) (fun _ _ _ hturn h => h.turns hturn)
        (poised_new config address draws start) incidents
    exact hlive.id.symm ▸ hlive
  have hpoised : ∀ before, (begun.run before).course.node.Poised course.node.id :=
    Attended.run_keeps _ hkeeps (hcourse.turns hsweep)
  have hseen : ∀ before, (begun.run before).course.node.Swept course.now :=
    Attended.run_lasting (lasting_swept course.now) (Nat.le_refl _)
      (swept_sweepRecords course.node course.now)
  have hrun := Attended.honours_run (honours_beginUpkeep course.node.id
    (fun node => ∃ before, before <+: beats ∧ node = (begun.run before).course.node) course upkeep
    resolve) beats
    (fun before hbefore => ⟨hpoised before, before, hbefore, rfl⟩)
    (fun before _ handle outcome hpoll => (hpoised before).foreign_poll hpoll) (foreign_timeout _)
  obtain hown | ⟨_, ⟨before, hbefore, rfl⟩, record, hrecord, hid, hport⟩ :=
    hrun.asked _ hasked _ _ _ rfl
  · exact absurd hown hother
  · exact ⟨before, hbefore, record, hrecord, hid, hport, hseen before _ record hrecord⟩

/-- Records live ten seconds longer here than the period in which they are passed on. -/
def expiryConfig : Config :=
  { id := some .zero, timings := { expire := 3610000, refresh := 7200000 } }

/-- A node stores, under the key 1, the publisher 2 at 10.9.9.9 and port 3333, and knows the node 1
at 10.0.0.2 too. An hour goes by. -/
def expiryIncidents : List Incident :=
  let publisher : Contact := ⟨⟨2⟩, ⟨⟨10, 9, 9, 9⟩, 4444⟩⟩
  let stored := Message.encode ⟨.ofNat 7, publisher.id, .request (.store ⟨1⟩ publisher.id 3333)⟩
  [.happens (.receive stored publisher.address fun _ => false),
   .happens (.addContact ⟨⟨1⟩, ⟨⟨10, 0, 0, 2⟩, 4444⟩⟩ fun _ => false), .happens (.pass 3600000)]

/-- Upkeep asks both for the contacts closest to the key. The node 1 answers at once; the publisher
does not answer, and the request to it is given up after fifteen seconds. -/
def expiryBeats : List Attended.Beat :=
  let answered := Message.encode ⟨.ofNat 1, ⟨1⟩, .response (.nodes [])⟩
  let waits : List Attended.Beat :=
    [.other (.happens (.pass 5000)), .other (.happens (.tick fun _ => false))]
  List.replicate 7 (.proceed true) ++
    [.other (.happens (.receive answered ⟨⟨10, 0, 0, 2⟩, 4444⟩ fun _ => false)), .proceed true] ++
    waits ++ waits ++ waits ++ [.proceed true]

/-- The node with the zero id at 10.0.0.1 as its upkeep begins. -/
def expiryBegun : Attended Upkeep :=
  beginUpkeep ((Course.start expiryConfig ⟨⟨10, 0, 0, 1⟩, 4444⟩ (.ofLists [] []) 0).live
    expiryIncidents) (.new expiryConfig.timings 0) .literal

theorem replicated_of_live_of_example :
    let sent := expiryBeats ++ [.proceed true]
    (⟨⟨10, 0, 0, 2⟩, 4444⟩, Request.store ⟨1⟩ ⟨2⟩ 3333) ∈ (expiryBegun.run sent).asked ∧
      ∃ before, before <+: sent ∧
        ∃ record ∈ (expiryBegun.run before).course.node.records.of ⟨1⟩,
          record.publisher.id = ⟨2⟩ ∧ record.publisher.address.port = 3333 ∧
          (3600000 < record.expiresAt ∨ 3600000 ≤ record.storedAt) := by
  intro sent
  have hasked : (⟨⟨10, 0, 0, 2⟩, 4444⟩, Request.store ⟨1⟩ ⟨2⟩ 3333) ∈
      (expiryBegun.run sent).asked := by
    decide +kernel
  refine ⟨hasked, ?_⟩
  exact replicated_of_live expiryConfig ⟨⟨10, 0, 0, 1⟩, 4444⟩ (.ofLists [] []) 0 expiryIncidents
    (.new expiryConfig.timings 0) .literal sent hasked (by decide +kernel)

/-- **A record that has expired is passed on**: it expired five seconds ago, the node itself would
not tell anybody of it any more, and it is about to ask the node 1 to store it. -/
theorem replicates_expired :
    let state := expiryBegun.run expiryBeats
    state.dialogue.asks = [(⟨⟨10, 0, 0, 2⟩, 4444⟩, Request.store ⟨1⟩ ⟨2⟩ 3333)] ∧
      state.course.now = 3615000 ∧
      (state.course.node.records.ofPublisher ⟨1⟩ ⟨2⟩).map Record.expiresAt = [3610000] ∧
      state.course.node.records.get ⟨1⟩ state.course.now = [] ∧
      state.course.node.id = .zero := by
  decide +kernel

end Node

end Kademlia
