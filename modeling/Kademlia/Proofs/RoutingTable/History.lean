import Kademlia.Proofs.RoutingTable.WellFormed

/-!
# Kademlia.Proofs.RoutingTable.History

Histories of a routing table: what may be asked of it, one operation after the other, each at an
instant of its own, and what it answers. The histories are shared by everything that can be asked
the same (`Operation.runWith`), so that two such things can be compared answer by answer
(`Operation.runWith_simulates`).
-/

namespace Kademlia

namespace RoutingTable

/-- What may be asked of a routing table. -/
inductive Operation where
  /-- A contact was heard of. -/
  | update (contact : Contact)
  /-- A contact did not answer. -/
  | evict (id : Id)
  /-- A contact answered its ping. -/
  | pingAnswered (id : Id)
  /-- A contact is to be forgotten. -/
  | remove (id : Id)
  /-- The bucket for an id was used. -/
  | touch (id : Id)

/-- What is answered. -/
inductive Answer where
  | updated (outcome : UpdateOutcome)
  /-- To an eviction: which replacement took the place. -/
  | evicted (promoted : Option Contact)
  | done
deriving DecidableEq

/-- An operation and the instant at which it is done. -/
abbrev Event := Time × Operation

namespace Operation

variable {σ τ : Type}

/-- Performs one operation after the other, and collects the answers. -/
def runWith (perform : σ → Time → Operation → σ × Answer) : σ → List Event → σ × List Answer
  | state, [] => (state, [])
  | state, (now, operation) :: events =>
    let (state, answer) := perform state now operation
    let (state, answers) := runWith perform state events
    (state, answer :: answers)

/-- What every operation keeps holds after any number of them. -/
theorem runWith_keeps {perform : σ → Time → Operation → σ × Answer} (Keeps : σ → Prop)
    (hstep : ∀ state now operation, Keeps state → Keeps (perform state now operation).1)
    {state : σ} (h : Keeps state) (events : List Event) :
    Keeps (runWith perform state events).1 := by
  induction events generalizing state with
  | nil => exact h
  | cons event events ih => exact ih (hstep state event.1 event.2 h)

/-- Two things that answer every operation alike, and stay related, answer every history alike. -/
theorem runWith_simulates (first : σ → Time → Operation → σ × Answer)
    (second : τ → Time → Operation → τ × Answer) (Related : σ → τ → Prop)
    (hstep : ∀ a b now operation, Related a b →
      Related (first a now operation).1 (second b now operation).1 ∧
        (first a now operation).2 = (second b now operation).2)
    {a : σ} {b : τ} (h : Related a b) (events : List Event) :
    Related (runWith first a events).1 (runWith second b events).1 ∧
      (runWith first a events).2 = (runWith second b events).2 := by
  induction events generalizing a b with
  | nil => exact ⟨h, rfl⟩
  | cons event events ih =>
    obtain ⟨hrelated, hanswer⟩ := hstep a b event.1 event.2 h
    obtain ⟨hrest, hanswers⟩ := ih hrelated
    exact ⟨hrest, congrArg₂ List.cons hanswer hanswers⟩

end Operation

/-- Performs an operation. -/
def perform (table : RoutingTable) (now : Time) : Operation → RoutingTable × Answer
  | .update contact => ((table.update contact now).1, .updated (table.update contact now).2)
  | .evict id => ((table.evict id).1, .evicted (table.evict id).2)
  | .pingAnswered id => (table.pingAnswered id, .done)
  | .remove id => (table.remove id, .done)
  | .touch id => (table.touch id now, .done)

/-- A history of a routing table. -/
def run (table : RoutingTable) (events : List Event) : RoutingTable × List Answer :=
  Operation.runWith perform table events

theorem own_perform (table : RoutingTable) (now : Time) (operation : Operation) :
    (table.perform now operation).1.own = table.own := by
  cases operation with
  | update contact => exact table.own_update contact now
  | evict id => exact own_putBucket ..
  | pingAnswered id => exact own_putBucket ..
  | remove id => exact own_putBucket ..
  | touch id => exact own_putBucket ..

theorem WellFormed.perform {table : RoutingTable} (h : table.WellFormed) (now : Time)
    (operation : Operation) : (table.perform now operation).1.WellFormed := by
  cases operation with
  | update contact => exact h.update contact now
  | evict id => exact h.putBucket ((h.bucketOf id).evict id)
  | pingAnswered id => exact h.putBucket ((h.bucketOf id).settlePing id)
  | remove id => exact h.putBucket ((h.bucketOf id).remove id)
  | touch id => exact h.touch id now

theorem own_run (table : RoutingTable) (events : List Event) :
    (table.run events).1.own = table.own :=
  Operation.runWith_keeps (fun next : RoutingTable => next.own = table.own)
    (fun next now operation h => (next.own_perform now operation).trans h) rfl events

/-- Every table that can come about is well-formed. -/
theorem wellFormed_run (own : Id) (start : Time) (events : List Event) :
    ((new own start).run events).1.WellFormed :=
  Operation.runWith_keeps WellFormed (fun _ now operation h => h.perform now operation)
    (wellFormed_new own start) events

end RoutingTable

end Kademlia
