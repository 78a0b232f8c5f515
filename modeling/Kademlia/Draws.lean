import Kademlia.Id.Basic
import Kademlia.TransactionId

/-!
# Kademlia.Draws

The random numbers that a node draws, as data: finite lists of ids and transaction ids, continued
by zero ids and by the transaction ids 1, 2, 3, …. Any finite course of a node draws finitely often,
so every such course is one of these.
-/

namespace Kademlia

/-- The random numbers still to be drawn. -/
structure Draws where
  transactions : List TransactionId
  /-- The number of the transaction id after those. -/
  counter : Nat
  /-- The next ids; zero ids follow. -/
  ids : List Id
deriving DecidableEq

namespace Draws

/-- The draws that start with given transaction ids and ids. -/
def ofLists (transactions : List TransactionId) (ids : List Id) : Draws := ⟨transactions, 1, ids⟩

/-- Draws an id. -/
def nextId (draws : Draws) : Id × Draws :=
  match draws.ids with
  | [] => (.zero, draws)
  | next :: rest => (next, { draws with ids := rest })

/-- Draws an id for each item of a list, and makes something of both. -/
def idsFor {α β : Type} (draws : Draws) (make : α → Id → β) : List α → List β × Draws
  | [] => ([], draws)
  | item :: items =>
    let (drawn, draws) := draws.nextId
    let (made, draws) := draws.idsFor make items
    (make item drawn :: made, draws)

/-- Draws an id that shares exactly `count` leading bits with another; nothing is drawn if it has to
share all. -/
def idSharingExactly (draws : Draws) (id : Id) (count : Nat) : Id × Draws :=
  if count < Id.width then
    let (drawn, draws) := draws.nextId
    (id.sharingExactly count drawn, draws)
  else (id, draws)

/-- Draws an id that shares at least `count` leading bits with another. -/
def idSharingAtLeast (draws : Draws) (id : Id) (count : Nat) : Id × Draws :=
  let (drawn, draws) := draws.nextId
  (id.sharingAtLeast count drawn, draws)

/-- Draws a transaction id. -/
def nextTransaction (draws : Draws) : TransactionId × Draws :=
  match draws.transactions with
  | [] => (.ofNat draws.counter, { draws with counter := draws.counter + 1 })
  | next :: rest => (next, { draws with transactions := rest })

/-- Draws transaction ids, at most `tries` of them, until one is not in use. -/
def freshWithin : Nat → List TransactionId → Draws → Option (TransactionId × Draws)
  | 0, _, _ => none
  | tries + 1, used, draws =>
    let (drawn, draws) := draws.nextTransaction
    if drawn ∈ used then freshWithin tries used draws else some (drawn, draws)

/-- Draws a transaction id that is not in use. Past the listed ones the draws are all different as
long as a counter of 160 bits does not wrap, so one more than there are in use suffices. -/
def fresh (draws : Draws) (used : List TransactionId) : Option (TransactionId × Draws) :=
  freshWithin (draws.transactions.length + used.length + 1) used draws

end Draws

end Kademlia
