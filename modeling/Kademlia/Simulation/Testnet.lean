import Kademlia.Node.Basic

/-!
# Kademlia.Simulation.Testnet

A network of fresh nodes on one host, at consecutive ports, all of which start from the first.
-/

namespace Kademlia

/-- The nodes of a network on one host. -/
structure Testnet where
  bootstrap : List String
  nodes : List Node
deriving DecidableEq

namespace Testnet

/-- The address of the host. -/
def host : Ipv4 := ⟨127, 0, 0, 1⟩

/-- The addresses of `count` nodes. -/
def addresses (count : Nat) : List Endpoint :=
  (List.range count).map fun index => ⟨host, UInt16.ofNat (50000 + index)⟩

/-- The nodes at given addresses, which draw their ids one after the other. -/
def nodesAt (bootstrap : List String) : List Endpoint → Draws → List Node
  | [], _ => []
  | address :: rest, draws =>
    let config : Config :=
      { address := ⟨host, 0⟩, bootstrap := bootstrap.filter (· ≠ address.toText) }
    let node := Node.new config address draws 0
    node :: nodesAt bootstrap rest node.draws

/-- A network of `count` nodes. -/
def new (count : Nat) (draws : Draws) : Testnet :=
  let bootstrap := ((addresses count).take 1).map Endpoint.toText
  ⟨bootstrap, nodesAt bootstrap (addresses count) draws⟩

end Testnet

end Kademlia
