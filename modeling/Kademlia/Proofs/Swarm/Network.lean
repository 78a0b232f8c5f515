import Kademlia.Proofs.Swarm.Member

/-!
# Kademlia.Proofs.Swarm.Network

Any number of nodes on a bad network. Whatever the nodes send is in flight from then on: the network
may deliver a datagram to the node at its destination at any time, as often as it likes and in any
order, or never. It delivers nothing else (`Swarm.Step`), so nothing is forged or altered.

What the nodes ask and what they serve is written down beside them. Nothing that the nodes do
depends on it.
-/

namespace Kademlia

/-- What a node starts from. -/
structure Founder where
  config : Config
  address : Endpoint
  draws : Draws
  now : Time

/-- The node of a founder. -/
def Founder.course (founder : Founder) : Course :=
  .start founder.config founder.address founder.draws founder.now

/-- A request that a member has asked. -/
structure Asking where
  member : Nat
  /-- The member as others know it. -/
  asker : Contact
  opened : OpenedRequest
  asked : Request

/-- Nodes on a network. -/
structure Swarm where
  members : List Course
  /-- All datagrams that were ever sent, and where from. -/
  flight : List (Endpoint × Datagram)
  askings : List Asking
  /-- The requests that were served, and by which member. -/
  servings : List (Nat × Serving)

/-- Is the incident the arrival of a packet? -/
def Incident.isArrival : Incident → Bool
  | .happens (.receive ..) => true
  | _ => false

namespace Swarm

/-- What may happen next. -/
inductive Event where
  /-- The network delivers a datagram. -/
  | deliver (index member : Nat) (lost : Outgoing → Bool)
  /-- Anything else that may happen to a member. -/
  | incident (member : Nat) (incident : Incident)

/-- New nodes, before anything was sent. -/
def start (founders : List Founder) : Swarm := ⟨founders.map Founder.course, [], [], []⟩

/-- A member as others know it. -/
def contact? (swarm : Swarm) (member : Nat) : Option Contact :=
  swarm.members[member]?.map (·.node.contact)

/-- Something happens to a member. -/
def undergo (swarm : Swarm) (member : Nat) (incident : Incident) : Swarm :=
  match swarm.members[member]? with
  | none => swarm
  | some course =>
    { members := swarm.members.set member (course.undergo incident)
      flight := swarm.flight ++ (course.sends incident).map (course.node.address, ·)
      askings := swarm.askings ++
        (course.asks incident).map fun item => ⟨member, course.node.contact, item.1, item.2⟩
      servings := swarm.servings ++ (course.serves incident).map (member, ·) }

/-- Something happens. A datagram is delivered to a member at its destination only, and no packets
come from elsewhere. -/
def perform (swarm : Swarm) : Event → Swarm
  | .deliver index member lost =>
    match swarm.flight[index]?, swarm.members[member]? with
    | some (source, datagram), some course =>
      if datagram.destination = course.node.address then
        swarm.undergo member (.happens (.receive datagram.packet source lost))
      else swarm
    | _, _ => swarm
  | .incident member incident =>
    if incident.isArrival then swarm else swarm.undergo member incident

/-- One thing happens after the other. -/
def run (swarm : Swarm) (events : List Event) : Swarm := events.foldl perform swarm

/-! ### Steps -/

/-- What may become of a swarm: something happens to a member, and what arrives was sent to it. -/
inductive Step (swarm : Swarm) : Swarm → Prop where
  | rest : Step swarm swarm
  | undergo {member : Nat} {course : Course} {incident : Incident}
    (hget : swarm.members[member]? = some course)
    (harrival : ∀ packet source lost, incident = .happens (.receive packet source lost) →
      (source, ⟨course.node.address, packet⟩) ∈ swarm.flight) :
    Step swarm (swarm.undergo member incident)

variable {swarm next : Swarm} {member : Nat} {course : Course} {incident : Incident}

theorem step_undergo (swarm : Swarm) (member : Nat) {incident : Incident}
    (harrival : ∀ course packet source lost, swarm.members[member]? = some course →
      incident = .happens (.receive packet source lost) →
        (source, ⟨course.node.address, packet⟩) ∈ swarm.flight) :
    swarm.Step (swarm.undergo member incident) := by
  cases hget : swarm.members[member]? with
  | none =>
    rw [Swarm.undergo, hget]
    exact .rest
  | some course =>
    exact .undergo hget fun packet source lost => harrival course packet source lost hget

theorem step_perform (swarm : Swarm) (event : Event) : swarm.Step (swarm.perform event) := by
  cases event with
  | deliver index member lost =>
    rw [perform]
    split
    · rename_i source datagram course hflight hget
      split
      · rename_i hdestination
        refine swarm.step_undergo member fun other packet origin loses hother heq => ?_
        obtain rfl := Option.some.inj (hget.symm.trans hother)
        obtain ⟨rfl, rfl, -⟩ := Happening.receive.inj (Incident.happens.inj heq)
        rw [← hdestination]
        exact List.mem_of_getElem? hflight
      · exact .rest
    · exact .rest
  | incident member incident =>
    rw [perform]
    split
    · exact .rest
    · rename_i hother
      refine swarm.step_undergo member fun course packet source lost _ heq => ?_
      rw [heq] at hother
      exact absurd rfl hother

/-! ### What an incident leaves -/

theorem undergo_eq (hget : swarm.members[member]? = some course) (incident : Incident) :
    swarm.undergo member incident =
      { members := swarm.members.set member (course.undergo incident)
        flight := swarm.flight ++ (course.sends incident).map (course.node.address, ·)
        askings := swarm.askings ++
          (course.asks incident).map fun item => ⟨member, course.node.contact, item.1, item.2⟩
        servings := swarm.servings ++ (course.serves incident).map (member, ·) } := by
  rw [undergo, hget]

/-- After an incident a member is the one that underwent it or what it was. -/
theorem members_undergo (hget : swarm.members[member]? = some course) {index : Nat}
    {other : Course} (hother : (swarm.undergo member incident).members[index]? = some other) :
    (index = member ∧ other = course.undergo incident) ∨
      (index ≠ member ∧ swarm.members[index]? = some other) := by
  rw [undergo_eq hget] at hother
  by_cases hindex : member = index
  · subst hindex
    have hlt := (List.getElem?_eq_some_iff.mp hget).1
    rw [List.getElem?_set_self hlt] at hother
    exact .inl ⟨rfl, (Option.some.inj hother).symm⟩
  · rw [List.getElem?_set_ne hindex] at hother
    exact .inr ⟨Ne.symm hindex, hother⟩

theorem mem_askings_undergo (hget : swarm.members[member]? = some course) {asking : Asking} :
    asking ∈ (swarm.undergo member incident).askings ↔ asking ∈ swarm.askings ∨
      ∃ item ∈ course.asks incident, ⟨member, course.node.contact, item.1, item.2⟩ = asking := by
  rw [undergo_eq hget, List.mem_append, List.mem_map]

theorem mem_servings_undergo (hget : swarm.members[member]? = some course) {item : Nat × Serving} :
    item ∈ (swarm.undergo member incident).servings ↔ item ∈ swarm.servings ∨
      ∃ serving ∈ course.serves incident, (member, serving) = item := by
  rw [undergo_eq hget, List.mem_append, List.mem_map]

theorem mem_flight_undergo (hget : swarm.members[member]? = some course)
    {item : Endpoint × Datagram} :
    item ∈ (swarm.undergo member incident).flight ↔ item ∈ swarm.flight ∨
      ∃ datagram ∈ course.sends incident, (course.node.address, datagram) = item := by
  rw [undergo_eq hget, List.mem_append, List.mem_map]

theorem askings_subset_undergo (hget : swarm.members[member]? = some course)
    (incident : Incident) : swarm.askings ⊆ (swarm.undergo member incident).askings :=
  fun _ hmem => (mem_askings_undergo hget).mpr (.inl hmem)

theorem servings_subset_undergo (hget : swarm.members[member]? = some course)
    (incident : Incident) : swarm.servings ⊆ (swarm.undergo member incident).servings :=
  fun _ hmem => (mem_servings_undergo hget).mpr (.inl hmem)

/-- Members stay who they are. -/
theorem contact?_undergo (hget : swarm.members[member]? = some course) (incident : Incident)
    (index : Nat) :
    (swarm.undergo member incident).contact? index = swarm.contact? index := by
  rw [undergo_eq hget, contact?, contact?]
  by_cases hindex : member = index
  · subst hindex
    have hlt := (List.getElem?_eq_some_iff.mp hget).1
    have hsame := (course.turns_undergo incident).sameNode
    have hcontact : (course.undergo incident).node.contact = course.node.contact := by
      rw [Node.contact, Node.contact, hsame.id, hsame.address]
    rw [List.getElem?_set_self hlt, hget, Option.map_some, Option.map_some, hcontact]
  · rw [List.getElem?_set_ne hindex]

end Swarm

end Kademlia
