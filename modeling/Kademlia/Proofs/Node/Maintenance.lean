import Kademlia.Proofs.Node.Expiry
import Kademlia.Proofs.Node.Growth

/-!
# Kademlia.Proofs.Node.Maintenance

Upkeep settles what is due. It decides at one instant and may then be under way for as long as it
takes, with packets arriving and buckets being split by the very lookups that it makes. When it has
ended, nothing is left that was due at the instant of the decision (`Node.settled_of_maintain`).

Whatever is due is settled by a single step somewhere in the dialogue: a lookup uses the bucket of
its target as it begins, and an announcement notes its instant before it asks anybody. That the
dialogue comes to this step whatever the peers do is a matter of `Dialogue.Brings`. That it is not
undone by what happens in between is a matter of lasting facts: buckets that were used stay so,
wherever they are split (`RoutingTable.Ages`), and a key is never noted with an earlier instant.
-/

namespace Kademlia

/-- Nothing is due at an instant. -/
structure Upkeep.Settled (upkeep : Upkeep) (node : Node) (now : Time) : Prop where
  buckets : node.table.staleBuckets upkeep.timings.refresh now = []
  keys : node.records.due now = []
  records : upkeep.replicates now = false

theorem Draws.exists_mem_idsFor {α β : Type} (make : α → Id → β) {items : List α} {item : α}
    (h : item ∈ items) (draws : Draws) : ∃ draw, make item draw ∈ (draws.idsFor make items).1 := by
  induction items generalizing draws with
  | nil => exact absurd h List.not_mem_nil
  | cons first rest ih =>
    rcases List.mem_cons.mp h with rfl | hrest
    · exact ⟨draws.nextId.1, List.mem_cons_self⟩
    · obtain ⟨draw, hdraw⟩ := ih hrest draws.nextId.2
      exact ⟨draw, List.mem_cons_of_mem _ hdraw⟩

/-! ### Keys that the node publishes -/

namespace RecordStore

variable {store next : RecordStore} {made : List Deposit} {now : Time}

/-- The instants at which keys were published are as they were, or now. -/
theorem Follows.find?_published (h : store.Follows now made next) {key : Id} {time : Time}
    (htime : next.published.find? key = some time) :
    store.published.find? key = some time ∨ time = now := by
  cases h with
  | publish other publisher =>
    rw [RecordStore.publish] at htime
    by_cases heq : key = other
    · rw [heq, Keyed.find?_put_self] at htime
      exact .inr (Option.some.inj htime).symm
    · rw [Keyed.find?_put_of_ne _ heq] at htime
      exact .inl htime
  | _ => exact .inl htime

end RecordStore

namespace Dialogue

/-- A contract without content. -/
def Contract.idle : Contract := ⟨fun _ => True, fun _ => True, fun _ _ => True⟩

theorem ensures_idle {α : Type} (dialogue : Dialogue α) :
    dialogue.Ensures .idle fun _ _ => True := by
  induction dialogue with
  | done value => exact .done trivial
  | step deed rest ih => exact .step fun _ _ _ => ih _
  | request destination asked rest ih => exact .request trivial ih
  | await handle rest ih => exact .await fun outcome _ => ih outcome

end Dialogue

namespace Node

open Dialogue

variable {since now : Time} {node next : Node} {target key own : Id} {sees : Node → Prop}

/-! ### What upkeep brings about -/

/-- The bucket for an id was used since an instant. -/
def Used (since : Time) (id : Id) (node : Node) : Prop :=
  since ≤ (node.table.bucketOf id).touched

/-- A key was published since an instant, if it was published at all. -/
def Renewed (since : Time) (key : Id) (node : Node) : Prop :=
  ∀ time, node.records.published.find? key = some time → since ≤ time

theorem lasting_used (since : Time) (id : Id) : Lasting since (Used since id) :=
  fun _ _ _ hnow hturn hused => (hturn.ages hnow).used hused

theorem lasting_renewed (since : Time) (key : Id) : Lasting since (Renewed since key) := by
  intro now node next hnow hturn hrenewed time htime
  obtain ⟨made, hfollows⟩ := hturn.follows
  rcases hfollows.find?_published htime with hold | rfl
  · exact hrenewed time hold
  · exact hnow

theorem lasting_ages (since : Time) (table : RoutingTable) :
    Lasting since fun node => table.Ages since node.table :=
  fun _ _ _ hnow hturn hages => hages.trans (hturn.ages hnow)

/-- Buckets are split and never joined, and a table has one centre. -/
theorem lasting_front (since : Time) (table : RoutingTable) :
    Lasting since fun node =>
      node.table.own = table.own ∧ table.front.length ≤ node.table.front.length := by
  refine lasting_of_turns (fun now node next hturn h => ?_) since
  exact ⟨hturn.sameNode.table.own.trans h.1, Nat.le_trans h.2 hturn.advances.length_front_le⟩

/-- Keys that were not published before were published since. -/
theorem lasting_published (since : Time) (records : RecordStore) :
    Lasting since fun node =>
      node.records.republish = records.republish ∧
        ∀ key time, node.records.published.find? key = some time →
          records.published.find? key = some time ∨ since ≤ time := by
  intro now node next hnow hturn ⟨hrepublish, hpublished⟩
  obtain ⟨made, hfollows⟩ := hturn.follows
  refine ⟨hfollows.republish.trans hrepublish, fun key time htime => ?_⟩
  rcases hfollows.find?_published htime with hold | rfl
  · exact hpublished key time hold
  · exact .inr hnow

/-- A lookup uses the bucket of its target. -/
theorem brings_lookup (sees : Node → Prop) (since : Time) (target : Id) (asked : Request) :
    (lookup target asked).Brings sees since (Used since target) := by
  unfold lookup
  refine brings_look fun node now _ => Brings.bind (.here fun node now _ hnow => ?_) _
  show since ≤ ((node.table.touch target now).bucketOf target).touched
  rw [RoutingTable.touched_bucketOf_touch]
  exact hnow

theorem brings_lookupNode (sees : Node → Prop) (since : Time) (target : Id) :
    (lookupNode target).Brings sees since (Used since target) :=
  (brings_lookup sees since target _).bind _

/-- A node that joins looks for itself. -/
theorem brings_join (h : ∀ node, sees node → node.id = own) (since : Time) (resolve : Resolver) :
    (join resolve).Brings sees since (Used since own) := by
  unfold join
  refine brings_look fun node now hsees => ?_
  rw [← h node hsees]
  refine brings_bind (fun handles => brings_bind (fun _ => ?_) _) _
  exact (brings_lookupNode sees since node.id).bind _

theorem brings_announce (sees : Node → Prop) (since : Time) (key : Id) :
    (announce key).Brings sees since (Renewed since key) := by
  unfold announce
  refine Brings.bind (.here fun node now _ hnow time htime => ?_) _
  have hput : (node.records.published.put key now).find? key = some time := htime
  rw [Keyed.find?_put_self] at hput
  exact Option.some.inj hput ▸ hnow

variable {resolve : Resolver} {duties : Duties} {Fact : Node → Prop}

/-- What the duties other than joining bring about, upkeep does. -/
theorem brings_perform (h : (do
      each (fun target => do let _ ← lookupNode target) duties.refresh
      each replicate duties.replicate
      each (fun key => do let _ ← announce key) duties.republish).Brings sees since Fact) :
    (Node.perform resolve duties).Brings sees since Fact := by
  unfold Node.perform
  refine brings_look fun node now _ => ?_
  dsimp only
  split
  · exact brings_bind (fun _ => h) (join resolve)
  · exact h

theorem brings_refresh (sees : Node → Prop) (since : Time) (h : target ∈ duties.refresh) :
    (Node.perform resolve duties).Brings sees since (Used since target) :=
  brings_perform ((brings_each h ((brings_lookupNode sees since target).bind _)).bind _)

theorem brings_republish (sees : Node → Prop) (since : Time) (h : key ∈ duties.republish) :
    (Node.perform resolve duties).Brings sees since (Renewed since key) :=
  brings_perform (brings_bind (fun _ => brings_bind (fun _ =>
    brings_each h ((brings_announce sees since key).bind _)) _) _)

theorem brings_rejoin (h : ∀ node, sees node → node.id = own ∧ node.config.bootstrap ≠ [])
    (since : Time) (hrejoin : duties.rejoin = true) :
    (Node.perform resolve duties).Brings sees since (Used since own) := by
  unfold Node.perform
  refine brings_look fun node now hsees => ?_
  have hboth : (duties.rejoin && !node.config.bootstrap.isEmpty) = true := by
    simpa [hrejoin] using (h node hsees).2
  dsimp only
  rw [if_pos hboth]
  exact (brings_join (fun node hsees => (h node hsees).1) since resolve).bind _

/-! ### Decisions -/

/-- **Something is done for every bucket that was not used**: an id of it is looked up, or, if the
node knows nobody, the node looks for itself, whose bucket is the only one. -/
theorem exists_target (hrooted : node.Rooted) (upkeep : Upkeep) {index : Nat}
    (h : index ∈ node.table.staleBuckets upkeep.timings.refresh now) :
    ∃ target, node.table.bucketIndex target = index ∧
      (target ∈ (takeDuties upkeep node now).1.2.refresh ∨
        node.table.isEmpty = true ∧ target = node.table.own ∧
          (takeDuties upkeep node now).1.2.rejoin = true) := by
  have hplace := RoutingTable.le_of_mem_staleBuckets h
  cases hempty : node.table.isEmpty with
  | true =>
    refine ⟨node.table.own, ?_, .inr ⟨rfl, rfl, ?_⟩⟩
    · have hfront := hrooted.single hempty
      rw [hfront] at hplace
      rw [RoutingTable.bucketIndex, hfront]
      exact (Nat.min_zero _).trans (Nat.le_zero.mp hplace).symm
    · show (node.table.isEmpty && !(node.table.staleBuckets upkeep.timings.refresh now).isEmpty) =
        true
      rw [hempty, List.isEmpty_eq_false_iff.mpr (List.ne_nil_of_mem h)]
      rfl
  | false =>
    obtain ⟨draw, hdraw⟩ := Draws.exists_mem_idsFor node.table.idInBucket h node.draws
    refine ⟨_, RoutingTable.bucketIndex_idInBucket hrooted.guarded.wellFormed.front_lt hplace draw,
      .inl ?_⟩
    show _ ∈ (upkeep.refreshTargets node.table node.draws now).1
    rw [Upkeep.refreshTargets, hempty]
    exact hdraw

/-- What was decided on for the next time: records that are passed on now are not due again. -/
theorem not_replicates_takeDuties (upkeep : Upkeep) (h : 0 < upkeep.timings.replicate) (node : Node)
    (now : Time) : (takeDuties upkeep node now).1.1.replicates now = false := by
  show decide (upkeep.timings.replicate ≤
    now - if upkeep.replicates now then now else upkeep.lastReplicate) = false
  split
  · rw [Nat.sub_self]
    exact decide_eq_false (Nat.not_le.mpr h)
  · rename_i hreplicates
    simpa [Upkeep.replicates] using hreplicates

/-- Where nothing is due, nothing is decided on. -/
theorem takeDuties_of_settled {upkeep : Upkeep} (h : upkeep.Settled node now) :
    (takeDuties upkeep node now).1.2 = ⟨false, [], [], []⟩ := by
  have hrefresh : (upkeep.refreshTargets node.table node.draws now).1 = [] := by
    rw [Upkeep.refreshTargets, h.buckets]
    split <;> rfl
  show Duties.mk
    (node.table.isEmpty && !(node.table.staleBuckets upkeep.timings.refresh now).isEmpty)
    (upkeep.refreshTargets node.table node.draws now).1
    (if upkeep.replicates now then node.records.keys else []) (node.records.due now) = _
  rw [hrefresh, h.buckets, h.records, h.keys]
  simp

/-! ### Upkeep as a whole -/

/-- What is so in the whole life of a node with some settings. -/
structure Reached (config : Config) (node : Node) : Prop where
  rooted : node.Rooted
  centre : node.table.own = node.id
  settings : node.config = config
  period : node.records.republish = config.timings.republish

theorem reached_new (config : Config) (address : Endpoint) (draws : Draws) (now : Time) :
    (new config address draws now).Reached config :=
  ⟨rooted_new config address draws now, rfl, rfl, rfl⟩

theorem Reached.turns {config : Config} (h : node.Reached config) (hturn : node.Turns now next) :
    next.Reached config := by
  have hsame := hturn.sameNode
  obtain ⟨made, hfollows⟩ := hturn.follows
  refine ⟨h.rooted.turns hturn, ?_, hsame.config.trans h.settings,
    hfollows.republish.trans h.period⟩
  rw [hsame.table.own, hsame.id]
  exact h.centre

/-- An upkeep that is about to come to its decision. -/
structure Deciding (config : Config) (upkeep : Upkeep) (resolve : Resolver)
    (state : Attended Upkeep) : Prop where
  dialogue : state.dialogue = .step (.draw upkeep) fun decided =>
    (Node.perform resolve decided.2).bind fun _ => .done decided.1
  reached : state.course.node.Reached config

namespace Deciding

variable {config : Config} {upkeep final : Upkeep} {resolve : Resolver} {state : Attended Upkeep}
  {beats : List Attended.Beat}

/-- What was decided on is known, and so is the node from then on. -/
theorem decided (h : Deciding config upkeep resolve state) :
    (state.perform (.proceed true)).dialogue =
        ((Node.perform resolve
            (takeDuties upkeep state.course.node state.course.now).1.2).bind fun _ =>
          .done (takeDuties upkeep state.course.node state.course.now).1.1) ∧
      (state.perform (.proceed true)).course.node =
        (takeDuties upkeep state.course.node state.course.now).2 := by
  refine ⟨?_, ?_⟩
  · rw [Attended.perform, h.dialogue]
    rfl
  · rw [Attended.perform, h.dialogue]
    rfl

/-- What the performance of the duties brings about is there in the end. -/
theorem brought (h : Deciding config upkeep resolve state) {Fact : Node → Prop}
    (hfact : Lasting state.course.now Fact)
    (hbrings : (Node.perform resolve
      (takeDuties upkeep state.course.node state.course.now).1.2).Brings
        state.course.node.SameNode state.course.now Fact)
    (hresult : (state.run (.proceed true :: beats)).dialogue.result? = some final) :
    Fact (state.run (.proceed true :: beats)).course.node := by
  obtain ⟨hdialogue, hnode⟩ := h.decided
  have hlasting : Lasting state.course.now state.course.node.SameNode :=
    lasting_of_turns (fun _ _ _ hturn hsame => hsame.trans hturn.sameNode) _
  have hsame : state.course.node.SameNode (state.perform (.proceed true)).course.node := by
    rw [hnode]
    exact (state.course.node.tended_with ..).toSameNode
  have hrest : (state.perform (.proceed true)).dialogue.Brings state.course.node.SameNode
      state.course.now Fact := by
    rw [hdialogue]
    exact hbrings.bind _
  have hnow : state.course.now ≤ (state.perform (.proceed true)).course.now := Nat.le_refl _
  exact Attended.brought hfact hlasting hnow hsame hrest beats hresult

/-- The upkeep goes on with what it decided on. -/
theorem result_eq (h : Deciding config upkeep resolve state)
    (hresult : (state.run (.proceed true :: beats)).dialogue.result? = some final) :
    final = (takeDuties upkeep state.course.node state.course.now).1.1 := by
  have hensures : (state.perform (.proceed true)).dialogue.Ensures .idle fun _ value =>
      value = (takeDuties upkeep state.course.node state.course.now).1.1 := by
    rw [h.decided.1]
    exact Ensures.bind ((ensures_idle _).mono fun _ _ _ => .done rfl)
  have hhonours : (state.perform (.proceed true)).Honours .idle fun _ value =>
      value = (takeDuties upkeep state.course.node state.course.now).1.1 :=
    ⟨fun _ _ => trivial, hensures⟩
  exact (Attended.honours_run hhonours beats (fun _ _ => trivial) (fun _ _ _ _ _ => trivial)
    trivial).of_result hresult

/-- A fact that lasts is there in the end, if it does not depend on the draws. -/
theorem lasts (h : Deciding config upkeep resolve state) {Fact : Node → Prop}
    (hfact : Lasting state.course.now Fact)
    (hstart : Fact (takeDuties upkeep state.course.node state.course.now).2)
    (beats : List Attended.Beat) : Fact (state.run (.proceed true :: beats)).course.node := by
  rw [← h.decided.2] at hstart
  have hnow : state.course.now ≤ (state.perform (.proceed true)).course.now := Nat.le_refl _
  exact Attended.run_lasting hfact hnow hstart beats

/-- **No bucket is left that was not used**: each had an id looked up, and whatever became of the
buckets since, it was used where that id belongs. -/
theorem staleBuckets_eq_nil (h : Deciding config upkeep resolve state)
    (hrefresh : 0 < upkeep.timings.refresh)
    (hbootstrap : state.course.node.table.isEmpty = true → config.bootstrap ≠ [])
    (hresult : (state.run (.proceed true :: beats)).dialogue.result? = some final) :
    (state.run (.proceed true :: beats)).course.node.table.staleBuckets upkeep.timings.refresh
      state.course.now = [] := by
  have hages := h.lasts (lasting_ages state.course.now state.course.node.table) (.refl _ _) beats
  have hrooted : (state.run (.proceed true :: beats)).course.node.Rooted :=
    Attended.run_keeps Rooted (fun _ _ _ hturn h => h.turns hturn) h.reached.rooted _
  have hfront := hrooted.guarded.wellFormed.front_lt
  refine hages.staleBuckets_eq_nil hrefresh hfront fun index hindex => ?_
  obtain ⟨target, htarget, hdone⟩ := exists_target h.reached.rooted upkeep hindex
  refine ⟨target, htarget, h.brought (lasting_used _ target) ?_ hresult⟩
  rcases hdone with hrefreshed | ⟨hempty, rfl, hrejoined⟩
  · exact brings_refresh _ _ hrefreshed
  · refine brings_rejoin (fun node hsame => ⟨?_, ?_⟩) _ hrejoined
    · exact hsame.id.trans h.reached.centre.symm
    · rw [hsame.config, h.reached.settings]
      exact hbootstrap hempty

/-- **No key is left to be published again**: each was announced. -/
theorem due_eq_nil (h : Deciding config upkeep resolve state)
    (hrepublish : 0 < config.timings.republish)
    (hresult : (state.run (.proceed true :: beats)).dialogue.result? = some final) :
    (state.run (.proceed true :: beats)).course.node.records.due state.course.now = [] := by
  have hpublished := h.lasts (lasting_published state.course.now state.course.node.records)
    ⟨rfl, fun _ _ => .inl⟩ beats
  refine List.eq_nil_iff_forall_not_mem.mpr fun key hkey => ?_
  obtain ⟨time, htime, hdue⟩ := RecordStore.mem_due_iff.mp hkey
  rw [hpublished.1, h.reached.period] at hdue
  have hrecent : ¬ state.course.now ≤ time := by
    intro hle
    rw [Nat.sub_eq_zero_of_le hle] at hdue
    exact Nat.not_le.mpr hrepublish hdue
  rcases hpublished.2 key time htime with hold | hlater
  · -- The key was due, so it was announced, and what was noted before is gone.
    have hannounced := h.brought (lasting_renewed _ key) (brings_republish _ _
      (RecordStore.mem_due_iff.mpr ⟨time, hold, h.reached.period ▸ hdue⟩)) hresult
    exact hrecent (hannounced time htime)
  · exact hrecent hlater

/-- An id that is drawn from a bucket stays in it, or in one that is split from it. -/
theorem splitFrom_idInBucket (h : Deciding config upkeep resolve state) {index : Nat}
    (hindex : index ≤ state.course.node.table.front.length) (draw : Id)
    (later : List Attended.Beat) :
    state.course.node.table.splitFrom ((state.run later).course.node.table.bucketIndex
      (state.course.node.table.idInBucket index draw)) = index := by
  obtain ⟨hown, hfront⟩ := Attended.run_lasting
    (lasting_front state.course.now state.course.node.table) (Nat.le_refl _)
    ⟨rfl, Nat.le_refl _⟩ later
  rw [RoutingTable.splitFrom_bucketIndex hown hfront]
  exact RoutingTable.bucketIndex_idInBucket h.reached.rooted.guarded.wellFormed.front_lt hindex draw

end Deciding

/-! ### In every life -/

/-- An upkeep that has begun comes to its decision next, whatever else happens before. -/
theorem deciding_beginUpkeep {config : Config} {course : Course}
    (hreached : course.node.Reached config) (upkeep : Upkeep) (resolve : Resolver)
    (others : List Incident) :
    Deciding config upkeep resolve
      ((beginUpkeep course upkeep resolve).run (others.map .other)) := by
  have hstart : (Attended.start course (maintain upkeep resolve)).course.node.Reached config :=
    hreached
  exact ⟨Attended.dialogue_run_other ..,
    Attended.run_keeps (Reached config) (fun _ _ _ hturn h => h.turns hturn) hstart
      (.proceed true :: others.map .other)⟩

/-- Who knew somebody does so later. -/
theorem isEmpty_of_run {α : Type} {state : Attended α} (hrooted : state.course.node.Rooted)
    (beats : List Attended.Beat)
    (hempty : (state.run beats).course.node.table.isEmpty = true) :
    state.course.node.table.isEmpty = true := by
  obtain ⟨-, hsize⟩ := Attended.run_keeps
    (fun node => node.Guarded ∧ state.course.node.table.size ≤ node.table.size)
    (fun _ _ _ hturn h => ⟨(h.1.turns hturn).1, Nat.le_trans h.2 (h.1.turns hturn).2⟩)
    ⟨hrooted.guarded, Nat.le_refl _⟩ beats
  rw [RoutingTable.isEmpty_iff] at hempty ⊢
  omega

/-- **Upkeep settles what is due**, whatever the peers answer, however long the lookups take and
whatever happens meanwhile: when it has ended, nothing is left that was due at the instant at which
it decided what to do, so that the same decision taken again would ask for nothing. Each id that can
be drawn for a bucket is in that bucket or in one that is split from it at every later moment. -/
theorem settled_of_maintain (config : Config) (address : Endpoint) (draws : Draws) (start : Time)
    (incidents : List Incident) (upkeep : Upkeep) (resolve : Resolver) (others : List Incident)
    (beats : List Attended.Beat) {final : Upkeep} (hrefresh : 0 < upkeep.timings.refresh)
    (hreplicate : 0 < upkeep.timings.replicate) (hrepublish : 0 < config.timings.republish) :
    let course := (Course.start config address draws start).live incidents
    let deciding := (beginUpkeep course upkeep resolve).run (others.map .other)
    let table := deciding.course.node.table
    let now := deciding.course.now
    let ended := deciding.run (.proceed true :: beats)
    (course.node.table.isEmpty = true → config.bootstrap ≠ []) →
    ended.dialogue.result? = some final →
    final.Settled ended.course.node now ∧
      (takeDuties final ended.course.node now).1.2 = ⟨false, [], [], []⟩ ∧
      ∀ index ∈ table.staleBuckets upkeep.timings.refresh now, ∀ draw later,
        table.splitFrom ((deciding.run later).course.node.table.bucketIndex
          (table.idInBucket index draw)) = index := by
  intro course deciding table now ended hbootstrap hresult
  have hreached : course.node.Reached config :=
    Course.live_keeps (Reached config) (fun _ _ _ hturn h => h.turns hturn)
      (reached_new config address draws start) incidents
  have hdeciding : Deciding config upkeep resolve deciding :=
    deciding_beginUpkeep hreached upkeep resolve others
  have hstart : (Attended.start course (maintain upkeep resolve)).course.node.Rooted :=
    hreached.rooted
  have hknown : table.isEmpty = true → config.bootstrap ≠ [] := fun hempty =>
    hbootstrap (isEmpty_of_run hstart (.proceed true :: others.map .other) hempty)
  have hsettled : final.Settled ended.course.node now := by
    obtain rfl := hdeciding.result_eq hresult
    exact ⟨hdeciding.staleBuckets_eq_nil hrefresh hknown hresult,
      hdeciding.due_eq_nil hrepublish hresult, not_replicates_takeDuties upkeep hreplicate ..⟩
  refine ⟨hsettled, takeDuties_of_settled hsettled, fun index hindex draw later => ?_⟩
  exact hdeciding.splitFrom_idInBucket (RoutingTable.le_of_mem_staleBuckets hindex) draw later

/-- Keys are published again as often here as records are passed on. -/
def dueConfig : Config := { id := some .zero, timings := { republish := 3600000 } }

/-- A node is asked to store the publisher 2 under the key 1, publishes the key 3 itself, and then
does nothing for an hour. -/
def dueIncidents : List Incident :=
  let stored := Message.encode ⟨.ofNat 7, ⟨2⟩, .request (.store ⟨1⟩ ⟨2⟩ 3333)⟩
  [.happens (.receive stored ⟨⟨10, 9, 9, 9⟩, 4444⟩ fun _ => false),
   .happens (.begin (.announce ⟨3⟩)), .happens (.proceed 0 true), .happens (.pass 3600000)]

/-- The node with the zero id at 10.0.0.1, as upkeep is about to come to its decision. -/
def dueDeciding : Attended Upkeep :=
  (beginUpkeep ((Course.start dueConfig ⟨⟨10, 0, 0, 1⟩, 4444⟩ (.ofLists [] [⟨9⟩]) 0).live
    dueIncidents) (.new dueConfig.timings 0) .literal).run ([.happens (.pass 10)].map .other)

/-- Nobody answers. -/
def dueBeats : List Attended.Beat := (List.replicate 30 [.proceed true, .giveUp]).flatten

/-- There is something of everything to be done, and afterwards there is nothing. -/
theorem settled_of_maintain_of_example :
    (takeDuties (.new dueConfig.timings 0) dueDeciding.course.node dueDeciding.course.now).1.2 =
        ⟨false, [⟨9⟩], [⟨3⟩, ⟨1⟩], [⟨3⟩]⟩ ∧
      (dueDeciding.run (.proceed true :: dueBeats)).dialogue.result? =
        some ⟨dueConfig.timings, 3600010⟩ ∧
      Upkeep.Settled ⟨dueConfig.timings, 3600010⟩
        (dueDeciding.run (.proceed true :: dueBeats)).course.node dueDeciding.course.now := by
  have hresult : (dueDeciding.run (.proceed true :: dueBeats)).dialogue.result? =
      some ⟨dueConfig.timings, 3600010⟩ := by
    decide +kernel
  have hsettled := settled_of_maintain dueConfig ⟨⟨10, 0, 0, 1⟩, 4444⟩ (.ofLists [] [⟨9⟩]) 0
    dueIncidents (.new dueConfig.timings 0) .literal [.happens (.pass 10)] dueBeats (by decide)
    (by decide) (by decide) (fun _ => by decide) hresult
  refine ⟨by decide +kernel, hresult, ?_⟩
  rw [dueDeciding]
  exact hsettled.1

end Node

end Kademlia
