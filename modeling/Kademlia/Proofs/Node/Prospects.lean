import Kademlia.Proofs.Node.Life

/-!
# Kademlia.Proofs.Node.Prospects

Which keys the activities of a node publish, told ahead from the calls that began them. An
announcement publishes its key the first time that it goes on, and nothing later. Upkeep drops
expired records, finds out which of the node's own keys are due, and publishes these, one after the
other, as it comes to them. Any other activity publishes nothing.

`Prospect` is what is known ahead of an activity, and `Course.foresee` keeps account of it as things
happen. Activities live up to it (`Course.Foreseen.undergo`), up to the last of the keys
(`Course.Foreseen.fulfilled`). What carries this is that the keys which a dialogue publishes up to
its end do not depend on what it is answered (`Dialogue.Publishes`), apart from what upkeep decides.
-/

namespace Kademlia

/-- Any request may be sent, and no key be published. -/
def Scope.quiet : Scope := ⟨fun _ => True, fun _ => False⟩

theorem Scope.serves_quiet : quiet.Serves := fun _ _ => trivial

/-! ### What dialogues publish -/

namespace Dialogue

variable {α β : Type} {dialogue : Dialogue α} {keys more : List Id}

/-- The key that a dialogue publishes in its next part. -/
def publishing? : Dialogue α → Option Id
  | .step deed _ => deed.publishes?
  | _ => none

/-- Does a dialogue publish a key in its next part? -/
def isPublishing (dialogue : Dialogue α) : Bool := dialogue.publishing?.isSome

/-- Whatever is answered, a dialogue publishes these keys up to its end, one after the other. -/
def Publishes : Dialogue α → List Id → Prop
  | .done _, keys => keys = []
  | .step deed next, keys =>
    ∃ rest, keys = deed.publishes?.toList ++ rest ∧ ∀ seen, (next seen).Publishes rest
  | .request _ _ next, keys => ∀ result, (next result).Publishes keys
  | .await _ next, keys => ∀ outcome, (next outcome).Publishes keys

theorem Conforms.publishes_nil (h : dialogue.Conforms .quiet) : dialogue.Publishes [] := by
  induction dialogue with
  | done value => rfl
  | step deed rest ih =>
    have hnone : deed.publishes? = none := Option.eq_none_iff_forall_ne_some.mpr h.1
    exact ⟨[], by rw [hnone]; rfl, fun seen => ih seen (h.2 seen)⟩
  | request destination asked rest ih => exact fun result => ih result (h.2 result)
  | await handle rest ih => exact fun outcome => ih outcome (h outcome)

theorem Publishes.bind (h : dialogue.Publishes keys) {next : α → Dialogue β}
    (hnext : ∀ value, (next value).Publishes more) :
    (dialogue >>= next).Publishes (keys ++ more) := by
  show (dialogue.bind next).Publishes (keys ++ more)
  induction dialogue generalizing keys with
  | done value =>
    obtain rfl : keys = [] := h
    exact hnext value
  | step deed rest ih =>
    obtain ⟨later, rfl, hlater⟩ := h
    exact ⟨later ++ more, List.append_assoc .., fun seen => ih seen (hlater seen)⟩
  | request destination asked rest ih => exact fun result => ih result (h result)
  | await handle rest ih => exact fun outcome => ih outcome (h outcome)

/-- A dialogue whose value is dropped publishes what it publishes. -/
theorem Publishes.bind_pure (h : dialogue.Publishes keys) (value : α → β) :
    (dialogue >>= fun seen => pure (value seen)).Publishes keys := by
  rw [← List.append_nil keys]
  exact h.bind fun _ => rfl

/-- What a dialogue publishes is the key of its next part, if there is one, and what the rest
publishes. -/
theorem Publishes.advance (h : dialogue.Publishes keys) :
    ∃ rest, keys = dialogue.publishing?.toList ++ rest ∧
      ∀ node now sent, (Course.advance node now sent dialogue).2.Publishes rest := by
  cases dialogue with
  | done value => exact ⟨keys, rfl, fun _ _ _ => h⟩
  | step deed next =>
    obtain ⟨rest, hkeys, hrest⟩ := h
    exact ⟨rest, hkeys, fun _ _ _ => hrest _⟩
  | request destination asked next => exact ⟨keys, rfl, fun _ _ _ => h _⟩
  | await handle next =>
    refine ⟨keys, rfl, fun node now sent => ?_⟩
    rw [Course.advance]
    split
    · exact h _
    · exact h

theorem Publishes.abandon (h : dialogue.Publishes keys) :
    (Course.abandon dialogue).Publishes keys := by
  cases dialogue with
  | await handle next => exact h _
  | _ => exact h

end Dialogue

namespace Node

open Dialogue

theorem publishes_announce (key : Id) : (announce key).Publishes [key] :=
  ⟨[], rfl, fun publisher => (conforms_spread Scope.serves_quiet key publisher).publishes_nil⟩

theorem publishes_announceAll (keys : List Id) :
    (each (fun key => do let _ ← announce key) keys).Publishes keys := by
  induction keys with
  | nil => rfl
  | cons key rest ih => exact ((publishes_announce key).bind_pure _).bind fun _ => ih

/-- What upkeep does publishes the keys that are due. -/
theorem publishes_perform (resolve : Resolver) (duties : Duties) :
    (perform resolve duties).Publishes duties.republish := by
  refine (conforms_look _).publishes_nil.bind fun bootstrap => ?_
  have hrefresh : (each (fun target => do let _ ← lookupNode target) duties.refresh).Conforms
      .quiet :=
    conforms_each (fun target =>
      (conforms_lookupNode Scope.serves_quiet target).bind fun _ => conforms_pure _) _
  have hreplicate : (each replicate duties.replicate).Conforms .quiet :=
    conforms_each (conforms_replicate Scope.serves_quiet) _
  have hrest : (do
      each (fun target => do let _ ← lookupNode target) duties.refresh
      each replicate duties.replicate
      each (fun key => do let _ ← announce key) duties.republish).Publishes duties.republish :=
    hrefresh.publishes_nil.bind fun _ =>
      hreplicate.publishes_nil.bind fun _ => publishes_announceAll duties.republish
  dsimp only
  split
  · exact (conforms_join Scope.serves_quiet resolve).publishes_nil.bind fun _ => hrest
  · exact hrest

end Node

/-! ### What is to be expected of activities -/

/-- What an activity is still going to publish, as far as its call tells. -/
inductive Prospect where
  /-- The key, when the activity goes on next, and nothing later. -/
  | announces (key : Id)
  /-- Upkeep, which drops expired records first. -/
  | sweeps
  /-- Upkeep, which finds out next what is due. -/
  | decides
  /-- The keys, one after the other, as the activity comes to them. -/
  | publishes (keys : List Id)
deriving DecidableEq

namespace Prospect

/-- What is to be expected of an activity that begins. -/
def of : Activity → Prospect
  | .announce key => .announces key
  | .maintain _ _ => .sweeps
  | _ => .publishes []

/-- The key that an activity publishes if it goes on now, which may have come to one or not. -/
def publishes? (publishing : Bool) : Prospect → Option Id
  | .announces key => some key
  | .publishes keys => if publishing then keys.head? else none
  | .sweeps | .decides => none

/-- What is to be expected after the activity has gone on. Upkeep decides on the keys that are due
at the time. -/
def later (due : List Id) (publishing : Bool) : Prospect → Prospect
  | .announces _ => .publishes []
  | .sweeps => .decides
  | .decides => .publishes due
  | .publishes keys => .publishes (if publishing then keys.tail else keys)

/-- The keys that are known to be still to come. -/
def left : Prospect → List Id
  | .announces key => [key]
  | .publishes keys => keys
  | .sweeps | .decides => []

/-- What is left of an activity is as it was expected. -/
inductive Meets : Prospect → Dialogue Unit → Prop where
  | announces (key : Id) : Meets (.announces key) (Activity.announce key).dialogue
  | sweeps (upkeep : Upkeep) (resolve : Resolver) :
    Meets .sweeps (Activity.maintain upkeep resolve).dialogue
  | decides (upkeep : Upkeep) {next : Upkeep × Duties → Dialogue Unit}
    (h : ∀ decided, (next decided).Publishes decided.2.republish) :
    Meets .decides (.step (.draw upkeep) next)
  | publishes {dialogue : Dialogue Unit} {keys : List Id} (h : dialogue.Publishes keys) :
    Meets (.publishes keys) dialogue

variable {prospect : Prospect} {dialogue : Dialogue Unit}

theorem meets_of (activity : Activity) : (of activity).Meets activity.dialogue := by
  have hquiet (h : ∀ key, ¬activity.Publishes key) : activity.dialogue.Conforms .quiet :=
    activity.conforms_dialogue.mono (fun _ _ => trivial) h
  cases activity with
  | announce key => exact .announces key
  | maintain upkeep resolve => exact .sweeps upkeep resolve
  | _ => exact .publishes (hquiet fun _ => id).publishes_nil

/-- An activity publishes what it was expected to publish. -/
theorem Meets.publishing?_eq (h : prospect.Meets dialogue) :
    dialogue.publishing? = prospect.publishes? dialogue.isPublishing := by
  cases h with
  | announces | sweeps | decides => rfl
  | publishes hpublishes =>
    obtain ⟨rest, rfl, -⟩ := hpublishes.advance
    rw [publishes?, Dialogue.isPublishing]
    cases dialogue.publishing? <;> rfl

theorem Meets.advance (h : prospect.Meets dialogue) (node : Node) (now : Time) (sent : Bool) :
    (prospect.later (node.records.due now) dialogue.isPublishing).Meets
      (Course.advance node now sent dialogue).2 := by
  cases h with
  | announces key =>
    obtain ⟨rest, hkeys, hrest⟩ := ((Node.publishes_announce key).bind_pure fun _ => ()).advance
    obtain rfl : rest = [] := (List.cons.inj hkeys).2.symm
    exact .publishes (hrest node now sent)
  | sweeps upkeep resolve =>
    refine .decides upkeep fun decided => ?_
    exact ((Node.publishes_perform resolve decided.2).bind_pure fun _ => decided.1).bind_pure _
  | decides upkeep hnext => exact .publishes (hnext _)
  | publishes hpublishes =>
    obtain ⟨rest, rfl, hrest⟩ := hpublishes.advance
    rw [later, Dialogue.isPublishing]
    cases hpublishing : dialogue.publishing? with
    | none => exact .publishes (hrest node now sent)
    | some key => exact .publishes (hrest node now sent)

theorem Meets.abandon (h : prospect.Meets dialogue) : prospect.Meets (Course.abandon dialogue) := by
  cases h with
  | announces key => exact .announces key
  | sweeps upkeep resolve => exact .sweeps upkeep resolve
  | decides upkeep hnext => exact .decides upkeep hnext
  | publishes hpublishes => exact .publishes hpublishes.abandon

/-- Nothing is left of an activity that has ended. -/
theorem Meets.left_eq_nil (h : prospect.Meets dialogue) (hdone : dialogue = .done ()) :
    prospect.left = [] := by
  cases h with
  | announces => exact nomatch hdone
  | sweeps | decides => rfl
  | publishes hpublishes =>
    rw [hdone] at hpublishes
    exact hpublishes

end Prospect

/-! ### Foresight -/

namespace Course

/-- Is an activity about to publish a key? -/
def isPublishing (course : Course) (index : Nat) : Bool :=
  course.activities[index]?.any Dialogue.isPublishing

/-- What is to be expected of the activities after something has happened. -/
def foresee (course : Course) (prospects : List Prospect) : Incident → List Prospect
  | .happens (.begin activity) => prospects ++ [.of activity]
  | .happens (.proceed index _) =>
    prospects.modify index
      (.later (course.node.records.due course.now) (course.isPublishing index))
  | _ => prospects

/-- What is to be expected of the activities after one thing after the other. -/
def foreseeAll (course : Course) (prospects : List Prospect) : List Incident → List Prospect
  | [] => prospects
  | incident :: incidents =>
    (course.undergo incident).foreseeAll (course.foresee prospects incident) incidents

/-- An activity that has ended has published all that was expected of it. -/
def Fulfilled (course : Course) (prospects : List Prospect) : Prop :=
  ∀ (index : Nat) (prospect : Prospect), prospects[index]? = some prospect →
    course.activities[index]? = some (.done ()) → prospect.left = []

/-- The activities are as they were expected. -/
structure Foreseen (course : Course) (prospects : List Prospect) : Prop where
  length_eq : prospects.length = course.activities.length
  meets : ∀ (index : Nat) (prospect : Prospect) (dialogue : Dialogue Unit),
    prospects[index]? = some prospect → course.activities[index]? = some dialogue →
      prospect.Meets dialogue

variable {course : Course} {prospects : List Prospect}

theorem foreseen_start (config : Config) (address : Endpoint) (draws : Draws) (now : Time) :
    (start config address draws now).Foreseen [] where
  length_eq := rfl
  meets index prospect dialogue hprospect := absurd hprospect (by simp)

theorem isPublishing_of_getElem? {index : Nat} {dialogue : Dialogue Unit}
    (h : course.activities[index]? = some dialogue) :
    course.isPublishing index = dialogue.isPublishing := by
  rw [isPublishing, h, Option.any_some]

/-- The key that an activity publishes if it goes on now is known ahead. -/
theorem Foreseen.publishing?_eq (h : course.Foreseen prospects) {index : Nat}
    {dialogue : Dialogue Unit} (hget : course.activities[index]? = some dialogue) :
    dialogue.publishing? = prospects[index]?.bind (·.publishes? (course.isPublishing index)) := by
  have hlt : index < prospects.length := by
    rw [h.length_eq]
    exact (List.getElem?_eq_some_iff.mp hget).1
  rw [List.getElem?_eq_getElem hlt, Option.bind_some, isPublishing_of_getElem? hget]
  exact (h.meets index _ dialogue (List.getElem?_eq_getElem hlt) hget).publishing?_eq

theorem Foreseen.fulfilled (h : course.Foreseen prospects) : course.Fulfilled prospects :=
  fun index prospect hprospect hdone =>
    (h.meets index prospect _ hprospect hdone).left_eq_nil rfl

/-- One activity has got further, and is as it is expected now. -/
theorem Foreseen.modify (h : course.Foreseen prospects) {index : Nat}
    {dialogue rest : Dialogue Unit} (hget : course.activities[index]? = some dialogue)
    (change : Prospect → Prospect)
    (hrest : ∀ prospect : Prospect, prospect.Meets dialogue → (change prospect).Meets rest)
    (node : Node) :
    Foreseen { course with node, activities := course.activities.set index rest }
      (prospects.modify index change) where
  length_eq := by simp [h.length_eq]
  meets other prospect found hprospect hfound := by
    rw [List.getElem?_modify] at hprospect
    rw [List.getElem?_set] at hfound
    obtain ⟨before, hbefore, rfl⟩ := Option.map_eq_some_iff.mp hprospect
    by_cases heq : index = other
    · subst heq
      rw [if_pos rfl, if_pos (List.getElem?_eq_some_iff.mp hget).1] at hfound
      obtain rfl := Option.some.inj hfound
      rw [if_pos rfl]
      exact hrest before (h.meets index before dialogue hbefore hget)
    · rw [if_neg heq] at hfound ⊢
      exact h.meets other before found hbefore hfound

/-- Another activity has begun, and is as it is expected. -/
theorem Foreseen.append (h : course.Foreseen prospects) {prospect : Prospect}
    {dialogue : Dialogue Unit} (hmeets : prospect.Meets dialogue) :
    Foreseen { course with activities := course.activities ++ [dialogue] }
      (prospects ++ [prospect]) where
  length_eq := by simp [h.length_eq]
  meets index found rest hfound hrest := by
    rw [List.getElem?_append] at hfound hrest
    rw [h.length_eq] at hfound
    split at hrest
    · next hlt =>
      rw [if_pos hlt] at hfound
      exact h.meets index found rest hfound hrest
    · next hge =>
      rw [if_neg hge, List.getElem?_singleton] at hfound
      rw [List.getElem?_singleton] at hrest
      split at hrest
      · next hlast =>
        rw [if_pos hlast] at hfound
        obtain rfl := Option.some.inj hfound
        obtain rfl := Option.some.inj hrest
        exact hmeets
      · exact absurd hrest (by simp)

/-- **Activities live up to what is expected of them**, whatever happens. -/
theorem Foreseen.undergo (h : course.Foreseen prospects) (incident : Incident) :
    (course.undergo incident).Foreseen (course.foresee prospects incident) := by
  cases incident with
  | shutdown => exact ⟨h.length_eq, h.meets⟩
  | happens happening =>
    cases happening with
    | begin activity => exact h.append (Prospect.meets_of activity)
    | proceed index sent =>
      rw [Course.undergo, perform, foresee]
      cases hget : course.activities[index]? with
      | none =>
        have hge : prospects.length ≤ index := by
          rw [h.length_eq]
          exact List.getElem?_eq_none_iff.mp hget
        rw [List.modify_eq_self hge]
        exact h
      | some dialogue =>
        rw [isPublishing_of_getElem? hget]
        exact h.modify hget _ (fun _ hmeets => hmeets.advance course.node course.now sent) _
    | giveUp index =>
      show (course.perform (.giveUp index)).Foreseen prospects
      rw [perform]
      cases hget : course.activities[index]? with
      | none => exact h
      | some dialogue =>
        have hnext := h.modify hget id (fun _ hmeets => hmeets.abandon) course.node
        rwa [List.modify_id] at hnext
    | _ => exact ⟨h.length_eq, h.meets⟩

theorem Foreseen.live (h : course.Foreseen prospects) (incidents : List Incident) :
    (course.live incidents).Foreseen (course.foreseeAll prospects incidents) := by
  induction incidents generalizing course prospects with
  | nil => exact h
  | cons incident incidents ih => exact ih (h.undergo incident)

end Course

end Kademlia
