import Kademlia.Proofs.Node.Course

/-!
# Kademlia.Proofs.Node.Awaiting

What activities wait for. An outcome is handed out once, so whoever waited for the outcome of a
request that is not his own would take it from somebody. No activity does: whatever it is answered,
it waits for the outcomes of requests that it has sent itself (`Activity.awaitsOwn_dialogue`).

`Dialogue.AwaitsOwn` follows the handles through a dialogue. A handle comes in where a request is
sent and may be kept for long, so the laws for putting dialogues together speak of the handles that
were given out up to then and of any that come later.
-/

namespace Kademlia

namespace Dialogue

/-- Whatever is answered, a dialogue waits only for outcomes under the handles of `own`, and under
those that it gets for requests of its own. -/
def AwaitsOwn {α : Type} : Dialogue α → (Handle → Prop) → Prop
  | .done _, _ => True
  | .step _ next, own => ∀ seen, (next seen).AwaitsOwn own
  | .request _ _ next, own =>
    ∀ result, (next result).AwaitsOwn fun handle => own handle ∨ result = .ok handle
  | .await handle next, own => own handle ∧ ∀ outcome, (next outcome).AwaitsOwn own

variable {α β : Type} {dialogue : Dialogue α} {own : Handle → Prop}

/-! ### Laws -/

theorem AwaitsOwn.mono (h : dialogue.AwaitsOwn own) {more : Handle → Prop}
    (hmore : ∀ handle, own handle → more handle) : dialogue.AwaitsOwn more := by
  induction dialogue generalizing own more with
  | done value => trivial
  | step deed rest ih => exact fun seen => ih seen (h seen) hmore
  | request destination asked rest ih =>
    exact fun result => ih result (h result) fun handle => Or.imp_left (hmore handle)
  | await handle rest ih => exact ⟨hmore handle h.1, fun outcome => ih outcome (h.2 outcome) hmore⟩

theorem AwaitsOwn.bind (h : dialogue.AwaitsOwn own) {next : α → Dialogue β}
    (hnext : ∀ value more, (∀ handle, own handle → more handle) → (next value).AwaitsOwn more) :
    (dialogue >>= next).AwaitsOwn own := by
  show (dialogue.bind next).AwaitsOwn own
  induction dialogue generalizing own with
  | done value => exact hnext value own fun _ hown => hown
  | step deed rest ih => exact fun seen => ih seen (h seen) hnext
  | request destination asked rest ih =>
    intro result
    refine ih result (h result) fun value more hmore => ?_
    exact hnext value more fun handle hown => hmore handle (.inl hown)
  | await handle rest ih => exact ⟨h.1, fun outcome => ih outcome (h.2 outcome) hnext⟩

theorem awaitsOwn_pure (value : α) (own : Handle → Prop) :
    (pure value : Dialogue α).AwaitsOwn own := trivial

theorem awaitsOwn_does (deed : Node.Deed α) (own : Handle → Prop) :
    (does deed).AwaitsOwn own := fun _ => trivial

theorem awaitsOwn_outcome {handle : Handle} (h : own handle) : (outcome handle).AwaitsOwn own :=
  ⟨h, fun _ => trivial⟩

/-- What goes on with a handle may wait for its outcome. -/
theorem awaitsOwn_send {destination : Endpoint} {asked : Request}
    {next : Except RequestError Handle → Dialogue α}
    (h : ∀ result, (next result).AwaitsOwn fun handle => own handle ∨ result = .ok handle) :
    (send destination asked >>= next).AwaitsOwn own := h

theorem awaitsOwn_sendAll {asked : Request} {destinations : List Endpoint}
    {next : List Handle → Dialogue α}
    (h : ∀ handles more, (∀ handle, own handle → more handle) → (∀ handle ∈ handles, more handle) →
      (next handles).AwaitsOwn more) : (sendAll asked destinations >>= next).AwaitsOwn own := by
  show ((sendAll asked destinations).bind next).AwaitsOwn own
  induction destinations generalizing own next with
  | nil => exact h [] own (fun _ hown => hown) (List.forall_mem_nil _)
  | cons destination rest ih =>
    intro sent
    show (((sendAll asked rest).bind _).bind next).AwaitsOwn _
    rw [bind_assoc]
    refine ih fun handles more hmore hhandles => ?_
    have hown : ∀ handle, own handle → more handle := fun handle hown => hmore handle (.inl hown)
    cases sent with
    | ok handle =>
      have hhandle : more handle := hmore handle (.inr rfl)
      exact h (handle :: handles) more hown (List.forall_mem_cons.mpr ⟨hhandle, hhandles⟩)
    | error error => exact h handles more hown hhandles

theorem awaitsOwn_outcomes {handles : List Handle} (h : ∀ handle ∈ handles, own handle) :
    (outcomes handles).AwaitsOwn own := by
  induction handles generalizing own with
  | nil => exact awaitsOwn_pure _ _
  | cons handle rest ih =>
    obtain ⟨hhandle, hrest⟩ := List.forall_mem_cons.mp h
    refine (awaitsOwn_outcome hhandle).bind fun _ more hmore => ?_
    exact (ih fun other hother => hmore other (hrest other hother)).bind fun _ _ _ =>
      awaitsOwn_pure _ _

theorem awaitsOwn_each {act : α → Dialogue Unit} (h : ∀ item own, (act item).AwaitsOwn own)
    (items : List α) (own : Handle → Prop) : (each act items).AwaitsOwn own := by
  induction items generalizing own with
  | nil => exact awaitsOwn_pure _ _
  | cons item rest ih => exact (h item own).bind fun _ more _ => ih more

end Dialogue

/-! ### What nodes do -/

namespace Node

open Dialogue

variable {own : Handle → Prop}

theorem awaitsOwn_gatherRound (self : Id) {handles : List Handle}
    (h : ∀ handle ∈ handles, own handle) (query : Query) :
    (gatherRound self handles query).AwaitsOwn own := by
  induction handles generalizing own query with
  | nil => exact awaitsOwn_pure _ _
  | cons handle rest ih =>
    obtain ⟨hhandle, hrest⟩ := List.forall_mem_cons.mp h
    refine (awaitsOwn_outcome hhandle).bind fun outcome more hmore => ?_
    cases query.takeIn self outcome with
    | goOn query => exact ih (fun other hother => hmore other (hrest other hother)) query
    | found publishers => exact awaitsOwn_pure _ _

theorem awaitsOwn_runRounds (self : Id) (asked : Request) (rounds : Nat) (query : Query)
    (own : Handle → Prop) : (runRounds self asked rounds query).AwaitsOwn own := by
  induction rounds generalizing query own with
  | zero => exact awaitsOwn_pure _ _
  | succ rounds ih =>
    rw [runRounds]
    split
    · exact awaitsOwn_pure _ _
    · refine awaitsOwn_sendAll fun handles more _ hhandles => ?_
      refine (awaitsOwn_gatherRound self hhandles _).bind fun round later _ => ?_
      cases round with
      | goOn query => exact ih query later
      | found publishers => exact awaitsOwn_pure _ _

theorem awaitsOwn_lookup (target : Id) (asked : Request) (own : Handle → Prop) :
    (lookup target asked).AwaitsOwn own := by
  unfold lookup
  -- The number is too big to be looked into, and nothing here depends on it.
  generalize maxRounds = rounds
  refine (awaitsOwn_does _ _).bind fun self more _ => ?_
  exact (awaitsOwn_does _ more).bind fun query later _ => awaitsOwn_runRounds _ _ _ _ later

theorem awaitsOwn_lookupNode (target : Id) (own : Handle → Prop) :
    (lookupNode target).AwaitsOwn own := by
  refine (awaitsOwn_lookup target _ own).bind fun finding _ _ => ?_
  cases finding <;> exact awaitsOwn_pure _ _

theorem awaitsOwn_findValue (key : Id) (own : Handle → Prop) : (findValue key).AwaitsOwn own := by
  refine (awaitsOwn_does _ own).bind fun known more _ => ?_
  cases known with
  | nil =>
    refine (awaitsOwn_lookup key _ more).bind fun finding _ _ => ?_
    cases finding <;> exact awaitsOwn_pure _ _
  | cons publisher publishers => exact awaitsOwn_pure _ _

theorem awaitsOwn_ping (destination : Endpoint) (own : Handle → Prop) :
    (ping destination).AwaitsOwn own := by
  refine awaitsOwn_send fun sent => ?_
  cases sent with
  | error error => exact awaitsOwn_pure _ _
  | ok handle =>
    refine (awaitsOwn_outcome (.inr rfl)).bind fun outcome _ _ => ?_
    cases outcome <;> exact awaitsOwn_pure _ _

theorem awaitsOwn_storeAt (contacts : List Contact) (key : Id) (publisher : Contact)
    (own : Handle → Prop) : (storeAt contacts key publisher).AwaitsOwn own :=
  awaitsOwn_sendAll fun _ _ _ hhandles =>
    (awaitsOwn_outcomes hhandles).bind fun _ _ _ => awaitsOwn_pure _ _

theorem awaitsOwn_announce (key : Id) (own : Handle → Prop) : (announce key).AwaitsOwn own := by
  refine (awaitsOwn_does _ own).bind fun publisher more _ => ?_
  exact (awaitsOwn_lookupNode key more).bind fun contacts later _ =>
    awaitsOwn_storeAt contacts key publisher later

theorem awaitsOwn_join (resolve : Resolver) (own : Handle → Prop) :
    (join resolve).AwaitsOwn own := by
  refine (awaitsOwn_does _ own).bind fun seen _ _ => ?_
  refine awaitsOwn_sendAll fun handles _ _ hhandles => ?_
  refine (awaitsOwn_outcomes hhandles).bind fun _ more _ => ?_
  exact (awaitsOwn_lookupNode _ more).bind fun _ _ _ => awaitsOwn_pure _ _

theorem awaitsOwn_replicate (key : Id) (own : Handle → Prop) : (replicate key).AwaitsOwn own := by
  refine (awaitsOwn_does _ own).bind fun publishers more _ => ?_
  cases publishers with
  | nil => exact awaitsOwn_pure _ _
  | cons publisher publishers =>
    refine (awaitsOwn_lookupNode key more).bind fun contacts later _ => ?_
    refine awaitsOwn_each (fun publisher own => ?_) _ later
    exact (awaitsOwn_storeAt contacts key publisher own).bind fun _ _ _ => awaitsOwn_pure _ _

theorem awaitsOwn_perform (resolve : Resolver) (duties : Duties) (own : Handle → Prop) :
    (perform resolve duties).AwaitsOwn own := by
  have hrest : ∀ own, (do
      each (fun target => do let _ ← lookupNode target) duties.refresh
      each replicate duties.replicate
      each (fun key => do let _ ← announce key) duties.republish).AwaitsOwn own := by
    intro own
    refine (awaitsOwn_each (fun target own => ?_) _ own).bind fun _ more _ => ?_
    · exact (awaitsOwn_lookupNode target own).bind fun _ _ _ => awaitsOwn_pure _ _
    · refine (awaitsOwn_each awaitsOwn_replicate _ more).bind fun _ later _ => ?_
      refine awaitsOwn_each (fun key own => ?_) _ later
      exact (awaitsOwn_announce key own).bind fun _ _ _ => awaitsOwn_pure _ _
  refine (awaitsOwn_does _ own).bind fun bootstrap more _ => ?_
  dsimp only
  split
  · exact (awaitsOwn_join resolve more).bind fun _ later _ => hrest later
  · exact hrest more

theorem awaitsOwn_maintain (upkeep : Upkeep) (resolve : Resolver) (own : Handle → Prop) :
    (maintain upkeep resolve).AwaitsOwn own := by
  refine Dialogue.AwaitsOwn.bind (awaitsOwn_does _ own) fun _ more _ => ?_
  refine (awaitsOwn_does _ more).bind fun decided later _ => ?_
  exact (awaitsOwn_perform resolve decided.2 later).bind fun _ _ _ => awaitsOwn_pure _ _

end Node

open Dialogue in
theorem Activity.awaitsOwn_dialogue (activity : Activity) (own : Handle → Prop) :
    activity.dialogue.AwaitsOwn own := by
  cases activity with
  | request destination asked awaited =>
    refine awaitsOwn_send fun sent => ?_
    cases sent with
    | error error => exact awaitsOwn_pure _ _
    | ok handle =>
      cases awaited with
      | false => exact awaitsOwn_pure _ _
      | true => exact (awaitsOwn_outcome (.inr rfl)).bind fun _ _ _ => awaitsOwn_pure _ _
  | ping destination =>
    exact (Node.awaitsOwn_ping destination own).bind fun _ _ _ => awaitsOwn_pure _ _
  | lookupNode target =>
    exact (Node.awaitsOwn_lookupNode target own).bind fun _ _ _ => awaitsOwn_pure _ _
  | findValue key => exact (Node.awaitsOwn_findValue key own).bind fun _ _ _ => awaitsOwn_pure _ _
  | announce key => exact (Node.awaitsOwn_announce key own).bind fun _ _ _ => awaitsOwn_pure _ _
  | join resolve => exact Node.awaitsOwn_join resolve own
  | maintain upkeep resolve =>
    exact (Node.awaitsOwn_maintain upkeep resolve own).bind fun _ _ _ => awaitsOwn_pure _ _

theorem Course.awaitsOwn_abandon {α : Type} {dialogue : Dialogue α} {own : Handle → Prop}
    (h : dialogue.AwaitsOwn own) : (Course.abandon dialogue).AwaitsOwn own := by
  cases dialogue with
  | await handle next => exact h.2 _
  | _ => exact h

end Kademlia
