import Kademlia.Proofs.Node.Attendance
import Kademlia.Proofs.Node.Publishers

/-!
# Kademlia.Proofs.Node.Lasting

Facts about a node that last: once they are so, nothing that happens later changes it
(`Node.Lasting`). What an activity brings about, while anything else may happen to the node between
any two parts of it, has to be such a fact to be there at its end.

`Dialogue.Brings` says of a dialogue that it takes a step which brings a fact about, whichever way
it goes. Its laws follow the way in which dialogues are put together, and `Attended.brought` carries
it over to every life: when the activity has ended, the fact is there.
-/

namespace Kademlia

namespace Node

/-- From an instant on, the fact stays once it is there. -/
def Lasting (since : Time) (Fact : Node → Prop) : Prop :=
  ∀ now node next, since ≤ now → Node.Turns now node next → Fact node → Fact next

/-- What all turns keep lasts from any instant on. -/
theorem lasting_of_turns {Keeps : Node → Prop}
    (h : ∀ now node next, Node.Turns now node next → Keeps node → Keeps next) (since : Time) :
    Lasting since Keeps :=
  fun now node next _ => h now node next

/-! ### Records -/

variable {now : Time} {node next : Node}

theorem OwnStep.follows (h : node.OwnStep now next) :
    ∃ made, node.records.Follows now made next.records := by
  cases h with
  | look => exact ⟨[], .rest⟩
  | touch target => exact ⟨[], .rest⟩
  | publish key => exact ⟨_, .publish key node.asPublisher⟩
  | sweep => exact ⟨[], .sweep⟩
  | draw upkeep => exact ⟨[], .rest⟩

/-- **What happens to the records** in any turn of a node: nothing, a sweep, or a single store. -/
theorem Turns.follows (h : node.Turns now next) :
    ∃ made, node.records.Follows now made next.records := by
  have htended : ∀ {after : Node}, node.Tended after →
      ∃ made, node.records.Follows now made after.records := fun hafter =>
    ⟨[], hafter.records ▸ .rest⟩
  cases h with
  | shutdown => exact ⟨[], .rest⟩
  | moves hmove =>
    cases hmove with
    | rest => exact ⟨[], .rest⟩
    | receive packet source lost =>
      exact ⟨_, Course.follows_receive ⟨node, now, []⟩ node.asPublisher [] packet source lost⟩
    | addContact contact lost =>
      exact htended ((node.tended_addContact contact now).trans (tended_afterSending lost _))
    | tick lost => exact htended (node.tended_tick now lost)
    | own hstep => exact hstep.follows
    | opened hstart => exact htended (tended_startRequest hstart)
    | withdrawn hstart => exact htended ((tended_startRequest hstart).trans (tended_with ..))
    | polled handle => exact ⟨[], .rest⟩

end Node

/-! ### Activities that bring a fact about -/

namespace Dialogue

variable {α β : Type} {sees Fact : Node → Prop} {since : Time} {dialogue : Dialogue α}

/-- Whichever way the dialogue goes from an instant on, it takes a step that leaves the fact behind.
It may rely on what it sees of the node. -/
inductive Brings {α : Type} (sees : Node → Prop) (since : Time) (Fact : Node → Prop) :
    Dialogue α → Prop where
  | here {β : Type} {deed : Node.Deed β} {next : β → Dialogue α}
    (h : ∀ node now, sees node → since ≤ now → Fact (deed.perform node now).2) :
    Brings sees since Fact (.step deed next)
  | step {β : Type} {deed : Node.Deed β} {next : β → Dialogue α}
    (h : ∀ node now, sees node → since ≤ now →
      Brings sees since Fact (next (deed.perform node now).1)) :
    Brings sees since Fact (.step deed next)
  | request {destination : Endpoint} {asked : Request}
    {next : Except RequestError Handle → Dialogue α}
    (h : ∀ result, Brings sees since Fact (next result)) :
    Brings sees since Fact (.request destination asked next)
  | await {handle : Handle} {next : Outcome → Dialogue α}
    (h : ∀ outcome, Brings sees since Fact (next outcome)) :
    Brings sees since Fact (.await handle next)

theorem Brings.bind (h : dialogue.Brings sees since Fact) (next : α → Dialogue β) :
    (dialogue >>= next).Brings sees since Fact := by
  show (dialogue.bind next).Brings sees since Fact
  induction h with
  | here h => exact .here h
  | step _ ih => exact .step fun node now hsees hnow => ih node now hsees hnow
  | request _ ih => exact .request fun result => ih result
  | await _ ih => exact .await fun outcome => ih outcome

/-- What comes later may bring the fact about. -/
theorem brings_bind {next : α → Dialogue β} (h : ∀ value, (next value).Brings sees since Fact)
    (dialogue : Dialogue α) : (dialogue >>= next).Brings sees since Fact := by
  show (dialogue.bind next).Brings sees since Fact
  induction dialogue with
  | done value => exact h value
  | step deed rest ih => exact .step fun node now _ _ => ih _
  | request destination asked rest ih => exact .request fun result => ih result
  | await handle rest ih => exact .await fun outcome => ih outcome

theorem brings_look {view : Node → Time → α} {next : α → Dialogue β}
    (h : ∀ node now, sees node → (next (view node now)).Brings sees since Fact) :
    (look view >>= next).Brings sees since Fact :=
  .step fun node now hsees _ => h node now hsees

theorem brings_each {act : α → Dialogue Unit} {items : List α} {item : α} (hitem : item ∈ items)
    (h : (act item).Brings sees since Fact) : (each act items).Brings sees since Fact := by
  induction items with
  | nil => exact absurd hitem List.not_mem_nil
  | cons first rest ih =>
    rcases List.mem_cons.mp hitem with rfl | hrest
    · exact h.bind _
    · exact brings_bind (fun _ => ih hrest) (act first)

end Dialogue

namespace Attended

variable {α : Type} {state : Attended α} {sees Fact : Node → Prop} {since : Time}

/-- What is not the activity's doing leaves it where it is. -/
theorem dialogue_run_other (state : Attended α) (incidents : List Incident) :
    (state.run (incidents.map .other)).dialogue = state.dialogue := by
  induction incidents generalizing state with
  | nil => rfl
  | cons incident incidents ih => exact ih (state.perform (.other incident))

theorem now_le_perform (state : Attended α) (beat : Beat) :
    state.course.now ≤ (state.perform beat).course.now := by
  cases beat with
  | other incident => exact state.course.now_le_undergo incident
  | proceed sent => exact Nat.le_refl _
  | giveUp => exact Nat.le_refl _

/-- A lasting fact is there in the end. -/
theorem run_lasting (hlasting : Node.Lasting since Fact) (hnow : since ≤ state.course.now)
    (h : Fact state.course.node) (beats : List Beat) : Fact (state.run beats).course.node := by
  induction beats generalizing state with
  | nil => exact h
  | cons beat beats ih =>
    have hlater := Nat.le_trans hnow (state.now_le_perform beat)
    exact ih hlater (hlasting _ _ _ hnow (state.turns_perform beat) h)

/-- A part of an activity that is to bring a fact about brings it about, or leaves that to the
rest. -/
theorem brings_perform (hsees : sees state.course.node) (hnow : since ≤ state.course.now)
    (h : state.dialogue.Brings sees since Fact) (beat : Beat) :
    (state.perform beat).dialogue.Brings sees since Fact ∨
      Fact (state.perform beat).course.node := by
  obtain ⟨course, dialogue, asked, heard⟩ := state
  cases beat with
  | other incident => exact .inl h
  | giveUp =>
    cases h with
    | here h => exact .inl (.here h)
    | step h => exact .inl (.step h)
    | request h => exact .inl (.request h)
    | await h => exact .inl (h _)
  | proceed sent =>
    cases h with
    | here h => exact .inr (h course.node course.now hsees hnow)
    | step h => exact .inl (h course.node course.now hsees hnow)
    | request h => exact .inl (h _)
    | @await handle next h =>
      rcases hpoll : course.node.poll handle with ⟨polled, outcome | outcome⟩
      · simp only [perform, Course.advance, hpoll]
        exact .inl (.await h)
      · simp only [perform, Course.advance, hpoll]
        exact .inl (h outcome)

/-- **What an activity brings about is there when it has ended**, if it is a fact that lasts. -/
theorem brought (hfact : Node.Lasting since Fact) (hlasting : Node.Lasting since sees)
    (hnow : since ≤ state.course.now) (hsees : sees state.course.node)
    (h : state.dialogue.Brings sees since Fact) (beats : List Beat) {value : α}
    (hresult : (state.run beats).dialogue.result? = some value) :
    Fact (state.run beats).course.node := by
  induction beats generalizing state with
  | nil =>
    obtain ⟨course, dialogue, asked, heard⟩ := state
    cases h <;> exact absurd hresult (by simp [run, Dialogue.result?])
  | cons beat beats ih =>
    have hlater := Nat.le_trans hnow (state.now_le_perform beat)
    rcases brings_perform hsees hnow h beat with hnext | hbrought
    · exact ih hlater (hlasting _ _ _ hnow (state.turns_perform beat) hsees) hnext hresult
    · exact run_lasting hfact hlater hbrought beats

end Attended

end Kademlia
