import Kademlia.Proofs.Node.Attendance

/-!
# Kademlia.Proofs.Node.Ending

The ways in which an activity may end. `Dialogue.Ends` follows one branch of a dialogue to its
value, with the requests sent and the outcomes heard on the way. A dialogue that is made of two ends
as the first does and then as the second (`Ends.of_bind`), so how an activity may end is read off
its definition, part by part.

Whenever an activity that is attended to has ended, it did so in one of these ways, and saw no
states of the node but those of its life (`Attended.ends_of_result`).
-/

namespace Kademlia

namespace Dialogue

/-- A dialogue may end with the value, after it has sent the requests and heard the outcomes, if it
sees nothing but what may be seen of the node. -/
inductive Ends {α : Type} (sees : Node → Time → Prop) :
    Dialogue α → List (Endpoint × Request) → List Outcome → α → Prop where
  | done (value : α) : Ends sees (.done value) [] [] value
  | step {β : Type} {deed : Node.Deed β} {next : β → Dialogue α} {node : Node}
      {now : Time} {asked : List (Endpoint × Request)} {heard : List Outcome} {value : α}
      (hsees : sees node now) (h : Ends sees (next (deed.perform node now).1) asked heard value) :
      Ends sees (.step deed next) asked heard value
  | request {destination : Endpoint} {request : Request}
      {next : Except RequestError Handle → Dialogue α} (result : Except RequestError Handle)
      {asked : List (Endpoint × Request)} {heard : List Outcome} {value : α}
      (h : Ends sees (next result) asked heard value) :
      Ends sees (.request destination request next) ((destination, request) :: asked) heard value
  | await {handle : Handle} {next : Outcome → Dialogue α} (outcome : Outcome)
      {asked : List (Endpoint × Request)} {heard : List Outcome} {value : α}
      (h : Ends sees (next outcome) asked heard value) :
      Ends sees (.await handle next) asked (outcome :: heard) value

variable {α β : Type} {sees : Node → Time → Prop} {dialogue : Dialogue α}
  {asked : List (Endpoint × Request)} {heard : List Outcome}

/-! ### Parts of a dialogue -/

/-- The first of two dialogues ends, and then the second. -/
theorem Ends.of_bind {next : α → Dialogue β} {value : β}
    (h : (dialogue >>= next).Ends sees asked heard value) :
    ∃ first asked₁ heard₁ asked₂ heard₂, asked = asked₁ ++ asked₂ ∧ heard = heard₁ ++ heard₂ ∧
      dialogue.Ends sees asked₁ heard₁ first ∧ (next first).Ends sees asked₂ heard₂ value := by
  change (dialogue.bind next).Ends sees asked heard value at h
  induction dialogue generalizing asked heard with
  | done first => exact ⟨first, [], [], asked, heard, rfl, rfl, .done first, h⟩
  | step deed rest ih =>
    cases h with
    | step hsees h =>
      obtain ⟨first, asked₁, heard₁, asked₂, heard₂, rfl, rfl, hfirst, hrest⟩ := ih _ h
      exact ⟨first, asked₁, heard₁, asked₂, heard₂, rfl, rfl, .step hsees hfirst, hrest⟩
  | request destination request rest ih =>
    cases h with
    | request result h =>
      obtain ⟨first, asked₁, heard₁, asked₂, heard₂, rfl, rfl, hfirst, hrest⟩ := ih result h
      exact ⟨first, _ :: asked₁, heard₁, asked₂, heard₂, rfl, rfl, .request result hfirst, hrest⟩
  | await handle rest ih =>
    cases h with
    | await outcome h =>
      obtain ⟨first, asked₁, heard₁, asked₂, heard₂, rfl, rfl, hfirst, hrest⟩ := ih outcome h
      exact ⟨first, asked₁, outcome :: heard₁, asked₂, heard₂, rfl, rfl, .await outcome hfirst,
        hrest⟩

theorem Ends.of_pure {value last : α} (h : (pure value : Dialogue α).Ends sees asked heard last) :
    asked = [] ∧ heard = [] ∧ last = value := by
  change (Dialogue.done value).Ends sees asked heard last at h
  cases h with
  | done => exact ⟨rfl, rfl, rfl⟩

theorem Ends.of_does {deed : Node.Deed α} {next : α → Dialogue β} {value : β}
    (h : (does deed >>= next).Ends sees asked heard value) :
    ∃ node now, sees node now ∧ (next (deed.perform node now).1).Ends sees asked heard value := by
  change (Dialogue.step deed next).Ends sees asked heard value at h
  cases h with
  | step hsees h => exact ⟨_, _, hsees, h⟩

theorem Ends.of_look {view : Node → Time → α} {next : α → Dialogue β} {value : β}
    (h : (look view >>= next).Ends sees asked heard value) :
    ∃ node now, sees node now ∧ (next (view node now)).Ends sees asked heard value :=
  Ends.of_does h

theorem Ends.of_outcome {handle : Handle} {next : Outcome → Dialogue α} {value : α}
    (h : (outcome handle >>= next).Ends sees asked heard value) :
    ∃ first rest, heard = first :: rest ∧ (next first).Ends sees asked rest value := by
  change (Dialogue.await handle next).Ends sees asked heard value at h
  cases h with
  | await first h => exact ⟨first, _, rfl, h⟩

/-- Every destination is sent a request, and no outcome is waited for. -/
theorem Ends.of_sendAll {request : Request} {destinations : List Endpoint} {handles : List Handle}
    (h : (sendAll request destinations).Ends sees asked heard handles) :
    asked = destinations.map (·, request) ∧ heard = [] := by
  induction destinations generalizing asked heard handles with
  | nil =>
    obtain ⟨rfl, rfl, -⟩ := h.of_pure
    exact ⟨rfl, rfl⟩
  | cons destination rest ih =>
    obtain ⟨sent, _, _, _, _, rfl, rfl, hsent, h⟩ := h.of_bind
    obtain ⟨others, _, _, _, _, rfl, rfl, hothers, hlast⟩ := h.of_bind
    obtain ⟨rfl, rfl⟩ := ih hothers
    cases hsent with
    | request result hdone =>
      cases hdone
      cases sent with
      | ok handle =>
        obtain ⟨rfl, rfl, -⟩ := hlast.of_pure
        simp
      | error error =>
        obtain ⟨rfl, rfl, -⟩ := hlast.of_pure
        simp

end Dialogue

/-! ### Lives -/

namespace Attended

open Dialogue

variable {α : Type} {sees : Node → Time → Prop} {state : Attended α}

/-- The node was in the state at the instant, at some moment of the life. -/
def Saw (begun : Attended α) (beats : List Beat) (node : Node) (now : Time) : Prop :=
  ∃ before, before <+: beats ∧ (begun.run before).course.node = node ∧
    (begun.run before).course.now = now

/-- What an activity does before something happens comes before what it does after it. -/
theorem ends_perform {beat : Beat} (hsees : sees state.course.node state.course.now)
    {asked : List (Endpoint × Request)} {heard : List Outcome} {value : α}
    (h : (state.perform beat).dialogue.Ends sees asked heard value) :
    ∃ asked₁ heard₁, (state.perform beat).asked = state.asked ++ asked₁ ∧
      (state.perform beat).heard = state.heard ++ heard₁ ∧
      state.dialogue.Ends sees (asked₁ ++ asked) (heard₁ ++ heard) value := by
  obtain ⟨course, dialogue, sent, told⟩ := state
  cases beat with
  | other incident => exact ⟨[], [], by simp [perform], by simp [perform], h⟩
  | proceed succeeds =>
    cases dialogue with
    | done last => exact ⟨[], [], by simp [perform, asks], by simp [perform, hears], h⟩
    | step deed next =>
      exact ⟨[], [], by simp [perform, asks], by simp [perform, hears], .step hsees h⟩
    | request destination request next =>
      exact ⟨[(destination, request)], [], rfl, by simp [perform, hears], .request _ h⟩
    | await handle next =>
      simp only [perform, asks, hears, List.append_nil] at h ⊢
      rw [Course.advance] at h
      rcases hpoll : course.node.poll handle with ⟨polled, outcome | outcome⟩ <;> rw [hpoll] at h
      · exact ⟨[], [], by simp, by simp, h⟩
      · exact ⟨[], [outcome], by simp, rfl, .await outcome h⟩
  | giveUp =>
    cases dialogue with
    | await handle next => exact ⟨[], [.failed .timeout], by simp [perform], rfl, .await _ h⟩
    | _ => exact ⟨[], [], by simp [perform], by simp [perform, presumes], h⟩

theorem ends_run (beats : List Beat) {value : α}
    (hsees : ∀ before, before <+: beats →
      sees (state.run before).course.node (state.run before).course.now)
    (hresult : (state.run beats).dialogue.result? = some value) :
    ∃ asked heard, (state.run beats).asked = state.asked ++ asked ∧
      (state.run beats).heard = state.heard ++ heard ∧
      state.dialogue.Ends sees asked heard value := by
  induction beats generalizing state with
  | nil =>
    obtain ⟨course, dialogue, sent, told⟩ := state
    cases dialogue with
    | done last =>
      obtain rfl : last = value := Option.some.inj hresult
      exact ⟨[], [], (List.append_nil _).symm, (List.append_nil _).symm, .done last⟩
    | _ => exact absurd hresult (by simp [run, result?])
  | cons beat beats ih =>
    have hlater : ∀ before, before <+: beats →
        sees ((state.perform beat).run before).course.node
          ((state.perform beat).run before).course.now := fun before hbefore =>
      hsees (beat :: before) ((List.prefix_cons_inj beat).mpr hbefore)
    obtain ⟨asked, heard, hasked, hheard, hends⟩ := ih hlater hresult
    have hsees : sees state.course.node state.course.now := hsees [] List.nil_prefix
    obtain ⟨asked₁, heard₁, hasked₁, hheard₁, hends⟩ := ends_perform hsees hends
    refine ⟨asked₁ ++ asked, heard₁ ++ heard, hasked.trans ?_, hheard.trans ?_, hends⟩
    · rw [hasked₁, List.append_assoc]
    · rw [hheard₁, List.append_assoc]

/-- **An activity that has ended** did so in one of the ways in which its dialogue may end, and saw
the node at moments of its life. -/
theorem ends_of_result {course : Course} {dialogue : Dialogue α} {beats : List Beat} {value : α}
    (hresult : ((start course dialogue).run beats).dialogue.result? = some value) :
    dialogue.Ends ((start course dialogue).Saw beats) ((start course dialogue).run beats).asked
      ((start course dialogue).run beats).heard value := by
  have hsaw : ∀ before, before <+: beats →
      (start course dialogue).Saw beats ((start course dialogue).run before).course.node
        ((start course dialogue).run before).course.now :=
    fun before hbefore => ⟨before, hbefore, rfl, rfl⟩
  obtain ⟨asked, heard, hasked, hheard, hends⟩ := ends_run beats hsaw hresult
  rw [hasked, hheard]
  exact hends

end Attended

end Kademlia
