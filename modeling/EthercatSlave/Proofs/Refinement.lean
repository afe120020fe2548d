import Mathlib.Init

/-! A component that answers one request after another, and a realisation of it
that may be undetermined in what the component does not speak of. A refinement
is shown for one request; runs follow by induction. -/

namespace EthercatSlave

variable {Action Answer S C : Type}

/-- Serves these actions in order. -/
def serveAll (serve : Action → S → Answer × S) : List Action → S → List Answer × S
  | [], state => ([], state)
  | action :: actions, state =>
    let (answer, following) := serve action state
    let (answers, final) := serveAll serve actions following
    (answer :: answers, final)

/-- One run of a realisation, with the answers it gave. -/
inductive Performed (performs : Action → C → Answer → C → Prop) : List Action → C → List Answer → C → Prop where
  | nil {state : C} : Performed performs [] state [] state
  | cons {action : Action} {actions : List Action} {before middle after : C} {answer : Answer} {answers : List Answer} :
      performs action before answer middle → Performed performs actions middle answers after →
      Performed performs (action :: actions) before (answer :: answers) after

/-- Every action of the realisation has a run and does to the view what the
component does. -/
structure Refinement (serve : Action → S → Answer × S) (performs : Action → C → Answer → C → Prop) where
  valid : C → Prop
  view : C → S
  ready : ∀ action before, valid before → ∃ answer after, performs action before answer after
  exact : ∀ {action before answer after}, valid before → performs action before answer after →
    valid after ∧ (answer, view after) = serve action (view before)

namespace Refinement

variable {serve : Action → S → Answer × S} {performs : Action → C → Answer → C → Prop}
  (refinement : Refinement serve performs) {actions : List Action} {before after : C} {answers : List Answer}

theorem performed_exact (valid : refinement.valid before) (ran : Performed performs actions before answers after) :
    refinement.valid after ∧ (answers, refinement.view after) = serveAll serve actions (refinement.view before) := by
  induction ran with
  | nil => exact ⟨valid, rfl⟩
  | cons first _ ih =>
    have ⟨kept, served⟩ := refinement.exact valid first
    have ⟨last, rest⟩ := ih kept
    refine ⟨last, ?_⟩
    rw [serveAll, ← served]
    dsimp only
    rw [← rest]

/-- No sequence of actions leaves the realisation without a run. -/
theorem performed_ready (valid : refinement.valid before) (actions : List Action) :
    ∃ answers after, Performed performs actions before answers after := by
  induction actions generalizing before with
  | nil => exact ⟨[], before, .nil⟩
  | cons action actions ih =>
    obtain ⟨answer, middle, first⟩ := refinement.ready action before valid
    obtain ⟨answers, after, rest⟩ := ih (refinement.exact valid first).1
    exact ⟨answer :: answers, after, .cons first rest⟩

end Refinement
end EthercatSlave
