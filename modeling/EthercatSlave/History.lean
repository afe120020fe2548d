import Mathlib.Data.List.Infix

/-! Histories: what holds at every event of a list, given the events before it. -/

namespace EthercatSlave

variable {α : Type} {log more : List α} {event : α} {holds : List α → α → Prop}

/-- Every event meets a condition on what came before it. -/
def Throughout (holds : List α → α → Prop) (log : List α) : Prop :=
  ∀ earlier event later, log = earlier ++ event :: later → holds earlier event

/-- A list cut in front of one of its elements, where the last one is new. -/
theorem split_snoc {earlier later : List α} {cut : α} (split : log ++ [event] = earlier ++ cut :: later) :
    (earlier = log ∧ cut = event ∧ later = []) ∨ ∃ later', log = earlier ++ cut :: later' ∧
    later = later' ++ [event] := by
  rcases List.eq_nil_or_concat later with rfl | ⟨rest, last, rfl⟩
  · obtain ⟨same, last⟩ := List.append_inj' split rfl
    cases last
    exact .inl ⟨same.symm, rfl, rfl⟩
  · have regroup : log ++ [event] = (earlier ++ cut :: rest) ++ [last] := by
      rw [split, List.concat_eq_append, List.append_assoc, List.cons_append]
    obtain ⟨same, last⟩ := List.append_inj' regroup rfl
    cases last
    exact .inr ⟨rest, same, List.concat_eq_append⟩

namespace Throughout

theorem nil : Throughout holds [] := by
  intro earlier event later split
  exact absurd split (by simp)

theorem snoc_iff : Throughout holds (log ++ [event]) ↔ Throughout holds log ∧ holds log event := by
  constructor
  · intro all
    refine ⟨fun earlier cut later split => all earlier cut (later ++ [event]) ?_, all log event [] rfl⟩
    rw [split, List.append_assoc, List.cons_append]
  · intro given earlier cut later split
    obtain ⟨all, last⟩ := given
    rcases split_snoc split with ⟨rfl, rfl, _⟩ | ⟨later', same, _⟩
    · exact last
    · exact all earlier cut later' same

theorem left (all : Throughout holds (log ++ more)) : Throughout holds log := by
  intro earlier event later split
  apply all earlier event (later ++ more)
  rw [split, List.append_assoc, List.cons_append]

theorem iff_take : Throughout holds log ↔ ∀ index : Fin log.length, holds (log.take index) log[index] := by
  constructor
  · intro all index
    apply all (log.take index) log[index] (log.drop (index + 1))
    exact (List.take_append_drop index log).symm.trans (by rw [List.drop_eq_getElem_cons index.isLt]; rfl)
  · intro each earlier event later split
    subst split
    have inside : earlier.length < (earlier ++ event :: later).length := by simp
    have holds := each ⟨earlier.length, inside⟩
    simpa using holds

instance [∀ earlier event, Decidable (holds earlier event)] : Decidable (Throughout holds log) :=
  decidable_of_iff _ iff_take.symm

end Throughout
end EthercatSlave
