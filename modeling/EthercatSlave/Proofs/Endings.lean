import EthercatSlave.Interleaving

/-! Programs that are over with a certain answer: a request that is answered in a
final way is the last one of the program. -/

namespace EthercatSlave

variable {Op : Type} {Reply : Op → Type} {σ χ ι α β : Type}

namespace Program

/-- Once an answer is `final`, all that is left is a value that is `ended`; a value
that comes without such an answer is `other`. Only `possible` answers count. -/
def EndsAt (possible final : (op : Op) → Reply op → Prop) :
    {α : Type} → Program Op Reply α → (ended other : α → Prop) → Prop
  | _, .pure value, _, other => other value
  | _, .request op next, ended, other => ∀ reply, possible op reply →
      (final op reply → ∃ value, next reply = .pure value ∧ ended value) ∧
      (¬ final op reply → EndsAt possible final (next reply) ended other)
  | _, .doWhile body again first next, ended, other => ∃ entry : _ → Prop, entry first ∧
      ∀ value, entry value → EndsAt possible final (body value)
        (fun last => again last = false ∧ ∃ value, next last = .pure value ∧ ended value)
        (fun last => (again last = true → entry last) ∧
          (again last = false → EndsAt possible final (next last) ended other))

variable {possible final : (op : Op) → Reply op → Prop} {ended other : α → Prop}

theorem EndsAt.mono {program : Program Op Reply α} {ended' other' : α → Prop}
    (ends : program.EndsAt possible final ended other) (left : ∀ value, ended value → ended' value)
    (right : ∀ value, other value → other' value) : program.EndsAt possible final ended' other' := by
  induction program with
  | pure value => exact right value ends
  | request op next ih =>
    intro reply allowed
    obtain ⟨last, more⟩ := ends reply allowed
    exact ⟨fun answered => (last answered).imp fun _ => And.imp_right (left _),
      fun answered => ih reply (more answered) left right⟩
  | doWhile body again first next bodyIh ih =>
    obtain ⟨entry, starts, round⟩ := ends
    refine ⟨entry, starts, fun value holds => bodyIh value (round value holds) ?_ ?_⟩
    · exact fun last => And.imp_right (Exists.imp fun _ => And.imp_right (left _))
    · exact fun last => And.imp_right fun leaves done => ih last (leaves done) left right

theorem EndsAt.bind {program : Program Op Reply α} {next : α → Program Op Reply β} {ended other : β → Prop}
    (ends : program.EndsAt possible final (fun value => ∃ result, next value = .pure result ∧ ended result)
      (fun value => (next value).EndsAt possible final ended other)) :
    (program.bind next).EndsAt possible final ended other := by
  induction program with
  | pure value => exact ends
  | request op rest ih =>
    intro reply allowed
    obtain ⟨last, more⟩ := ends reply allowed
    refine ⟨fun answered => ?_, fun answered => ih reply (more answered)⟩
    obtain ⟨value, stops, result, closing, holds⟩ := last answered
    have ends : (rest reply).bind next = .pure result := by rw [stops, pure_bind, closing]
    exact ⟨result, ends, holds⟩
  | doWhile body again first rest _ ih =>
    obtain ⟨entry, starts, round⟩ := ends
    refine ⟨entry, starts, fun value holds => (round value holds).mono ?_ ?_⟩
    · intro last ⟨done, value, stops, result, closing, holds⟩
      have ends : (rest last).bind next = .pure result := by rw [stops, pure_bind, closing]
      exact ⟨done, result, ends, holds⟩
    · exact fun last => And.imp_right fun leaves done => ih last (leaves done)

theorem EndsAt.advance {handle : Handler Op Reply σ} {program rest : Program Op Reply α}
    {event : Option ((op : Op) × Reply op)} {state following : σ} (ends : program.EndsAt possible final ended other)
    (stepped : program.advance handle state = some (event, rest, following))
    (allowed : ∀ op reply, event = some ⟨op, reply⟩ → possible op reply) :
    (∃ op reply value, event = some ⟨op, reply⟩ ∧ final op reply ∧ rest = .pure value ∧ ended value) ∨
    (∀ op reply, event = some ⟨op, reply⟩ → ¬ final op reply) ∧ rest.EndsAt possible final ended other := by
  induction program generalizing event following with
  | pure value => cases stepped
  | request op next _ =>
    obtain ⟨⟨reply, middle⟩, answered, same⟩ := Option.map_eq_some_iff.mp stepped
    cases same
    obtain ⟨last, more⟩ := ends reply (allowed op reply rfl)
    by_cases closing : final op reply
    · obtain ⟨value, stops, holds⟩ := last closing
      exact .inl ⟨op, reply, value, rfl, closing, stops, holds⟩
    · refine .inr ⟨fun op' reply' same => ?_, more closing⟩
      cases same
      exact closing
  | doWhile body again first next bodyIh _ =>
    obtain ⟨entry, starts, round⟩ := ends
    have reenter : ∀ last, ((again last = true → entry last) ∧
        (again last = false → (next last).EndsAt possible final ended other)) →
        (if again last then .doWhile body again last next else next last : Program Op Reply _).EndsAt possible final
          ended other := by
      intro last ⟨stays, leaves⟩
      split
      next more => exact ⟨entry, stays more, round⟩
      next done => exact leaves (Bool.eq_false_iff.mpr done)
    have first' := round first starts
    simp only [Program.advance] at stepped
    split at stepped
    next last returned =>
      cases stepped
      generalize body first = unrolled at *
      cases unrolled <;> cases returned
      exact .inr ⟨fun _ _ none => (nomatch none), reenter _ first'⟩
    next =>
      obtain ⟨⟨event', rest', middle⟩, moved, same⟩ := Option.map_eq_some_iff.mp stepped
      cases same
      rcases bodyIh first first' moved allowed with ⟨op, reply, last, answered, closing, stops, done, value,
        stops', holds⟩ | ⟨quiet, goes⟩
      · refine .inl ⟨op, reply, value, answered, closing, ?_, holds⟩
        rw [stops, pure_bind, if_neg (by simp [done]), stops']
      · refine .inr ⟨quiet, EndsAt.bind (goes.mono ?_ reenter)⟩
        intro last ⟨done, value, stops, holds⟩
        exact ⟨value, by rw [if_neg (by simp [done]), stops], holds⟩

theorem Uses.advance {allowed : Op → Prop} {handle : Handler Op Reply σ} {program rest : Program Op Reply α}
    {event : Option ((op : Op) × Reply op)} {state following : σ} (uses : program.Uses allowed)
    (stepped : program.advance handle state = some (event, rest, following)) :
    (∀ op reply, event = some ⟨op, reply⟩ → allowed op) ∧ rest.Uses allowed := by
  induction program generalizing event following with
  | pure value => cases stepped
  | request op next _ =>
    obtain ⟨⟨reply, middle⟩, answered, same⟩ := Option.map_eq_some_iff.mp stepped
    cases same
    refine ⟨fun op' reply' same => ?_, uses.2 reply⟩
    cases same
    exact uses.1
  | doWhile body again first next bodyIh _ =>
    have reenter : ∀ last, (if again last then .doWhile body again last next else next last :
        Program Op Reply _).Uses allowed := by
      intro last
      split
      · exact uses
      · exact uses.2 last
    simp only [Program.advance] at stepped
    split at stepped
    next last returned =>
      cases stepped
      exact ⟨fun _ _ none => (nomatch none), reenter last⟩
    next =>
      obtain ⟨⟨event', rest', middle⟩, moved, same⟩ := Option.map_eq_some_iff.mp stepped
      cases same
      obtain ⟨permitted, rest⟩ := bodyIh first (uses.1 first) moved
      exact ⟨permitted, rest.bind reenter⟩

/-- A step either makes one request or leaves the state alone. -/
theorem advance_performed {handle : Handler Op Reply σ} {program rest : Program Op Reply α}
    {event : Option ((op : Op) × Reply op)} {state following : σ}
    (stepped : program.advance handle state = some (event, rest, following)) :
    (event = none ∧ following = state) ∨
      ∃ op reply, event = some ⟨op, reply⟩ ∧ handle op state = some (reply, following) := by
  induction program generalizing event following with
  | pure value => cases stepped
  | request op next _ =>
    obtain ⟨⟨reply, middle⟩, answered, same⟩ := Option.map_eq_some_iff.mp stepped
    cases same
    exact .inr ⟨op, reply, rfl, answered⟩
  | doWhile body again first next bodyIh _ =>
    simp only [Program.advance] at stepped
    split at stepped
    next =>
      cases stepped
      exact .inl ⟨rfl, rfl⟩
    next =>
      obtain ⟨⟨event', rest', middle⟩, moved, same⟩ := Option.map_eq_some_iff.mp stepped
      cases same
      exact bodyIh first moved

def awaiting : {α : Type} → Program Op Reply α → Option Op
  | _, .pure _ => none
  | _, .request op _ => some op
  | _, .doWhile body _ value _ => (body value).awaiting

/-- A program that cannot go on has returned, or its next request has no result. -/
theorem advance_none {handle : Handler Op Reply σ} {program : Program Op Reply α} {state : σ}
    (stuck : program.advance handle state = none) :
    program.returned.isSome = true ∨ ∃ op, program.awaiting = some op ∧ handle op state = none := by
  induction program with
  | pure value => exact .inl rfl
  | request op next _ => exact .inr ⟨op, rfl, Option.map_eq_none_iff.mp stuck⟩
  | doWhile body again value next bodyIh _ =>
    simp only [Program.advance] at stuck
    split at stuck
    next => cases stuck
    next running =>
      rcases bodyIh value (Option.map_eq_none_iff.mp stuck) with returned | waits
      · rw [running] at returned
        cases returned
      · exact .inr waits

end Program

namespace Pool

variable {α : ι → Type} [DecidableEq ι] {handle : χ → Handler Op Reply σ} {thread : ι} {choice : χ}
  {pool next : Pool ι Op Reply σ α}

theorem step_eq (stepped : pool.step handle thread choice = some next) : ∃ event rest state,
    (pool.threads thread).advance (handle choice) pool.world.state = some (event, rest, state) ∧
      next = ⟨Function.update pool.threads thread rest, pool.world.record thread event state⟩ := by
  obtain ⟨⟨event, rest, state⟩, advanced, same⟩ := Option.map_eq_some_iff.mp stepped
  exact ⟨event, rest, state, advanced, same.symm⟩

end Pool
end EthercatSlave
