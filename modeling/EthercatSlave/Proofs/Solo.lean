import EthercatSlave.Proofs.RelyGuarantee

/-! A program on its own. Nobody interferes, so what is ensured of it holds at
every step of its runs, and at the end of those that end. -/

namespace EthercatSlave

variable {Op Op' : Type} {Reply : Op → Type} {Reply' : Op' → Type} {W σ χ α β : Type}

namespace Rules

/-- The rules of a program whose surroundings are only its own requests. -/
def solo (handle : χ → Handler Op Reply σ) (invariant : σ → Prop) : Rules Op Reply σ where
  acts op before reply after := ∃ choice, handle choice op before = some (reply, after)
  invariant := invariant
  rely := Eq
  guarantee _ _ := True
  refl _ := rfl
  trans := Eq.trans

variable {handle : χ → Handler Op Reply σ} {invariant : σ → Prop} {post : α → σ → Prop} {start : σ}

theorem solo_pure {value : α} (holds : post value start) :
    (solo handle invariant).Ensures (.pure value) post start := by
  intro _ same _
  subst same
  exact holds

theorem solo_request {op : Op} {next : Reply op → Program Op Reply α}
    (each : invariant start → ∀ choice reply after, handle choice op start = some (reply, after) →
      invariant after ∧ (solo handle invariant).Ensures (next reply) post after) :
    (solo handle invariant).Ensures (.request op next) post start := by
  intro _ same kept reply after given
  subst same
  obtain ⟨choice, performed⟩ := given
  obtain ⟨kept', rest⟩ := each kept choice reply after performed
  exact ⟨kept', trivial, rest⟩

/-- A counted loop, whose entries only the loop itself can change. -/
theorem solo_forUp {body : Nat → β → Program Op Reply β} (holds : Nat → β → σ → Prop) (count first : Nat) (value : β)
    (each : ∀ index value state, index < first + count → holds index value state →
      (solo handle invariant).Ensures (body index value) (holds (index + 1)) state)
    (kept : invariant start) (starts : holds first value start) :
    (solo handle invariant).Ensures (Program.forUp body count first value) (holds (first + count)) start := by
  refine Ensures.forUp holds ?_ count first value start ?_ kept starts
  · intro _ _ _ _ same _ held
    subst same
    exact held
  · exact fun index value state _ inside _ held => each index value state inside held

/-- At every point of a run the invariant holds and the rest is still ensured. -/
theorem solo_run {pool final : Pool Unit Op Reply σ fun _ => α} {schedule : List (Unit × χ)}
    (kept : invariant pool.world.state)
    (ensures : (solo handle invariant).Ensures (pool.threads ()) post pool.world.state)
    (ran : pool.run handle schedule = some final) :
    invariant final.world.state ∧ (solo handle invariant).Ensures (final.threads ()) post final.world.state := by
  let holds (pool : Pool Unit Op Reply σ fun _ => α) : Prop :=
    invariant pool.world.state ∧ (solo handle invariant).Ensures (pool.threads ()) post pool.world.state
  have preserved : ∀ pool thread choice next, holds pool → pool.step handle thread choice = some next → holds next := by
    intro pool stopped choice next given stepped
    cases stopped
    obtain ⟨kept, ensures⟩ := given
    obtain ⟨⟨event, rest, state⟩, advanced, same⟩ := Option.map_eq_some_iff.mp stepped
    cases same
    have moved := ensures.advance kept advanced
    simp only [holds, Function.update_self]
    cases event with
    | none =>
      obtain ⟨rfl, later⟩ := moved
      exact ⟨kept, later⟩
    | some event =>
      obtain ⟨performed, later⟩ := moved
      obtain ⟨kept', _, later⟩ := later state ⟨choice, performed⟩
      exact ⟨kept', later⟩
  have starts : holds pool := ⟨kept, ensures⟩
  exact Pool.run_induction preserved starts ran

theorem solo_eval {single : Handler Op Reply σ} {program : Program Op Reply α} {value : α} {after : σ}
    (within : ∀ op before reply after, single op before = some (reply, after) →
      ∃ choice, handle choice op before = some (reply, after))
    (kept : invariant start) (ensures : (solo handle invariant).Ensures program post start)
    (ran : Eval single program start value after) : invariant after ∧ post value after := by
  induction ran with
  | pure => exact ⟨kept, ensures _ rfl kept⟩
  | request answered _ ih =>
    obtain ⟨kept', _, rest⟩ := ensures _ rfl kept _ _ (within _ _ _ _ answered)
    exact ih kept' rest
  | again _ more _ bodyIh restIh =>
    obtain ⟨entry, closed, first⟩ := ensures
    obtain ⟨kept', exits⟩ := bodyIh kept first
    rw [Exits, more] at exits
    exact restIh kept' (Ensures.loop entry kept' exits closed)
  | leave _ done _ bodyIh restIh =>
    obtain ⟨entry, closed, first⟩ := ensures
    obtain ⟨kept', exits⟩ := bodyIh kept first
    rw [Exits, done] at exits
    exact restIh kept' exits

end Rules

namespace Rules

variable {σ' χ' φ : Type} {handle : χ → Handler Op Reply σ} {handle' : χ' → Handler Op' Reply' σ'}
  {invariant : σ → Prop} {into : Op → Op'} {answer : (op : Op) → Reply' (into op) → Reply op}

/-- A program over part of the requests, read over all of them: it acts on the
`view` of the larger state and leaves the `frame` alone. -/
theorem solo_embed (view : σ' → σ) (frame : σ' → φ)
    (acts : ∀ choice' op before reply after, handle' choice' (into op) before = some (reply, after) →
      (∃ choice, handle choice op (view before) = some (answer op reply, view after)) ∧ frame after = frame before)
    {program : Program Op Reply α} {post : α → σ → Prop} {start : σ'}
    (ensures : (solo handle invariant).Ensures program post (view start)) :
    (solo handle' fun state => invariant (view state)).Ensures (program.embed into answer)
      (fun value after => post value (view after) ∧ frame after = frame start) start := by
  induction program generalizing start with
  | pure value =>
    intro _ same kept
    subst same
    exact ⟨ensures _ rfl kept, rfl⟩
  | request op next ih =>
    apply solo_request
    intro kept choice' reply after performed
    obtain ⟨made, framed⟩ := acts choice' op start reply after performed
    obtain ⟨kept', _, rest⟩ := ensures _ rfl kept _ _ made
    refine ⟨kept', (ih _ rest).mono fun value final _ => And.imp_right fun same => ?_⟩
    rw [same, framed]
  | doWhile body again value next bodyIh ih =>
    obtain ⟨entry, closed, first⟩ := ensures
    let entry' (value : _) (state : σ') : Prop := entry value (view state) ∧ frame state = frame start
    let leaves' (last : _) (state : σ') : Prop := (solo handle' fun state => invariant (view state)).Ensures
      ((next last).embed into answer) (fun value after => post value (view after) ∧ frame after = frame start) state
    have exits : ∀ last after, Exits again entry
      (fun last => (solo handle invariant).Ensures (next last) post) last (view after) →
        frame after = frame start → Exits again entry' leaves' last after := by
      intro last after exits same
      unfold Exits at *
      split at exits
      · exact ⟨exits, same⟩
      · refine (ih last exits).mono fun value final _ => And.imp_right fun same' => ?_
        rw [same', same]
    refine ⟨entry', fun value state kept ⟨holds, same⟩ => ?_, ?_⟩
    · exact (bodyIh value (closed value (view state) kept holds)).mono fun last after _ ⟨left, same'⟩ =>
        exits last after left (same'.trans same)
    · exact (bodyIh value first).mono fun last after _ ⟨left, same⟩ => exits last after left same

end Rules
end EthercatSlave
