import EthercatSlave.Program

/-! Sequential runs of a program against a deterministic environment. An
environment may refuse a request (`none`): the program is then stuck and has no
run, so returning always means that every access on the way was defined. -/

namespace EthercatSlave

variable {Op : Type} {Reply : Op → Type} {σ α β : Type}

/-- How an environment answers one request. -/
abbrev Handler (Op : Type) (Reply : Op → Type) (σ : Type) :=
  (op : Op) → σ → Option (Reply op × σ)

/-- Reads the decisions of the environment off a script, one for each request. -/
def Handler.scripted {χ : Type} (handle : χ → Handler Op Reply σ) : Handler Op Reply (σ × (Nat → χ)) :=
  fun op (state, script) => (handle (script 0) op state).map fun (reply, following) =>
    (reply, following, fun index => script (index + 1))

/-- `Eval handle program before value after`: started in `before`, the program
terminates, returns `value` and leaves `after`. -/
inductive Eval (handle : Handler Op Reply σ) :
    {α : Type} → Program Op Reply α → σ → α → σ → Prop where
  | pure {α : Type} {value : α} {state : σ} : Eval handle (.pure value) state value state
  | request {α : Type} {op : Op} {next : Reply op → Program Op Reply α} {before middle after : σ}
      {reply : Reply op} {value : α} : handle op before = some (reply, middle) →
      Eval handle (next reply) middle value after → Eval handle (.request op next) before value after
  | again {α β : Type} {body : β → Program Op Reply β} {again : β → Bool}
      {next : β → Program Op Reply α} {before middle after : σ} {first last : β} {value : α} :
      Eval handle (body first) before last middle → again last = true →
      Eval handle (.doWhile body again last next) middle value after →
      Eval handle (.doWhile body again first next) before value after
  | leave {α β : Type} {body : β → Program Op Reply β} {again : β → Bool}
      {next : β → Program Op Reply α} {before middle after : σ} {first last : β} {value : α} :
      Eval handle (body first) before last middle → again last = false →
      Eval handle (next last) middle value after →
      Eval handle (.doWhile body again first next) before value after

namespace Eval

variable {handle : Handler Op Reply σ} {before middle after : σ}

theorem bind {program : Program Op Reply α} {next : α → Program Op Reply β} {value : α} {result : β}
    (first : Eval handle program before value middle)
    (rest : Eval handle (next value) middle result after) :
    Eval handle (program.bind next) before result after := by
  induction first with
  | pure => exact rest
  | request answered _ ih => exact .request answered (ih rest)
  | again body more _ _ ih => exact .again body more (ih rest)
  | leave body done _ _ ih => exact .leave body done (ih rest)

theorem pure_iff {value result : α} :
    Eval handle (.pure value : Program Op Reply α) before result after ↔ value = result ∧ before = after := by
  constructor
  · intro stopped
    cases stopped
    exact ⟨rfl, rfl⟩
  · intro given
    obtain ⟨rfl, rfl⟩ := given
    exact .pure

theorem request_iff {op : Op} {next : Reply op → Program Op Reply α} {value : α} :
    Eval handle (.request op next) before value after ↔
      ∃ reply middle, handle op before = some (reply, middle) ∧ Eval handle (next reply) middle value after := by
  constructor
  · intro stopped
    cases stopped
    exact ⟨_, _, ‹_›, ‹_›⟩
  · intro given
    obtain ⟨reply, middle, answered, rest⟩ := given
    exact .request answered rest

theorem answered_iff {op : Op} {reply : Reply op} {next : Reply op → Program Op Reply α} {value : α}
    (answered : handle op before = some (reply, middle)) :
    Eval handle (.request op next) before value after ↔ Eval handle (next reply) middle value after := by
  constructor
  · intro ran
    obtain ⟨_, _, same, rest⟩ := request_iff.mp ran
    cases answered.symm.trans same
    exact rest
  · exact .request answered

/-- A run of a loop that something follows, as a run of the loop with anything else
behind it. -/
theorem unloop {body : β → Program Op Reply β} {again : β → Bool} {first : β}
    {next : β → Program Op Reply α} {value : α}
    (ran : Eval handle (.doWhile body again first next) before value after) :
    ∃ last middle, Eval handle (.doWhile body again first .pure) before last middle ∧
      Eval handle (next last) middle value after := by
  generalize same : Program.doWhile body again first next = whole at ran
  induction ran generalizing first with
  | pure => cases same
  | request => cases same
  | again body more _ _ ih =>
    cases same
    obtain ⟨last, middle, looped, rest⟩ := ih rfl
    exact ⟨last, middle, .again body more looped, rest⟩
  | leave body done rest =>
    cases same
    exact ⟨_, _, .leave body done .pure, rest⟩

theorem unbind {program : Program Op Reply α} {next : α → Program Op Reply β} {result : β}
    (ran : Eval handle (program.bind next) before result after) :
    ∃ value middle, Eval handle program before value middle ∧ Eval handle (next value) middle result after := by
  induction program generalizing before with
  | pure value => exact ⟨value, before, .pure, ran⟩
  | request op continuation ih =>
    obtain ⟨reply, reached, answered, rest⟩ := request_iff.mp ran
    obtain ⟨value, middle, first, second⟩ := ih reply rest
    exact ⟨value, middle, .request answered first, second⟩
  | doWhile body again first continuation _ ih =>
    obtain ⟨last, reached, looped, rest⟩ := unloop ran
    obtain ⟨value, middle, left, second⟩ := ih last rest
    exact ⟨value, middle, looped.bind left, second⟩

/-- The environment decides everything: a program has at most one outcome. -/
theorem deterministic {program : Program Op Reply α} {first second : α} {after' : σ}
    (left : Eval handle program before first after) (right : Eval handle program before second after') :
    first = second ∧ after = after' := by
  induction left generalizing after' with
  | pure => cases right; exact ⟨rfl, rfl⟩
  | request answered _ ih =>
    obtain ⟨reply, middle, same, rest⟩ := request_iff.mp right
    obtain ⟨rfl, rfl⟩ := Prod.mk.inj (Option.some.inj (answered.symm.trans same))
    exact ih rest
  | again _ more _ bodyIh restIh =>
    cases right with
    | again body _ rest =>
      obtain ⟨rfl, rfl⟩ := bodyIh body
      exact restIh rest
    | leave body done _ =>
      obtain ⟨rfl, rfl⟩ := bodyIh body
      rw [more] at done
      cases done
  | leave _ done _ bodyIh restIh =>
    cases right with
    | again body more _ =>
      obtain ⟨rfl, rfl⟩ := bodyIh body
      rw [more] at done
      cases done
    | leave body _ rest =>
      obtain ⟨rfl, rfl⟩ := bodyIh body
      exact restIh rest

section View

variable {τ : Type} {single : Handler Op Reply τ} {seen : σ → τ}

/-- A run seen through a view of the state on which requests act alike is a view of
a run. -/
theorem unview (commutes : ∀ op state, single op (seen state) =
      (handle op state).map fun (reply, following) => (reply, seen following))
    {program : Program Op Reply α} {value : α} {start final : τ} (ran : Eval single program start value final)
    (same : start = seen before) : ∃ after, Eval handle program before value after ∧ final = seen after := by
  induction ran generalizing before with
  | pure => exact ⟨before, .pure, same⟩
  | request answered _ ih =>
    rw [same, commutes] at answered
    obtain ⟨⟨_, middle⟩, found, shape⟩ := Option.map_eq_some_iff.mp answered
    cases shape
    obtain ⟨after, rest, left⟩ := ih rfl
    exact ⟨after, .request found rest, left⟩
  | again _ more _ bodyIh restIh =>
    obtain ⟨middle, body, between⟩ := bodyIh same
    obtain ⟨after, rest, left⟩ := restIh between
    exact ⟨after, .again body more rest, left⟩
  | leave _ done _ bodyIh restIh =>
    obtain ⟨middle, body, between⟩ := bodyIh same
    obtain ⟨after, rest, left⟩ := restIh between
    exact ⟨after, .leave body done rest, left⟩

end View

/-- A run of a program among more requests, on a part of a larger state. -/
theorem embed {Op' : Type} {Reply' : Op' → Type} {τ : Type} {wide : Handler Op' Reply' τ} {into : Op → Op'}
    {answer : (op : Op) → Reply' (into op) → Reply op} {put : σ → τ}
    (acts : ∀ op state reply following, handle op state = some (reply, following) →
      ∃ reply', wide (into op) (put state) = some (reply', put following) ∧ answer op reply' = reply)
    {program : Program Op Reply α} {value : α} (ran : Eval handle program before value after) :
    Eval wide (program.embed into answer) (put before) value (put after) := by
  induction ran with
  | pure => exact .pure
  | request answered _ ih =>
    obtain ⟨reply', performed, rfl⟩ := acts _ _ _ _ answered
    exact .request performed ih
  | again _ more _ bodyIh restIh => exact .again bodyIh more restIh
  | leave _ done _ bodyIh restIh => exact .leave bodyIh done restIh

/-- What every request keeps, every run keeps. -/
theorem keeps {holds : σ → Prop} (each : ∀ op before reply after, handle op before = some (reply, after) →
    holds before → holds after) {program : Program Op Reply α} {value : α}
    (ran : Eval handle program before value after) (starts : holds before) : holds after := by
  induction ran with
  | pure => exact starts
  | request answered _ ih => exact ih (each _ _ _ _ answered starts)
  | again _ _ _ bodyIh restIh => exact restIh (bodyIh starts)
  | leave _ _ _ bodyIh restIh => exact restIh (bodyIh starts)

/-- What every request a program may make keeps, its runs keep. -/
theorem keeps_used {allowed : Op → Prop} {holds : σ → Prop}
    (each : ∀ op before reply after, allowed op → handle op before = some (reply, after) → holds before → holds after)
    {program : Program Op Reply α} {value : α} (uses : program.Uses allowed)
    (ran : Eval handle program before value after) (starts : holds before) : holds after := by
  induction ran with
  | pure => exact starts
  | request answered _ ih => exact ih (uses.2 _) (each _ _ _ _ uses.1 answered starts)
  | again _ _ _ bodyIh restIh => exact restIh uses (bodyIh (uses.1 _) starts)
  | leave _ _ _ bodyIh restIh => exact restIh (uses.2 _) (bodyIh (uses.1 _) starts)

/-- Without loops a program ends, unless a request of it is refused. -/
theorem of_straight {allowed : Op → Prop} {program : Program Op Reply α} (straight : program.Straight allowed)
    (answers : ∀ op state, allowed op → ∃ reply following, handle op state = some (reply, following)) (start : σ) :
    ∃ value final, Eval handle program start value final := by
  induction program generalizing start with
  | pure value => exact ⟨value, start, .pure⟩
  | request op next ih =>
    obtain ⟨reply, following, answered⟩ := answers op start straight.1
    obtain ⟨value, final, ran⟩ := ih reply (straight.2 reply) following
    exact ⟨value, final, .request answered ran⟩
  | doWhile => exact straight.elim

theorem again_iff {body : β → Program Op Reply β} {again : β → Bool} {next : β → Program Op Reply α} {first last : β}
    {value : α} (ran : Eval handle (body first) before last middle) (more : again last = true) :
    Eval handle (.doWhile body again first next) before value after ↔
      Eval handle (.doWhile body again last next) middle value after := by
  refine ⟨fun looped => ?_, .again ran more⟩
  cases looped with
  | again ran' _ rest =>
    obtain ⟨rfl, rfl⟩ := ran.deterministic ran'
    exact rest
  | leave ran' done _ =>
    obtain ⟨rfl, rfl⟩ := ran.deterministic ran'
    rw [more] at done
    cases done

/-- A loop that goes through `count` more rounds before its last one. `start`
says what holds in front of a round and `exits` what the last round leaves. -/
theorem countdown {body : β → Program Op Reply β} {again : β → Bool} (start : Nat → β → σ → Prop)
    (exits : β → σ → Prop)
    (more : ∀ count value state, start (count + 1) value state → ∃ last following,
      Eval handle (body value) state last following ∧ again last = true ∧ start count last following)
    (done : ∀ value state, start 0 value state → ∃ last following,
      Eval handle (body value) state last following ∧ again last = false ∧ exits last following)
    (count : Nat) (value : β) (state : σ) (starts : start count value state) :
    ∃ last following, Eval handle (.doWhile body again value .pure) state last following ∧ exits last following := by
  induction count generalizing value state with
  | zero =>
    obtain ⟨last, following, ran, leaves, holds⟩ := done value state starts
    exact ⟨last, following, .leave ran leaves .pure, holds⟩
  | succ count ih =>
    obtain ⟨last, following, ran, stays, starts'⟩ := more count value state starts
    obtain ⟨last', following', ran', holds⟩ := ih last following starts'
    exact ⟨last', following', .again ran stays ran', holds⟩

/-- A counted loop: `holds index value state` in front of each execution of its body. -/
theorem forUp {body : Nat → β → Program Op Reply β} (holds : Nat → β → σ → Prop) (count first : Nat) (value : β)
    (state : σ)
    (each : ∀ index value state, first ≤ index → index < first + count → holds index value state →
      ∃ value' following, Eval handle (body index value) state value' following ∧ holds (index + 1) value' following)
    (starts : holds first value state) :
    ∃ value' following, Eval handle (Program.forUp body count first value) state value' following ∧
      holds (first + count) value' following := by
  induction count generalizing first value state with
  | zero => exact ⟨value, state, .pure, starts⟩
  | succ count ih =>
    obtain ⟨value', following, ran, next⟩ := each first value state (Nat.le_refl _) (by omega) starts
    obtain ⟨value'', following', ran', last⟩ := ih (first + 1) value' following
      (fun index value state low high => each index value state (by omega) (by omega)) next
    exact ⟨value'', following', ran.bind ran', by rwa [Nat.add_right_comm] at last⟩

end Eval

namespace Program

/-- Repeats `round` until its value no longer asks for another one. -/
def iterate (round : β → σ → Option (β × σ)) (again : β → Bool) : Nat → β → σ → Option (β × σ)
  | 0, _, _ => none
  | fuel + 1, value, state => do
    let (last, following) ← round value state
    if again last then iterate round again fuel last following else some (last, following)

/-- The executable reading of `Eval`; `fuel` bounds the rounds of each loop. -/
def exec (handle : Handler Op Reply σ) (fuel : Nat) : {α : Type} → Program Op Reply α → σ → Option (α × σ)
  | _, .pure value, state => some (value, state)
  | _, .request op next, state => do
    let (reply, following) ← handle op state
    (next reply).exec handle fuel following
  | _, .doWhile body again value next, state => do
    let (last, following) ← iterate (fun value => (body value).exec handle fuel) again fuel value state
    (next last).exec handle fuel following

private theorem iterate_sound {handle : Handler Op Reply σ} {body : β → Program Op Reply β} {again : β → Bool}
    {next : β → Program Op Reply α} {round : β → σ → Option (β × σ)}
    (sound : ∀ value before last after, round value before = some (last, after) →
      Eval handle (body value) before last after)
    {fuel : Nat} {before middle after : σ} {first last : β} {value : α}
    (ran : iterate round again fuel first before = some (last, middle))
    (rest : Eval handle (next last) middle value after) :
    Eval handle (.doWhile body again first next) before value after := by
  induction fuel generalizing first before with
  | zero => cases ran
  | succ fuel ih =>
    obtain ⟨⟨middle', following⟩, ran', more⟩ := Option.bind_eq_some_iff.mp ran
    have body := sound _ _ _ _ ran'
    simp only at more
    split at more
    next stays => exact .again body stays (ih more)
    next leaves =>
      cases more
      exact .leave body (Bool.eq_false_iff.mpr leaves) rest

theorem exec_sound {handle : Handler Op Reply σ} {fuel : Nat} {program : Program Op Reply α}
    {before after : σ} {value : α} (ran : program.exec handle fuel before = some (value, after)) :
    Eval handle program before value after := by
  induction program generalizing before after with
  | pure result => cases ran; exact .pure
  | request op next ih =>
    obtain ⟨⟨reply, following⟩, answered, rest⟩ := Option.bind_eq_some_iff.mp ran
    exact .request answered (ih reply rest)
  | doWhile body again first next bodyIh ih =>
    obtain ⟨⟨last, following⟩, looped, rest⟩ := Option.bind_eq_some_iff.mp ran
    exact iterate_sound (fun value _ _ _ => bodyIh value) looped (ih last rest)

end Program
end EthercatSlave
