import EthercatSlave.Interleaving

/-! Two runs under one schedule. `Tracks` goes through a program and its copy in
parallel: both make their requests at the same time, and what is known of the two
worlds, interference included, decides how far their replies agree. -/

namespace EthercatSlave

variable {Op : Type} {Reply : Op → Type} {W σ χ ι α β : Type}

/-- The next step of a program, before anything answers. -/
inductive Turn (Op : Type) (Reply : Op → Type) (α : Type) where
  | ended (value : α)
  | silent (rest : Program Op Reply α)
  | asks (op : Op) (next : Reply op → Program Op Reply α)

namespace Program

def turn : {α : Type} → Program Op Reply α → Turn Op Reply α
  | _, .pure value => .ended value
  | _, .request op next => .asks op next
  | _, .doWhile body again value next =>
    match (body value).turn with
    | .ended last => .silent (if again last then .doWhile body again last next else next last)
    | .silent rest => .silent (rest.bind fun last => if again last then .doWhile body again last next else next last)
    | .asks op rest => .asks op fun reply =>
      (rest reply).bind fun last => if again last then .doWhile body again last next else next last

theorem turn_ended {program : Program Op Reply α} {value : α} :
    program.turn = .ended value ↔ program.returned = some value := by
  cases program with
  | pure => simp [turn, returned]
  | request => simp [turn, returned]
  | doWhile body again first next =>
    simp only [turn, returned]
    split <;> simp

theorem advance_turn (handle : Handler Op Reply σ) (program : Program Op Reply α) (state : σ) :
    program.advance handle state = match program.turn with
      | .ended _ => none
      | .silent rest => some (none, rest, state)
      | .asks op next => (handle op state).map fun (reply, following) => (some ⟨op, reply⟩, next reply, following) := by
  induction program with
  | pure => rfl
  | request => rfl
  | doWhile body again first next bodyIh _ =>
    simp only [advance, bodyIh]
    cases stepped : (body first).turn with
    | ended last =>
      simp only [turn_ended.mp stepped, turn, stepped]
    | silent rest =>
      have running : (body first).returned = none := by
        cases returned : (body first).returned with
        | none => rfl
        | some last => cases stepped.symm.trans (turn_ended.mpr returned)
      simp only [running, turn, stepped, Option.map_some]
    | asks op rest =>
      have running : (body first).returned = none := by
        cases returned : (body first).returned with
        | none => rfl
        | some last => cases stepped.symm.trans (turn_ended.mpr returned)
      simp only [running, turn, stepped, Option.map_map]
      rfl

end Program

/-- What the two copies of a program may meet. Requests that are `enabled` will be answered. -/
structure Couple (Op : Type) (Reply : Op → Type) (W : Type) where
  acts : (op op' : Op) → W → Reply op → Reply op' → W → Prop
  enabled : Op → Op → W → Prop
  invariant : W → Prop
  rely : W → W → Prop
  guarantee : W → W → Prop
  refl : ∀ world, rely world world
  trans : ∀ {first second third}, rely first second → rely second third → rely first third

namespace Couple

variable (couple : Couple Op Reply W)

/-- The two copies of a loop's body stop together, in front of another round or
after the last one. -/
def Parts (again again' : β → Bool) (entry leaves : β → β → W → Prop) (last last' : β) (after : W) : Prop :=
  again last = again' last' ∧ match again last with
    | true => entry last last' after
    | false => leaves last last' after

def Tracks : {α : Type} → Program Op Reply α → Program Op Reply α → (α → α → W → Prop) → W → Prop
  | _, .pure value, other, post, world => ∃ value', other = .pure value' ∧
      ∀ later, couple.rely world later → couple.invariant later → post value value' later
  | _, .request op next, other, post, world => ∃ op' next', other = .request op' next' ∧
      ∀ between, couple.rely world between → couple.invariant between → couple.enabled op op' between ∧
        ∀ reply reply' after, couple.acts op op' between reply reply' after →
          couple.invariant after ∧ couple.guarantee between after ∧ Tracks (next reply) (next' reply') post after
  | _, .doWhile body again value next, other, post, world => ∃ body' again' value' next',
      other = .doWhile body' again' value' next' ∧ ∃ entry : _ → _ → W → Prop,
        (∀ value value' start, couple.invariant start → entry value value' start → Tracks (body value) (body' value')
          (Parts again again' entry fun last last' => Tracks (next last) (next' last') post) start) ∧
        Tracks (body value) (body' value')
          (Parts again again' entry fun last last' => Tracks (next last) (next' last') post) world

variable {couple} {post : α → α → W → Prop} {world : W}

theorem Parts.imp {again again' : β → Bool} {entry leaves leaves' : β → β → W → Prop} {last last' : β} {after : W}
    (parts : Parts again again' entry leaves last last' after)
    (implies : leaves last last' after → leaves' last last' after) :
    Parts again again' entry leaves' last last' after := by
  obtain ⟨same, parts⟩ := parts
  refine ⟨same, ?_⟩
  cases stays : again last with
  | true =>
    rw [stays] at parts
    exact parts
  | false =>
    rw [stays] at parts
    exact implies parts

theorem Tracks.mono {program other : Program Op Reply α} {weaker : α → α → W → Prop}
    (tracks : couple.Tracks program other post world)
    (implies : ∀ value value' after, couple.invariant after → post value value' after → weaker value value' after) :
    couple.Tracks program other weaker world := by
  induction program generalizing world with
  | pure value =>
    obtain ⟨value', rfl, holds⟩ := tracks
    exact ⟨value', rfl, fun later moves kept => implies _ _ _ kept (holds later moves kept)⟩
  | request op next ih =>
    obtain ⟨op', next', rfl, each⟩ := tracks
    refine ⟨op', next', rfl, fun between moves kept => ⟨(each between moves kept).1, fun reply reply' after acts => ?_⟩⟩
    obtain ⟨kept', guarantees, rest⟩ := (each between moves kept).2 reply reply' after acts
    exact ⟨kept', guarantees, ih reply rest implies⟩
  | doWhile body again value next bodyIh ih =>
    obtain ⟨body', again', value', next', rfl, entry, closed, first⟩ := tracks
    have weaken : ∀ last last' after, couple.invariant after →
        Parts again again' entry (fun last last' => couple.Tracks (next last) (next' last') post) last last' after →
        Parts again again' entry (fun last last' => couple.Tracks (next last) (next' last') weaker) last last' after :=
      fun last _ _ _ parts => parts.imp fun holds => ih last holds implies
    exact ⟨body', again', value', next', rfl, entry,
      fun value value' start kept holds => bodyIh value (closed value value' start kept holds) weaken,
        bodyIh value first weaken⟩

theorem Tracks.stable {program other : Program Op Reply α} {later : W} (tracks : couple.Tracks program other post world)
    (moves : couple.rely world later) : couple.Tracks program other post later := by
  induction program generalizing world later with
  | pure value =>
    obtain ⟨value', rfl, holds⟩ := tracks
    exact ⟨value', rfl, fun last moves' kept => holds last (couple.trans moves moves') kept⟩
  | request op next _ =>
    obtain ⟨op', next', rfl, each⟩ := tracks
    exact ⟨op', next', rfl, fun between moves' kept => each between (couple.trans moves moves') kept⟩
  | doWhile body again value next bodyIh _ =>
    obtain ⟨body', again', value', next', rfl, entry, closed, first⟩ := tracks
    exact ⟨body', again', value', next', rfl, entry, closed, bodyIh value first moves⟩

theorem Tracks.bind {program other : Program Op Reply α} {next next' : α → Program Op Reply β} {post : β → β → W → Prop}
    (kept : couple.invariant world)
    (tracks : couple.Tracks program other (fun value value' after =>
      couple.Tracks (next value) (next' value') post after) world) :
    couple.Tracks (program.bind next) (other.bind next') post world := by
  induction program generalizing world with
  | pure value =>
    obtain ⟨value', rfl, holds⟩ := tracks
    exact holds world (couple.refl world) kept
  | request op rest ih =>
    obtain ⟨op', rest', rfl, each⟩ := tracks
    refine ⟨op', fun reply => (rest' reply).bind next', rfl, fun between moves kept =>
      ⟨(each between moves kept).1, ?_⟩⟩
    intro reply reply' after acts
    obtain ⟨kept', guarantees, later⟩ := (each between moves kept).2 reply reply' after acts
    exact ⟨kept', guarantees, ih reply kept' later⟩
  | doWhile body again value rest _ ih =>
    obtain ⟨body', again', value', rest', rfl, entry, closed, first⟩ := tracks
    have push : ∀ last last' after, couple.invariant after → Parts again again' entry (fun last last' =>
          couple.Tracks (rest last) (rest' last') fun value value' after =>
            couple.Tracks (next value) (next' value') post after)
            last last' after →
        Parts again again' entry (fun last last' =>
          couple.Tracks ((rest last).bind next) ((rest' last').bind next') post)
          last last' after :=
      fun last _ _ kept parts => parts.imp (ih last kept)
    exact ⟨body', again', value', fun last => (rest' last).bind next', rfl, entry,
      fun value value' start kept holds => (closed value value' start kept holds).mono push, first.mono push⟩

theorem Tracks.loop {body body' : β → Program Op Reply β} {again again' : β → Bool} {value value' : β}
    {next next' : β → Program Op Reply α} (entry : β → β → W → Prop) (kept : couple.invariant world)
    (enters : entry value value' world)
    (round : ∀ value value' start, couple.invariant start → entry value value' start →
      couple.Tracks (body value) (body' value')
      (Parts again again' entry fun last last' => couple.Tracks (next last) (next' last') post) start) :
    couple.Tracks (.doWhile body again value next) (.doWhile body' again' value' next') post world :=
  ⟨body', again', value', next', rfl, entry, round, round value value' world kept enters⟩

theorem Tracks.forUp {body body' : Nat → β → Program Op Reply β} (holds : Nat → β → β → W → Prop)
    (stable : ∀ {index value value' world later}, couple.rely world later → couple.invariant later →
      holds index value value' world → holds index value value' later)
    (count first : Nat) (value value' : β) (world : W)
    (each : ∀ index value value' world, index < first + count → couple.invariant world →
      holds index value value' world →
      couple.Tracks (body index value) (body' index value') (holds (index + 1)) world)
    (kept : couple.invariant world) (starts : holds first value value' world) :
    couple.Tracks (Program.forUp body count first value) (Program.forUp body' count first value')
      (holds (first + count)) world := by
  induction count generalizing first value value' world with
  | zero => exact ⟨value', rfl, fun later moves kept' => stable moves kept' starts⟩
  | succ count ih =>
    refine Tracks.bind kept ((each first value value' world (by omega) kept starts).mono
      fun last last' after kept' holds' => ?_)
    have later := ih (first + 1) last last' after
      (fun index value value' world inside => each index value value' world (by omega))
      kept' holds'
    rwa [show first + 1 + count = first + (count + 1) by omega] at later

/-- What each execution re-establishes holds after any number of them. -/
theorem Tracks.times {body : Program Op Reply Unit} (holds : W → Prop)
    (stable : ∀ {world later}, couple.rely world later → couple.invariant later → holds world → holds later)
    (each : ∀ world, couple.invariant world → holds world → couple.Tracks body body (fun _ _ => holds) world)
    (count : Nat) (world : W) (kept : couple.invariant world) (starts : holds world) :
    couple.Tracks (Program.times body count) (Program.times body count) (fun _ _ => holds) world := by
  induction count generalizing world with
  | zero => exact ⟨(), rfl, fun later moves kept' => stable moves kept' starts⟩
  | succ count ih =>
    exact Tracks.bind kept ((each world kept starts).mono fun _ _ after kept' holds' => ih after kept' holds')

/-- A program whose every request is answered alike stays the program it was. -/
theorem Tracks.of_uses {allowed : Op → Prop} {fact : W → Prop}
    (stable : ∀ {world later}, couple.rely world later → couple.invariant later → fact world → fact later)
    (keeps : ∀ {op before}, allowed op → couple.invariant before → fact before → couple.enabled op op before ∧
      ∀ reply reply' after, couple.acts op op before reply reply' after →
        reply = reply' ∧ couple.invariant after ∧ couple.guarantee before after ∧ fact after)
    {program : Program Op Reply α} (uses : program.Uses allowed) {world : W} (holds : fact world) :
    couple.Tracks program program (fun value value' after => value = value' ∧ fact after) world := by
  induction program generalizing world with
  | pure value => exact ⟨value, rfl, fun later moves kept => ⟨rfl, stable moves kept holds⟩⟩
  | request op next ih =>
    refine ⟨op, next, rfl, fun between moves kept => ?_⟩
    obtain ⟨enabled, each⟩ := keeps uses.1 kept (stable moves kept holds)
    refine ⟨enabled, fun reply reply' after acts => ?_⟩
    obtain ⟨rfl, kept', guarantees, holds'⟩ := each reply reply' after acts
    exact ⟨kept', guarantees, ih reply (uses.2 reply) holds'⟩
  | doWhile body again value next bodyIh ih =>
    have parts : ∀ last last' after, couple.invariant after → last = last' ∧ fact after →
        Parts again again (fun value value' world => value = value' ∧ fact world) (fun last last' =>
          couple.Tracks (next last) (next last') fun value value' after => value = value' ∧
            fact after) last last' after := by
      intro last _ after _ given
      obtain ⟨rfl, holds'⟩ := given
      refine ⟨rfl, ?_⟩
      split
      · exact ⟨rfl, holds'⟩
      · exact ih last (uses.2 last) holds'
    refine ⟨body, again, value, next, rfl, fun value value' world => value = value' ∧ fact world, ?_, ?_⟩
    · intro value _ start _ given
      obtain ⟨rfl, holds'⟩ := given
      exact (bodyIh value (uses.1 value) holds').mono parts
    · exact (bodyIh value (uses.1 value) holds).mono parts

variable (couple) in
/-- What the next turns of two programs that track each other look like. -/
def Abreast (post : α → α → W → Prop) (world : W) : Turn Op Reply α → Turn Op Reply α → Prop
  | .ended value, .ended value' => post value value' world
  | .silent rest, .silent rest' => couple.Tracks rest rest' post world
  | .asks op next, .asks op' next' => couple.enabled op op' world ∧ ∀ reply reply' after,
      couple.acts op op' world reply reply' after →
        couple.invariant after ∧ couple.guarantee world after ∧ couple.Tracks (next reply) (next' reply') post after
  | _, _ => False

theorem Tracks.turn {program other : Program Op Reply α} (kept : couple.invariant world)
    (tracks : couple.Tracks program other post world) : couple.Abreast post world program.turn other.turn := by
  induction program with
  | pure value =>
    obtain ⟨value', rfl, holds⟩ := tracks
    exact holds world (couple.refl world) kept
  | request op next _ =>
    obtain ⟨op', next', rfl, each⟩ := tracks
    exact each world (couple.refl world) kept
  | doWhile body again value next bodyIh _ =>
    obtain ⟨body', again', value', next', rfl, entry, closed, first⟩ := tracks
    have reenter : ∀ last last' after, couple.invariant after →
        Parts again again' entry (fun last last' => couple.Tracks (next last) (next' last') post) last last' after →
        couple.Tracks (if again last then .doWhile body again last next else next last)
          (if again' last' then .doWhile body' again' last' next' else next' last') post after := by
      intro last last' after kept given
      obtain ⟨same, parts⟩ := given
      cases stays : again last with
      | true =>
        rw [stays] at same parts
        rw [if_pos rfl, if_pos same.symm]
        exact Tracks.loop entry kept parts closed
      | false =>
        rw [stays] at same parts
        rw [if_neg Bool.false_ne_true, if_neg (same ▸ Bool.false_ne_true)]
        exact parts
    have inner := bodyIh value first
    simp only [Program.turn]
    generalize (body value).turn = step at inner
    generalize (body' value').turn = step' at inner
    cases step <;> cases step' <;> try exact inner.elim
    next last last' => exact reenter last last' world kept inner
    next rest rest' => exact Tracks.bind kept (inner.mono reenter)
    next op rest op' rest' =>
      refine ⟨inner.1, fun reply reply' after acts => ?_⟩
      obtain ⟨kept', guarantees, later⟩ := inner.2 reply reply' after acts
      exact ⟨kept', guarantees, Tracks.bind kept' (later.mono reenter)⟩

end Couple
/-- What the threads of two runs promise one another. Only the runs whose log is
`permitted` are looked at. -/
structure Tandem (ι Op : Type) (Reply : Op → Type) (σ : Type) where
  invariant : World ι Op Reply σ × World ι Op Reply σ → Prop
  rely : ι → World ι Op Reply σ × World ι Op Reply σ → World ι Op Reply σ × World ι Op Reply σ → Prop
  guarantee : ι → World ι Op Reply σ × World ι Op Reply σ → World ι Op Reply σ × World ι Op Reply σ → Prop
  refl : ∀ thread worlds, rely thread worlds worlds
  trans : ∀ thread {first second third}, rely thread first second → rely thread second third → rely thread first third
  compatible : ∀ {thread other before after}, other ≠ thread → guarantee thread before after → rely other before after
  permitted : List (Event ι Op Reply σ) → Prop
  closed : ∀ log more, permitted (log ++ more) → permitted log

namespace Tandem

variable (tandem : Tandem ι Op Reply σ)

def couple (handle : χ → Handler Op Reply σ) (thread : ι) :
    Couple Op Reply (World ι Op Reply σ × World ι Op Reply σ) where
  acts op op' before reply reply' after := ∃ choice,
    (handle choice op before.1.state = some (reply, after.1.state) ∧
      after.1.log = before.1.log ++ [⟨thread, op, reply, after.1.state⟩]) ∧
    (handle choice op' before.2.state = some (reply', after.2.state) ∧
      after.2.log = before.2.log ++ [⟨thread, op', reply', after.2.state⟩]) ∧ tandem.permitted after.1.log
  enabled op op' worlds :=
    ∀ choice, (handle choice op worlds.1.state).isSome = true ∧ (handle choice op' worlds.2.state).isSome = true
  invariant := tandem.invariant
  rely := tandem.rely thread
  guarantee := tandem.guarantee thread
  refl := tandem.refl thread
  trans := tandem.trans thread

variable {tandem} {handle : χ → Handler Op Reply σ} {α : ι → Type}
  {post : (thread : ι) → α thread → α thread → World ι Op Reply σ × World ι Op Reply σ → Prop}

/-- Every thread still tracks its copy. -/
def Holds (tandem : Tandem ι Op Reply σ) (handle : χ → Handler Op Reply σ)
    (post : (thread : ι) → α thread → α thread → World ι Op Reply σ × World ι Op Reply σ → Prop)
    (first second : Pool ι Op Reply σ α) : Prop :=
  tandem.invariant (first.world, second.world) ∧ ∀ thread, (tandem.couple handle thread).Tracks (first.threads thread)
    (second.threads thread) (post thread) (first.world, second.world)

variable [DecidableEq ι] {first second next final : Pool ι Op Reply σ α} {thread : ι} {choice : χ}

/-- A thread that has not returned can make its next step. -/
theorem Holds.running (holds : tandem.Holds handle post first second)
    (running : (first.threads thread).returned = none) :
    (first.step handle thread choice).isSome = true := by
  have abreast := (holds.2 thread).turn holds.1
  rw [Pool.step, Option.isSome_map, Program.advance_turn]
  generalize (second.threads thread).turn = step' at abreast
  cases step : (first.threads thread).turn with
  | ended value =>
    rw [Program.turn_ended.mp step] at running
    cases running
  | silent rest => rfl
  | asks op rest =>
    rw [step] at abreast
    cases step' with
    | asks op' rest' =>
      rw [Option.isSome_map]
      exact (abreast.1 choice).1
    | _ => exact abreast.elim

theorem step_holds (holds : tandem.Holds handle post first second)
    (stepped : first.step handle thread choice = some next)
    (permitted : tandem.permitted next.world.log) :
    ∃ next', second.step handle thread choice = some next' ∧ tandem.Holds handle post next next' := by
  obtain ⟨⟨event, rest, state⟩, advanced, same⟩ := Option.map_eq_some_iff.mp stepped
  cases same
  have abreast := (holds.2 thread).turn holds.1
  rw [Program.advance_turn] at advanced
  simp only [Pool.step, Program.advance_turn]
  generalize (first.threads thread).turn = step at abreast advanced
  generalize (second.threads thread).turn = step' at abreast
  cases step with
  | ended value => cases advanced
  | silent rest =>
    cases advanced
    cases step' with
    | silent rest' =>
      have later : (tandem.couple handle thread).Tracks rest rest' (post thread) (first.world, second.world) := abreast
      refine ⟨_, rfl, holds.1, fun other => ?_⟩
      by_cases here : other = thread
      · subst other
        simpa only [Function.update_self, World.record] using later
      · simpa only [Function.update_of_ne here, World.record] using holds.2 other
    | _ => exact abreast.elim
  | asks op next =>
    obtain ⟨⟨reply, following⟩, answered, same⟩ := Option.map_eq_some_iff.mp advanced
    cases same
    cases step' with
    | asks op' next' =>
      obtain ⟨enabled, each⟩ := abreast
      obtain ⟨⟨reply', following'⟩, answered'⟩ := Option.isSome_iff_exists.mp (enabled choice).2
      have answered' : handle choice op' second.world.state = some (reply', following') := answered'
      obtain ⟨kept, guarantees, later⟩ := each reply reply' (first.world.record thread (some ⟨op, reply⟩) state,
        second.world.record thread (some ⟨op', reply'⟩) following')
          ⟨choice, ⟨answered, rfl⟩, ⟨answered', rfl⟩, permitted⟩
      refine ⟨⟨Function.update second.threads thread (next' reply'),
        second.world.record thread (some ⟨op', reply'⟩) following'⟩,
        ?_, kept, fun other => ?_⟩
      · simp only [answered', Option.map_some]
      by_cases here : other = thread
      · subst other
        simpa only [Function.update_self] using later
      · simpa only [Function.update_of_ne here] using (holds.2 other).stable (tandem.compatible here guarantees)
    | _ => exact abreast.elim

private theorem step_log (stepped : first.step handle thread choice = some next) :
    first.world.log <+: next.world.log := by
  obtain ⟨⟨event, rest, state⟩, _, same⟩ := Option.map_eq_some_iff.mp stepped
  cases same
  cases event with
  | none => exact List.prefix_refl _
  | some event => exact List.prefix_append ..

theorem run_log {schedule : List (ι × χ)} (ran : first.run handle schedule = some final) :
    first.world.log <+: final.world.log := by
  induction schedule generalizing first with
  | nil =>
    cases ran
    exact List.prefix_refl _
  | cons turn schedule ih =>
    obtain ⟨next, stepped, rest⟩ := Option.bind_eq_some_iff.mp ran
    exact (step_log stepped).trans (ih rest)

/-- The second run exists as soon as the first does, and still tracks it at its end. -/
theorem run_holds {schedule : List (ι × χ)} (holds : tandem.Holds handle post first second)
    (ran : first.run handle schedule = some final) (permitted : tandem.permitted final.world.log) :
    ∃ final', second.run handle schedule = some final' ∧ tandem.Holds handle post final final' := by
  induction schedule generalizing first second with
  | nil =>
    cases ran
    exact ⟨second, rfl, holds⟩
  | cons turn schedule ih =>
    obtain ⟨next, stepped, rest⟩ := Option.bind_eq_some_iff.mp ran
    obtain ⟨more, grown⟩ := run_log rest
    obtain ⟨next', stepped', holds'⟩ := step_holds holds stepped (tandem.closed _ more (by rwa [grown]))
    obtain ⟨final', ran', last⟩ := ih holds' rest
    exact ⟨final', Option.bind_eq_some_iff.mpr ⟨next', stepped', ran'⟩, last⟩

end Tandem
end EthercatSlave
