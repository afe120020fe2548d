import EthercatSlave.Interleaving

/-! Rely-guarantee reasoning over the syntax of programs. `Ensures` runs a
program symbolically and lets the other threads move before each of its steps;
a protocol says what each thread may rely on and what it must guarantee. -/

namespace EthercatSlave

variable {Op : Type} {Reply : Op → Type} {W σ χ ι α β : Type}

structure Rules (Op : Type) (Reply : Op → Type) (W : Type) where
  acts : (op : Op) → W → Reply op → W → Prop
  invariant : W → Prop
  rely : W → W → Prop
  guarantee : W → W → Prop
  refl : ∀ world, rely world world
  trans : ∀ {first second third}, rely first second → rely second third → rely first third

namespace Rules

variable (rules : Rules Op Reply W)

/-- Where the body of a loop may stop: in front of another round, or after the
last one with the rest of the program ensured. -/
def Exits (again : β → Bool) (entry leaves : β → W → Prop) (last : β) (after : W) : Prop :=
  match again last with
  | true => entry last after
  | false => leaves last after

theorem Exits.intro {again : β → Bool} {entry leaves : β → W → Prop} {last : β} {after : W}
    (more : again last = true → entry last after) (done : again last = false → leaves last after) :
    Exits again entry leaves last after := by
  unfold Exits
  split
  next stays => exact more stays
  next stops => exact done stops

theorem Exits.imp {again : β → Bool} {entry leaves leaves' : β → W → Prop} {last : β} {after : W}
    (exits : Exits again entry leaves last after) (implies : leaves last after → leaves' last after) :
    Exits again entry leaves' last after := by
  unfold Exits at *
  split <;> simp_all only

/-- From `world` on, every step of the program keeps the invariant and the
guarantee, and a returned value satisfies `post`, however the others interfere. -/
def Ensures : {α : Type} → Program Op Reply α → (α → W → Prop) → W → Prop
  | _, .pure value, post, world =>
      ∀ later, rules.rely world later → rules.invariant later → post value later
  | _, .request op next, post, world =>
      ∀ between, rules.rely world between → rules.invariant between →
        ∀ reply after, rules.acts op between reply after →
          rules.invariant after ∧ rules.guarantee between after ∧ Ensures (next reply) post after
  | _, .doWhile body again value next, post, world =>
      ∃ entry : _ → W → Prop,
        (∀ value start, rules.invariant start → entry value start →
          Ensures (body value) (Exits again entry (fun last => Ensures (next last) post)) start) ∧
        Ensures (body value) (Exits again entry (fun last => Ensures (next last) post)) world

variable {rules}

theorem Ensures.mono {program : Program Op Reply α} {post weaker : α → W → Prop} {world : W}
    (ensures : rules.Ensures program post world)
    (implies : ∀ value after, rules.invariant after → post value after → weaker value after) :
    rules.Ensures program weaker world := by
  induction program generalizing world with
  | pure value => exact fun later moves kept => implies value later kept (ensures later moves kept)
  | request op next ih =>
    intro between moves kept reply after acts
    obtain ⟨kept', guarantees, rest⟩ := ensures between moves kept reply after acts
    exact ⟨kept', guarantees, ih reply rest implies⟩
  | doWhile body again value next bodyIh ih =>
    obtain ⟨entry, closed, first⟩ := ensures
    have weaken : ∀ last after, rules.invariant after →
        Exits again entry (fun last => rules.Ensures (next last) post) last after →
        Exits again entry (fun last => rules.Ensures (next last) weaker) last after :=
      fun last _ _ exits => exits.imp (fun holds => ih last holds implies)
    exact ⟨entry, fun value start kept holds => bodyIh value (closed value start kept holds) weaken,
      bodyIh value first weaken⟩

theorem Ensures.stable {program : Program Op Reply α} {post : α → W → Prop} {world later : W}
    (ensures : rules.Ensures program post world) (moves : rules.rely world later) :
    rules.Ensures program post later := by
  induction program generalizing world later with
  | pure value => exact fun last moves' kept => ensures last (rules.trans moves moves') kept
  | request op next _ => exact fun between moves' kept => ensures between (rules.trans moves moves') kept
  | doWhile body again value next bodyIh _ =>
    obtain ⟨entry, closed, first⟩ := ensures
    exact ⟨entry, closed, bodyIh value first moves⟩

theorem Ensures.bind {program : Program Op Reply α} {next : α → Program Op Reply β} {post : β → W → Prop}
    {world : W} (kept : rules.invariant world)
    (ensures : rules.Ensures program (fun value after => rules.Ensures (next value) post after) world) :
    rules.Ensures (program.bind next) post world := by
  induction program generalizing world with
  | pure value => exact ensures world (rules.refl world) kept
  | request op rest ih =>
    intro between moves kept' reply after acts
    obtain ⟨kept'', guarantees, later⟩ := ensures between moves kept' reply after acts
    exact ⟨kept'', guarantees, ih reply kept'' later⟩
  | doWhile body again value rest _ ih =>
    obtain ⟨entry, closed, first⟩ := ensures
    have push : ∀ last after, rules.invariant after →
        Exits again entry (fun last =>
          rules.Ensures (rest last) (fun value after => rules.Ensures (next value) post after)) last after →
        Exits again entry (fun last => rules.Ensures ((rest last).bind next) post) last after :=
      fun last _ kept exits => exits.imp (ih last kept)
    exact ⟨entry, fun value start kept holds => (closed value start kept holds).mono push, first.mono push⟩

theorem Ensures.loop {body : β → Program Op Reply β} {again : β → Bool} {value : β} {next : β → Program Op Reply α}
    {post : α → W → Prop} {world : W} (entry : β → W → Prop) (kept : rules.invariant world) (enters : entry value world)
    (round : ∀ value start, rules.invariant start → entry value start → rules.Ensures (body value)
      (Exits again entry (fun last => rules.Ensures (next last) post)) start) :
    rules.Ensures (.doWhile body again value next) post world :=
  ⟨entry, round, round value world kept enters⟩

/-- A counted loop: `holds index value` in front of each execution of its body. -/
theorem Ensures.forUp {body : Nat → β → Program Op Reply β} (holds : Nat → β → W → Prop)
    (stable : ∀ {index value world later}, rules.rely world later → rules.invariant later → holds index value world →
      holds index value later)
    (count first : Nat) (value : β) (world : W)
    (each : ∀ index value world, first ≤ index → index < first + count → rules.invariant world →
      holds index value world → rules.Ensures (body index value) (holds (index + 1)) world)
    (kept : rules.invariant world) (starts : holds first value world) :
    rules.Ensures (Program.forUp body count first value) (holds (first + count)) world := by
  induction count generalizing first value world with
  | zero => exact fun later moves kept' => stable moves kept' starts
  | succ count ih =>
    have rest : ∀ value' after, rules.invariant after → holds (first + 1) value' after →
        rules.Ensures (Program.forUp body count (first + 1) value') (holds (first + (count + 1))) after := by
      intro value' after kept' holds'
      have later := ih (first + 1) value' after
        (fun index value world low high => each index value world (by omega) (by omega)) kept' holds'
      rwa [show first + 1 + count = first + (count + 1) by omega] at later
    exact Ensures.bind kept ((each first value world (Nat.le_refl _) (by omega) kept starts).mono rest)

theorem Ensures.times {body : Program Op Reply Unit} (holds : W → Prop)
    (stable : ∀ {world later}, rules.rely world later → rules.invariant later → holds world → holds later)
    (each : ∀ world, rules.invariant world → holds world → rules.Ensures body (fun _ => holds) world)
    (count : Nat) (world : W) (kept : rules.invariant world) (starts : holds world) :
    rules.Ensures (Program.times body count) (fun _ => holds) world := by
  induction count generalizing world with
  | zero => exact fun later moves kept' => stable moves kept' starts
  | succ count ih =>
    exact Ensures.bind kept ((each world kept starts).mono fun _ after kept' holds' => ih after kept' holds')

/-- A program whose every request keeps `fact` may be run for as long as it
likes; this is how code is skipped that does not touch what a proof is about. -/
theorem Ensures.of_uses {allowed : Op → Prop} {fact : W → Prop}
    (stable : ∀ {world later}, rules.rely world later → rules.invariant later → fact world → fact later)
    (keeps : ∀ {op before reply after}, allowed op → rules.invariant before → fact before →
      rules.acts op before reply after →
        rules.invariant after ∧ rules.guarantee before after ∧ fact after)
    {program : Program Op Reply α} (uses : program.Uses allowed) {world : W} (holds : fact world) :
    rules.Ensures program (fun _ => fact) world := by
  induction program generalizing world with
  | pure value => exact fun later moves kept => stable moves kept holds
  | request op next ih =>
    intro between moves kept reply after acts
    obtain ⟨kept', guarantees, holds'⟩ := keeps uses.1 kept (stable moves kept holds) acts
    exact ⟨kept', guarantees, ih reply (uses.2 reply) holds'⟩
  | doWhile body again value next bodyIh ih =>
    have exits : ∀ last after, rules.invariant after → fact after →
        Exits again (fun _ => fact) (fun last => rules.Ensures (next last) (fun _ => fact)) last after := by
      intro last after _ holds'
      unfold Exits
      split
      · exact holds'
      · exact ih last (uses.2 last) holds'
    exact ⟨fun _ => fact, fun value start _ holds' => (bodyIh value (uses.1 value) holds').mono exits,
      (bodyIh value (uses.1 value) holds).mono exits⟩

section Embedding

variable {Op' : Type} {Reply' : Op' → Type} {into : Op' → Op} {answer : (op : Op') → Reply (into op) → Reply' op}

variable (rules) in
def via (into : Op' → Op) (answer : (op : Op') → Reply (into op) → Reply' op) : Rules Op' Reply' W where
  acts op before reply after := ∃ given, rules.acts (into op) before given after ∧ answer op given = reply
  invariant := rules.invariant
  rely := rules.rely
  guarantee := rules.guarantee
  refl := rules.refl
  trans := rules.trans

theorem Ensures.embed {program : Program Op' Reply' α} {post : α → W → Prop} {world : W}
    (ensures : (rules.via into answer).Ensures program post world) :
    rules.Ensures (program.embed into answer) post world := by
  induction program generalizing world with
  | pure value => exact ensures
  | request op next ih =>
    intro between moves kept given after acts
    obtain ⟨kept', guarantees, rest⟩ := ensures between moves kept (answer op given) after ⟨given, acts, rfl⟩
    exact ⟨kept', guarantees, ih _ rest⟩
  | doWhile body again value next bodyIh ih =>
    obtain ⟨entry, closed, first⟩ := ensures
    have exits : ∀ last after, rules.invariant after →
        Exits again entry (fun last => (rules.via into answer).Ensures (next last) post) last after →
        Exits again entry (fun last => rules.Ensures ((next last).embed into answer) post) last after :=
      fun last _ _ exits => exits.imp (ih last)
    exact ⟨entry, fun value start kept holds => (bodyIh value (closed value start kept holds)).mono exits,
      (bodyIh value first).mono exits⟩

end Embedding

variable (rules) in
/-- What a step out of `world` leaves to be shown about the rest of a program. -/
def Moves (handle : Handler Op Reply σ) (rest : Program Op Reply α) (post : α → W → Prop) (world : W)
    (state following : σ) : Option ((op : Op) × Reply op) → Prop
  | none => following = state ∧ rules.Ensures rest post world
  | some ⟨op, reply⟩ => handle op state = some (reply, following) ∧
      ∀ after, rules.acts op world reply after →
        rules.invariant after ∧ rules.guarantee world after ∧ rules.Ensures rest post after

theorem Ensures.advance {handle : Handler Op Reply σ} {program rest : Program Op Reply α}
    {post : α → W → Prop} {world : W} {event : Option ((op : Op) × Reply op)} {state following : σ}
    (kept : rules.invariant world) (ensures : rules.Ensures program post world)
    (stepped : program.advance handle state = some (event, rest, following)) :
    rules.Moves handle rest post world state following event := by
  induction program generalizing world event following with
  | pure value => cases stepped
  | request op next _ =>
    obtain ⟨⟨reply, middle⟩, answered, same⟩ := Option.map_eq_some_iff.mp stepped
    cases same
    exact ⟨answered, fun after acts => ensures world (rules.refl world) kept reply after acts⟩
  | doWhile body again value next bodyIh _ =>
    obtain ⟨entry, closed, first⟩ := ensures
    have reenter : ∀ last after, rules.invariant after →
        Exits again entry (fun last => rules.Ensures (next last) post) last after →
        rules.Ensures (if again last then .doWhile body again last next else next last) post after := by
      intro last after kept exits
      unfold Exits at exits
      split at exits
      next more =>
        rw [if_pos more]
        exact Ensures.loop entry kept exits closed
      next done =>
        rw [if_neg (by simp [done])]
        exact exits
    simp only [Program.advance] at stepped
    split at stepped
    next last returned =>
      generalize body value = round at *
      cases round <;> cases returned
      cases stepped
      exact ⟨rfl, reenter _ world kept (first world (rules.refl world) kept)⟩
    next =>
      obtain ⟨⟨event', rest', middle⟩, moved, same⟩ := Option.map_eq_some_iff.mp stepped
      cases same
      have inner := bodyIh value kept first moved
      cases event' with
      | none => exact ⟨inner.1, Ensures.bind kept (inner.2.mono reenter)⟩
      | some event =>
        refine ⟨inner.1, fun after acts => ?_⟩
        obtain ⟨kept', guarantees, later⟩ := inner.2 after acts
        exact ⟨kept', guarantees, Ensures.bind kept' (later.mono reenter)⟩

end Rules

/-- What the threads of a pool promise one another. Every guarantee is within
what each other thread relies on. -/
structure Protocol (ι Op : Type) (Reply : Op → Type) (σ : Type) where
  invariant : World ι Op Reply σ → Prop
  rely : ι → World ι Op Reply σ → World ι Op Reply σ → Prop
  guarantee : ι → World ι Op Reply σ → World ι Op Reply σ → Prop
  refl : ∀ thread world, rely thread world world
  trans : ∀ thread {first second third}, rely thread first second → rely thread second third →
    rely thread first third
  compatible : ∀ {thread other before after}, other ≠ thread → guarantee thread before after →
    rely other before after

namespace Protocol

variable (protocol : Protocol ι Op Reply σ)

def rules (handle : χ → Handler Op Reply σ) (thread : ι) : Rules Op Reply (World ι Op Reply σ) where
  acts := Pool.acts handle thread
  invariant := protocol.invariant
  rely := protocol.rely thread
  guarantee := protocol.guarantee thread
  refl := protocol.refl thread
  trans := protocol.trans thread

variable {protocol} {handle : χ → Handler Op Reply σ} {α : ι → Type} [DecidableEq ι]

def Holds (protocol : Protocol ι Op Reply σ) (handle : χ → Handler Op Reply σ)
    (post : (thread : ι) → α thread → World ι Op Reply σ → Prop) (pool : Pool ι Op Reply σ α) : Prop :=
  protocol.invariant pool.world ∧
    ∀ thread, (protocol.rules handle thread).Ensures (pool.threads thread) (post thread) pool.world

theorem step_holds {post : (thread : ι) → α thread → World ι Op Reply σ → Prop}
    {pool next : Pool ι Op Reply σ α} {thread : ι} {choice : χ} (holds : protocol.Holds handle post pool)
    (stepped : pool.step handle thread choice = some next) : protocol.Holds handle post next := by
  obtain ⟨⟨event, rest, state⟩, advanced, same⟩ := Option.map_eq_some_iff.mp stepped
  cases same
  have moved := (holds.2 thread).advance holds.1 advanced
  cases event with
  | none =>
    obtain ⟨rfl, later⟩ := moved
    refine ⟨holds.1, fun other => ?_⟩
    by_cases same : other = thread
    · subst other
      simpa only [Function.update_self, World.record] using later
    · simpa only [Function.update_of_ne same, World.record] using holds.2 other
  | some event =>
    obtain ⟨answered, later⟩ := moved
    obtain ⟨kept, guarantees, later⟩ := later (pool.world.record thread (some event) state) ⟨choice, answered, rfl⟩
    refine ⟨kept, fun other => ?_⟩
    by_cases same : other = thread
    · subst other
      simpa only [Function.update_self] using later
    · simpa only [Function.update_of_ne same] using (holds.2 other).stable (protocol.compatible same guarantees)

/-- Threads that each honour the protocol do so along every schedule. -/
theorem run_holds {post : (thread : ι) → α thread → World ι Op Reply σ → Prop}
    {pool final : Pool ι Op Reply σ α} {schedule : List (ι × χ)} (holds : protocol.Holds handle post pool)
    (ran : pool.run handle schedule = some final) : protocol.Holds handle post final :=
  Pool.run_induction (fun _ _ _ _ => step_holds) holds ran

omit [DecidableEq ι] in
theorem Holds.returned {post : (thread : ι) → α thread → World ι Op Reply σ → Prop}
    {pool : Pool ι Op Reply σ α} (holds : protocol.Holds handle post pool) {thread : ι} {value : α thread}
    (returned : pool.threads thread = .pure value) : post thread value pool.world := by
  have ensured := holds.2 thread
  rw [returned] at ensured
  exact ensured pool.world (protocol.refl thread pool.world) holds.1

end Protocol
end EthercatSlave
