import EthercatSlave.Proofs.Endings
import EthercatSlave.Proofs.RelyGuarantee

/-! Protocols put together. What a program ensures under two protocols it
ensures under both at once, and a fact that single steps re-establish from the
invariant around them becomes part of the invariant. How a program ends carries
over to what it ensures. -/

namespace EthercatSlave

namespace Rules
open Program

variable {Op : Type} {Reply : Op → Type} {W α : Type} {rules : Rules Op Reply W}

/-- A program that ends with a final answer ensures `done` after it, and `quiet` without it. -/
theorem Ensures.of_endsAt {possible final : (op : Op) → Reply op → Prop} {allowed : Op → Prop} {quiet done : W → Prop}
    (quiets : ∀ {world later}, rules.rely world later → quiet world → quiet later)
    (dones : ∀ {world later}, rules.rely world later → done world → done later)
    (keeps : ∀ {op before reply after}, allowed op → rules.invariant before → quiet before →
      rules.acts op before reply after → rules.invariant after ∧ rules.guarantee before after ∧ possible op reply ∧
        (final op reply → done after) ∧ (¬ final op reply → quiet after))
    {program : Program Op Reply α} {ended other : α → Prop} (uses : program.Uses allowed)
    (ends : program.EndsAt possible final ended other) {world : W} (holds : quiet world) :
    rules.Ensures program (fun value after => ended value ∧ done after ∨ other value ∧ quiet after) world := by
  induction program generalizing world with
  | pure value => exact fun later moves _ => .inr ⟨ends, quiets moves holds⟩
  | request op next ih =>
    intro between moves kept reply after acts
    obtain ⟨kept', guarantees, allows, closes, stays⟩ := keeps uses.1 kept (quiets moves holds) acts
    obtain ⟨last, more⟩ := ends reply allows
    refine ⟨kept', guarantees, ?_⟩
    by_cases closing : final op reply
    · obtain ⟨value, stops, holds'⟩ := last closing
      rw [stops]
      exact fun later moves' _ => .inl ⟨holds', dones moves' (closes closing)⟩
    · exact ih reply (uses.2 reply) (more closing) (stays closing)
  | doWhile body again first next bodyIh ih =>
    obtain ⟨entry, starts, round⟩ := ends
    have exits : ∀ value start, entry value → quiet start → rules.Ensures (body value)
        (Exits again (fun last after => entry last ∧ quiet after) fun last => rules.Ensures (next last)
          fun value after => ended value ∧ done after ∨ other value ∧ quiet after) start := by
      intro value start enters holds'
      refine (bodyIh value (uses.1 value) (round value enters) holds').mono fun last after _ outcome => ?_
      obtain ⟨⟨leaves, result, stops, holds''⟩, after_done⟩ | ⟨⟨stays, leaves⟩, calm⟩ := outcome
      · refine Exits.intro (fun more => absurd more (by simp [leaves])) fun _ => ?_
        rw [stops]
        exact fun later moves _ => .inl ⟨holds'', dones moves after_done⟩
      · exact Exits.intro (fun more => ⟨stays more, calm⟩) fun stopped => ih last (uses.2 last) (leaves stopped) calm
    exact ⟨fun value start => entry value ∧ quiet start, fun value start _ enters =>
      exits value start enters.1 enters.2,
      exits first world starts holds⟩

end Rules

namespace Protocol

variable {Op : Type} {Reply : Op → Type} {σ χ ι α β : Type} {handle : χ → Handler Op Reply σ} {thread : ι}

def both (first second : Protocol ι Op Reply σ) : Protocol ι Op Reply σ where
  invariant world := first.invariant world ∧ second.invariant world
  rely thread before after := first.rely thread before after ∧ second.rely thread before after
  guarantee thread before after := first.guarantee thread before after ∧ second.guarantee thread before after
  refl thread world := ⟨first.refl thread world, second.refl thread world⟩
  trans thread {_ _ _} left right := ⟨first.trans thread left.1 right.1, second.trans thread left.2 right.2⟩
  compatible different step := ⟨first.compatible different step.1, second.compatible different step.2⟩

theorem ensures_both {first second : Protocol ι Op Reply σ} {program : Program Op Reply α}
    {post post' : α → World ι Op Reply σ → Prop} {world : World ι Op Reply σ}
    (left : (first.rules handle thread).Ensures program post world)
    (right : (second.rules handle thread).Ensures program post' world) :
    ((first.both second).rules handle thread).Ensures program (fun value after => post value after ∧ post' value after)
      world := by
  induction program generalizing world with
  | pure value =>
    exact fun later moves kept => ⟨left later moves.1 kept.1, right later moves.2 kept.2⟩
  | request op next ih =>
    intro between moves kept reply after acts
    obtain ⟨kept', guarantees, rest⟩ := left between moves.1 kept.1 reply after acts
    obtain ⟨kept'', guarantees', rest'⟩ := right between moves.2 kept.2 reply after acts
    exact ⟨⟨kept', kept''⟩, ⟨guarantees, guarantees'⟩, ih reply rest rest'⟩
  | doWhile body again value next bodyIh ih =>
    obtain ⟨entry, closed, starts⟩ := left
    obtain ⟨entry', closed', starts'⟩ := right
    have exits : ∀ last after, (first.both second).invariant after →
        Rules.Exits again entry (fun last => (first.rules handle thread).Ensures (next last) post) last after ∧
          Rules.Exits again entry' (fun last => (second.rules handle thread).Ensures (next last) post') last after →
        Rules.Exits again (fun last after => entry last after ∧ entry' last after) (fun last =>
          ((first.both second).rules handle thread).Ensures (next last) fun value after =>
            post value after ∧ post' value after) last after := by
      intro last after _ leaves
      unfold Rules.Exits at leaves ⊢
      split at leaves
      · exact leaves
      · exact ih last leaves.1 leaves.2
    refine ⟨fun value world => entry value world ∧ entry' value world, fun value start kept holds => ?_,
      (bodyIh value starts starts').mono exits⟩
    exact (bodyIh value (closed value start kept.1 holds.1) (closed' value start kept.2 holds.2)).mono exits

/-- A protocol whose invariant says `fact` as well. -/
def along (protocol : Protocol ι Op Reply σ) (fact : World ι Op Reply σ → Prop) : Protocol ι Op Reply σ :=
  { protocol with invariant := fun world => protocol.invariant world ∧ fact world }

theorem ensures_along {protocol : Protocol ι Op Reply σ} {fact : World ι Op Reply σ → Prop}
    (kept : ∀ {op before reply after}, Pool.acts handle thread op before reply after → protocol.invariant before →
      protocol.invariant after → protocol.guarantee thread before after → fact before → fact after)
    {program : Program Op Reply α} {post : α → World ι Op Reply σ → Prop} {world : World ι Op Reply σ}
    (ensures : (protocol.rules handle thread).Ensures program post world) :
    ((protocol.along fact).rules handle thread).Ensures program post world := by
  induction program generalizing world with
  | pure value => exact fun later moves holds => ensures later moves holds.1
  | request op next ih =>
    intro between moves holds reply after acts
    obtain ⟨holds', guarantees, rest⟩ := ensures between moves holds.1 reply after acts
    exact ⟨⟨holds', kept acts holds.1 holds' guarantees holds.2⟩, guarantees, ih reply rest⟩
  | doWhile body again value next bodyIh ih =>
    obtain ⟨entry, closed, starts⟩ := ensures
    have exits : ∀ last after, (protocol.along fact).invariant after →
        Rules.Exits again entry (fun last => (protocol.rules handle thread).Ensures (next last) post) last after →
        Rules.Exits again entry (fun last => ((protocol.along fact).rules handle thread).Ensures (next last) post)
          last after :=
      fun last _ _ leaves => leaves.imp (ih last)
    exact ⟨entry, fun value start holds enters => (bodyIh value (closed value start holds.1 enters)).mono exits,
      (bodyIh value starts).mono exits⟩

end Protocol
end EthercatSlave
