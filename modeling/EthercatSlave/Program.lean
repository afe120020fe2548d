import Mathlib.Init

/-! Programs that reach their surroundings only through typed requests. C's
do-while loop is kept as syntax, so a program is a finite tree even when one of
its runs is not. Nothing here fixes what a request means. -/

namespace EthercatSlave

inductive Program (Op : Type) (Reply : Op → Type) : Type → Type 1 where
  | pure {α : Type} (value : α) : Program Op Reply α
  | request {α : Type} (op : Op) (next : Reply op → Program Op Reply α) : Program Op Reply α
  | doWhile {α β : Type} (body : β → Program Op Reply β) (again : β → Bool) (value : β)
      (next : β → Program Op Reply α) : Program Op Reply α

namespace Program

variable {Op : Type} {Reply : Op → Type} {α β γ : Type}

def bind {α β : Type} (program : Program Op Reply α) (next : α → Program Op Reply β) :
    Program Op Reply β :=
  match program with
  | .pure value => next value
  | .request op rest => .request op (fun reply => (rest reply).bind next)
  | .doWhile body again value rest => .doWhile body again value (fun last => (rest last).bind next)

instance : Monad (Program Op Reply) where
  pure := .pure
  bind := .bind

def ask (op : Op) : Program Op Reply (Reply op) := .request op .pure

/-- `do { value = body; } while (again(value));`, yielding the last value. What
the variable holds before the first round is not read. -/
def loop [Inhabited β] (body : Program Op Reply β) (again : β → Bool) : Program Op Reply β :=
  .doWhile (fun _ => body) again default .pure

/-- `while (again(value)) value = body(value);` -/
def whileDo (again : β → Bool) (body : β → Program Op Reply β) (value : β) : Program Op Reply β :=
  if again value then .doWhile body again value .pure else .pure value

/-- `for (i = first; i < first + count; i++) value = body(i, value);` -/
def forUp (body : Nat → β → Program Op Reply β) : (count first : Nat) → β → Program Op Reply β
  | 0, _, value => .pure value
  | count + 1, first, value => do
    let next ← body first value
    forUp body count (first + 1) next

/-- Runs `body` a fixed number of times, one execution after the other. -/
def times (body : Program Op Reply Unit) : Nat → Program Op Reply Unit
  | 0 => .pure ()
  | count + 1 => do body; times body count

@[simp] theorem pure_eq (value : α) : (Pure.pure value : Program Op Reply α) = .pure value := rfl

@[simp] theorem bind_eq (program : Program Op Reply α) (next : α → Program Op Reply β) :
    program >>= next = program.bind next := rfl

@[simp] theorem pure_bind (value : α) (next : α → Program Op Reply β) :
    (Program.pure value : Program Op Reply α).bind next = next value := rfl

@[simp] theorem request_bind (op : Op) (rest : Reply op → Program Op Reply α)
    (next : α → Program Op Reply β) :
    (Program.request op rest).bind next = .request op (fun reply => (rest reply).bind next) := rfl

@[simp] theorem ask_bind (op : Op) (next : Reply op → Program Op Reply β) :
    (ask op).bind next = .request op next := rfl

@[simp] theorem loop_bind [Inhabited β] (body : Program Op Reply β) (again : β → Bool)
    (next : β → Program Op Reply γ) :
    (loop body again).bind next = .doWhile (fun _ => body) again default next := rfl

@[simp] theorem bind_pure (program : Program Op Reply α) : program.bind .pure = program := by
  induction program with
  | pure value => rfl
  | request op rest ih => simp only [request_bind, ih]
  | doWhile body again value rest _ ih => simp only [bind, ih]

@[simp] theorem bind_assoc (program : Program Op Reply α) (first : α → Program Op Reply β)
    (second : β → Program Op Reply γ) :
    (program.bind first).bind second = program.bind (fun value => (first value).bind second) := by
  induction program generalizing γ with
  | pure value => rfl
  | request op rest ih => simp only [request_bind, ih]
  | doWhile body again value rest _ ih => simp only [bind, ih]

/-- Every request the program can ever make is one that `allowed` permits. -/
def Uses (allowed : Op → Prop) : {α : Type} → Program Op Reply α → Prop
  | _, .pure _ => True
  | _, .request op next => allowed op ∧ ∀ reply, (next reply).Uses allowed
  | _, .doWhile body _ _ next => (∀ value, (body value).Uses allowed) ∧ ∀ last, (next last).Uses allowed

theorem Uses.mono {allowed permitted : Op → Prop} {program : Program Op Reply α} (uses : program.Uses allowed)
    (implies : ∀ op, allowed op → permitted op) : program.Uses permitted := by
  induction program with
  | pure value => trivial
  | request op rest ih => exact ⟨implies op uses.1, fun reply => ih reply (uses.2 reply)⟩
  | doWhile body again value rest bodyIh ih =>
    exact ⟨fun value => bodyIh value (uses.1 value), fun last => ih last (uses.2 last)⟩

theorem Uses.of_forall {allowed : Op → Prop} (all : ∀ op, allowed op) (program : Program Op Reply α) :
    program.Uses allowed := by
  induction program with
  | pure value => trivial
  | request op rest ih => exact ⟨all op, ih⟩
  | doWhile body again value rest bodyIh ih => exact ⟨bodyIh, ih⟩

theorem Uses.bind {allowed : Op → Prop} {program : Program Op Reply α}
    {next : α → Program Op Reply β} (first : program.Uses allowed)
    (rest : ∀ value, (next value).Uses allowed) : (program.bind next).Uses allowed := by
  induction program with
  | pure value => exact rest value
  | request op tail ih => exact ⟨first.1, fun reply => ih reply (first.2 reply) rest⟩
  | doWhile body again value tail _ ih => exact ⟨first.1, fun last => ih last (first.2 last) rest⟩

theorem Uses.ask {allowed : Op → Prop} {op : Op} (permitted : allowed op) :
    (Program.ask op : Program Op Reply (Reply op)).Uses allowed :=
  ⟨permitted, fun _ => trivial⟩

theorem Uses.forUp_below {allowed : Op → Prop} {body : Nat → β → Program Op Reply β} (count first : Nat) (value : β)
    (each : ∀ index value, index < first + count → (body index value).Uses allowed) :
    (forUp body count first value).Uses allowed := by
  induction count generalizing first value with
  | zero => trivial
  | succ count ih =>
    exact Uses.bind (each first value (by omega)) fun next =>
      ih (first + 1) next fun index value inside => each index value (by omega)

theorem Uses.forUp {allowed : Op → Prop} {body : Nat → β → Program Op Reply β} (count first : Nat) (value : β)
    (each : ∀ index value, (body index value).Uses allowed) : (forUp body count first value).Uses allowed :=
  Uses.forUp_below count first value fun index value _ => each index value

/-- A program without loops, whose requests are ones that `allowed` permits. -/
def Straight (allowed : Op → Prop) : {α : Type} → Program Op Reply α → Prop
  | _, .pure _ => True
  | _, .request op next => allowed op ∧ ∀ reply, (next reply).Straight allowed
  | _, .doWhile _ _ _ _ => False

theorem Straight.bind {allowed : Op → Prop} {program : Program Op Reply α} {next : α → Program Op Reply β}
    (first : program.Straight allowed) (rest : ∀ value, (next value).Straight allowed) :
    (program.bind next).Straight allowed := by
  induction program with
  | pure value => exact rest value
  | request op tail ih => exact ⟨first.1, fun reply => ih reply (first.2 reply) rest⟩
  | doWhile => exact first.elim

theorem Straight.forUp {allowed : Op → Prop} {body : Nat → β → Program Op Reply β} (count first : Nat) (value : β)
    (each : ∀ index value, (body index value).Straight allowed) :
    (forUp body count first value).Straight allowed := by
  induction count generalizing first value with
  | zero => trivial
  | succ count ih => exact Straight.bind (each first value) fun next => ih (first + 1) next

theorem Straight.uses {allowed : Op → Prop} {program : Program Op Reply α} (straight : program.Straight allowed) :
    program.Uses allowed := by
  induction program with
  | pure value => trivial
  | request op tail ih => exact ⟨straight.1, fun reply => ih reply (straight.2 reply)⟩
  | doWhile => exact straight.elim

/-- Reads a program over a larger set of requests, of which its own are part. -/
def embed {Op' : Type} {Reply' : Op' → Type} (into : Op → Op')
    (answer : (op : Op) → Reply' (into op) → Reply op) :
    {α : Type} → Program Op Reply α → Program Op' Reply' α
  | _, .pure value => .pure value
  | _, .request op next => .request (into op) (fun reply => (next (answer op reply)).embed into answer)
  | _, .doWhile body again value next =>
      .doWhile (fun value => (body value).embed into answer) again value (fun last => (next last).embed into answer)

theorem embed_embed {Op' Op'' : Type} {Reply' : Op' → Type} {Reply'' : Op'' → Type} {into : Op → Op'}
    {answer : (op : Op) → Reply' (into op) → Reply op} {onto : Op' → Op''}
    {reply : (op : Op') → Reply'' (onto op) → Reply' op} (program : Program Op Reply α) :
    (program.embed into answer).embed onto reply =
      program.embed (fun op => onto (into op)) fun op last => answer op (reply (into op) last) := by
  induction program with
  | pure value => rfl
  | request op next ih => simp only [embed, ih]
  | doWhile body again value next bodyIh ih => simp only [embed, bodyIh, ih]

theorem Uses.embed {Op' : Type} {Reply' : Op' → Type} {into : Op → Op'}
    {answer : (op : Op) → Reply' (into op) → Reply op}
    (program : Program Op Reply α) : (program.embed into answer).Uses fun op => ∃ inner, op = into inner := by
  induction program with
  | pure value => trivial
  | request op next ih => exact ⟨⟨op, rfl⟩, fun reply => ih (answer op reply)⟩
  | doWhile body again value next bodyIh ih => exact ⟨bodyIh, ih⟩

theorem Uses.through {Op' : Type} {Reply' : Op' → Type} {into : Op → Op'}
    {answer : (op : Op) → Reply' (into op) → Reply op} {allowed : Op' → Prop} {program : Program Op Reply α}
    (uses : program.Uses fun op => allowed (into op)) : (program.embed into answer).Uses allowed := by
  induction program with
  | pure value => trivial
  | request op next ih => exact ⟨uses.1, fun reply => ih _ (uses.2 _)⟩
  | doWhile body again value next bodyIh ih =>
    exact ⟨fun value => bodyIh value (uses.1 value), fun last => ih last (uses.2 last)⟩

theorem Straight.embed {Op' : Type} {Reply' : Op' → Type} {into : Op → Op'}
    {answer : (op : Op) → Reply' (into op) → Reply op} {allowed : Op' → Prop} {program : Program Op Reply α}
    (straight : program.Straight fun op => allowed (into op)) :
    (program.embed into answer).Straight allowed := by
  induction program with
  | pure value => trivial
  | request op next ih => exact ⟨straight.1, fun reply => ih _ (straight.2 _)⟩
  | doWhile => exact straight.elim

/-- Runs a program of its own in place of each request. -/
def expand {Op' : Type} {Reply' : Op' → Type} (into : (op : Op) → Program Op' Reply' (Reply op)) :
    {α : Type} → Program Op Reply α → Program Op' Reply' α
  | _, .pure value => .pure value
  | _, .request op next => (into op).bind fun reply => (next reply).expand into
  | _, .doWhile body again value next =>
      .doWhile (fun value => (body value).expand into) again value (fun last => (next last).expand into)

section Expansion

variable {Op' : Type} {Reply' : Op' → Type} {into : (op : Op) → Program Op' Reply' (Reply op)}

@[simp] theorem expand_pure (value : α) : (Program.pure value : Program Op Reply α).expand into = .pure value := rfl

@[simp] theorem expand_request (op : Op) (next : Reply op → Program Op Reply α) :
    (Program.request op next).expand into = (into op).bind fun reply => (next reply).expand into := rfl

@[simp] theorem expand_bind (program : Program Op Reply α) (next : α → Program Op Reply β) :
    (program.bind next).expand into = (program.expand into).bind fun value => (next value).expand into := by
  induction program with
  | pure value => rfl
  | request op rest ih => simp only [request_bind, expand, ih, bind_assoc]
  | doWhile body again value rest _ ih => simp only [bind, expand, ih]

theorem Uses.expand {allowed : Op → Prop} {permitted : Op' → Prop} {program : Program Op Reply α}
    (uses : program.Uses allowed) (each : ∀ op, allowed op → (into op).Uses permitted) :
    (program.expand into).Uses permitted := by
  induction program with
  | pure value => trivial
  | request op rest ih => exact Uses.bind (each op uses.1) fun reply => ih reply (uses.2 reply)
  | doWhile body again value rest bodyIh ih =>
    exact ⟨fun value => bodyIh value (uses.1 value), fun last => ih last (uses.2 last)⟩

end Expansion

end Program
end EthercatSlave
