import DecompConfig.Event

namespace DecompConfig

/-- What a run leaves behind: its result, the state of the oracle that it consulted, and its events in
order. A failed run leaves a state and events too. -/
structure Outcome (σ ε α : Type) where
  result : Except ε α
  state : σ
  events : List Event

/-- The names that the oracle was asked for, in order. -/
def Outcome.queries (o : Outcome σ ε α) : List String := o.events.filterMap Event.query?

/-- A computation that consults an oracle with states in `σ` and can fail with an error in `ε`. -/
def Run (σ ε α : Type) : Type := σ → Outcome σ ε α

namespace Run

variable {σ ε α β : Type}

protected def pure (a : α) : Run σ ε α := fun s => ⟨.ok a, s, []⟩

/-- Runs `x` and then, if it succeeds, what `f` makes of its result. -/
protected def bind (x : Run σ ε α) (f : α → Run σ ε β) : Run σ ε β := fun s =>
  match (x s).result with
  | .ok a =>
    let y := f a (x s).state
    ⟨y.result, y.state, (x s).events ++ y.events⟩
  | .error e => ⟨.error e, (x s).state, (x s).events⟩

instance : Monad (Run σ ε) where
  pure := Run.pure
  bind := Run.bind

instance : LawfulMonad (Run σ ε) := LawfulMonad.mk' _
  (by
    intro α x
    funext s
    show Run.bind x (fun a => Run.pure (id a)) s = x s
    unfold Run.bind
    obtain ⟨result, state, events⟩ := x s
    cases result <;> simp [Run.pure])
  (by
    intro α β a f
    funext s
    show Run.bind (Run.pure a) f s = f a s
    simp [Run.bind, Run.pure])
  (by
    intro α β γ x f g
    funext s
    show Run.bind (Run.bind x f) g s = Run.bind x (fun a => Run.bind (f a) g) s
    unfold Run.bind
    obtain ⟨result, state, events⟩ := x s
    cases result with
    | error e => simp
    | ok a => cases hf : (f a state).result <;> simp [hf])

def fail (e : ε) : Run σ ε α := fun s => ⟨.error e, s, []⟩

def emit (event : Event) : Run σ ε Unit := fun s => ⟨.ok (), s, [event]⟩

/-- Names the cause of a failure by an error of another kind. -/
def mapError (f : ε → ε') (x : Run σ ε α) : Run σ ε' α := fun s =>
  ⟨(x s).result.mapError f, (x s).state, (x s).events⟩

/-- Runs `x` to its end and hands on its result, be it an error. -/
def attempt (x : Run σ ε α) : Run σ ε' (Except ε α) := fun s =>
  ⟨.ok (x s).result, (x s).state, (x s).events⟩

/-- Runs computations one after the other, each with the oracle as the one before left it. A failure
does not stop the computations after it. -/
def each : List (Run σ ε α) → Run σ ε' (List (Except ε α))
  | [] => pure []
  | x :: xs => do return (← x.attempt) :: (← each xs)

end Run

end DecompConfig
