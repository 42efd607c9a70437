import DecompConfig.Proofs.Lowering.Expansion

namespace DecompConfig.Lowering

variable {σ α β : Type}

/-- What remains of an aggregate that is being expanded: the members that are not begun, and the tokens
that follow its name. -/
structure Level where
  members : List String
  rest : List Token

/-- How far a run has come in its types. -/
structure Control where
  tokens : List Token
  /-- A sign keyword waits for a type word. -/
  pendingSign : Bool
  /-- The aggregates that are being expanded, the outermost first. -/
  path : List String
  /-- What remains of these aggregates, the innermost first. -/
  levels : List Level
  out : String

/-- A run between two of its steps. -/
structure Machine (σ : Type) where
  control : Control
  state : σ
  events : List Event

inductive Machine.Next (σ : Type) where
  | running (m : Machine σ)
  | halted (o : Outcome σ LoweringError String)

namespace Machine

def start (tokens : List Token) (s : σ) : Machine σ := ⟨⟨tokens, false, [], [], ""⟩, s, []⟩

def queries (m : Machine σ) : List String := m.events.filterMap Event.query?

def Next.queries : Next σ → List String
  | running m => m.queries
  | halted o => o.queries

/-- Begins to expand the aggregate `name`, which the tokens `rest` follow. -/
def enter (oracle : Oracle σ) (depth : Nat) (m : Machine σ) (name : String) (rest : List Token) :
    Next σ :=
  if name ∈ m.control.path then
    .halted ⟨.error (.cyclic name (m.control.path ++ [name])), m.state, m.events⟩
  else if depth ≤ m.control.path.length then
    .halted ⟨.error (.tooDeep name depth), m.state, m.events⟩
  else
    let state := (oracle name m.state).2
    let events := m.events ++ oracle.events name m.state
    match (oracle name m.state).1.definition with
    | .error e => .halted ⟨.error e, state, events⟩
    | .ok none => .halted ⟨.error (.unresolved name), state, events⟩
    | .ok (some aggregate) =>
      .running ⟨{ tokens := aggregate.members.head?.elim [] memberTokens
                  pendingSign := false
                  path := m.control.path ++ [name]
                  levels := ⟨aggregate.members.tail, rest⟩ :: m.control.levels
                  out := m.control.out ++ "\x7b" }, state, events⟩

/-- Goes on after the last token of a type: to the next member of the innermost aggregate, behind the
aggregate, or to the end. -/
def leave (m : Machine σ) : Next σ :=
  match m.control.levels with
  | [] => .halted ⟨.ok m.control.out, m.state, m.events⟩
  | ⟨[], rest⟩ :: levels =>
    .running { m with control :=
      { m.control with
        tokens := rest, path := m.control.path.dropLast, levels, out := m.control.out ++ "\x7d" } }
  | ⟨member :: members, rest⟩ :: levels =>
    .running { m with control :=
      { m.control with
        tokens := memberTokens member, levels := ⟨members, rest⟩ :: levels
        out := m.control.out ++ "," } }

/-- One step of a run: it takes a token, or turns a waiting sign keyword into its text, or goes on
after the last token. No bound on the number of steps is built in. -/
def step (oracle : Oracle σ) (depth : Nat) (m : Machine σ) : Next σ :=
  match m.control.tokens with
  | [] =>
    if m.control.pendingSign then
      .running { m with control :=
        { m.control with pendingSign := false, out := m.control.out ++ signText true } }
    else m.leave
  | .qualifier q :: ts =>
    .running { m with control :=
      { m.control with tokens := ts, pendingSign := m.control.pendingSign || q.isSign } }
  | .name word :: ts =>
    match Primitive.ofWord? word with
    | some p =>
      .running { m with control :=
        { m.control with
          tokens := (p.munch ts).2, pendingSign := false
          out := m.control.out ++ (p.munch ts).1.code } }
    | none => m.enter oracle depth word ts
  | t :: ts =>
    .running { m with control :=
      { m.control with
        tokens := ts, pendingSign := false
        out := m.control.out ++ signText m.control.pendingSign ++ t.text } }

def run (oracle : Oracle σ) (depth : Nat) : Nat → Machine σ → Next σ
  | 0, m => .running m
  | n + 1, m =>
    match m.step oracle depth with
    | .running m' => run oracle depth n m'
    | .halted o => .halted o

section Members

variable (oracle : Oracle σ) (depth : Nat) (path : List String) (rest : List Token)
  (levels : List Level) (out : String) (s : σ) (events : List Event)

theorem step_next_member (member : String) (members : List String) :
    step oracle depth ⟨⟨[], false, path, ⟨member :: members, rest⟩ :: levels, out⟩, s, events⟩ =
      .running ⟨⟨memberTokens member, false, path, ⟨members, rest⟩ :: levels, out ++ ","⟩,
        s, events⟩ := rfl

theorem step_last_member :
    step oracle depth ⟨⟨[], false, path, ⟨[], rest⟩ :: levels, out⟩, s, events⟩ =
      .running ⟨⟨rest, false, path.dropLast, levels, out ++ "\x7d"⟩, s, events⟩ := rfl

end Members

variable {oracle : Oracle σ} {depth : Nat}

theorem step_name {name : String} (hname : Primitive.ofWord? name = none) (rest : List Token)
    (pendingSign : Bool) (path : List String) (levels : List Level) (out : String) (s : σ)
    (events : List Event) :
    let m : Machine σ := ⟨⟨.name name :: rest, pendingSign, path, levels, out⟩, s, events⟩
    m.step oracle depth = m.enter oracle depth name rest := by
  simp [step, hname]

theorem run_one_of_halted {m : Machine σ} {o : Outcome σ LoweringError String}
    (h : m.step oracle depth = .halted o) : run oracle depth 1 m = .halted o := by
  rw [run, h]

theorem run_succ_of_running {m m' : Machine σ} (h : m.step oracle depth = .running m') (n : Nat) :
    run oracle depth (n + 1) m = run oracle depth n m' := by
  rw [run, h]

theorem run_add {m m' : Machine σ} {n : Nat} (h : run oracle depth n m = .running m') (k : Nat) :
    run oracle depth (n + k) m = run oracle depth k m' := by
  induction n generalizing m with
  | zero =>
    cases h
    rw [Nat.zero_add]
  | succ n ih =>
    rw [run] at h
    rw [Nat.add_right_comm, run]
    split at h
    next hstep => exact ih h
    next => cases h

end Machine

end DecompConfig.Lowering
