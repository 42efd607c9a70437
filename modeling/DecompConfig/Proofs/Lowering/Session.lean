import DecompConfig.Proofs.Lowering.Expansion

namespace DecompConfig

variable {σ ε α β : Type}

/-- What lasts from one call to the next where calls share a register of the aggregates that are being
expanded. A call that fails leaves the register as it is at that moment. -/
structure Session (σ : Type) where
  oracleState : σ
  /-- The outermost aggregate comes first. -/
  path : List String
  deriving DecidableEq

namespace Session

def fresh (s : σ) : Session σ := ⟨s, []⟩

/-- The oracle of a session, which knows nothing of the register. -/
def asking (oracle : Oracle σ) : Oracle (Session σ) := fun name l =>
  ((oracle name l.oracleState).1, { l with oracleState := (oracle name l.oracleState).2 })

def updatePath (f : List String → List String) : Run (Session σ) ε Unit := fun l =>
  ⟨.ok (), { l with path := f l.path }, []⟩

/-- Refuses an aggregate that is being expanded already or that is nested too deeply. -/
def permit (depth : Nat) (name : String) : Run (Session σ) LoweringError Unit := fun l =>
  if name ∈ l.path then ⟨.error (.cyclic name (l.path ++ [name])), l, []⟩
  else if depth ≤ l.path.length then ⟨.error (.tooDeep name depth), l, []⟩
  else ⟨.ok (), l, []⟩

/-- Expands an aggregate by the register alone: `room` only says how far calls may be nested, and where
it is not less than what the path leaves of the limit, it is never what ends a run. -/
def expand (oracle : Oracle σ) (depth : Nat) :
    (room : Nat) → (name : String) → Run (Session σ) LoweringError String
  | 0, name => do
    permit depth name
    .fail (.tooDeep name depth)
  | room + 1, name => do
    permit depth name
    match ← (asking oracle).ask name with
    | none => .fail (.unresolved name)
    | some aggregate =>
      updatePath (· ++ [name])
      let texts ← Lowering.lowerMembers (expand oracle depth room) aggregate.members
      updatePath List.dropLast
      return braced texts

def lowerInto (oracle : Oracle σ) (depth : Nat) (tokens : List Token) :
    Run (Session σ) LoweringError String :=
  Lowering.lowerParts (expand oracle depth depth) (parts false tokens)

/-- What a call is given. -/
inductive Item where
  | type (text : String)
  | tokens (tokens : List Token)

def Item.tokenList : Item → List Token
  | .type text => typeTokens text
  | .tokens ts => ts

/-- A call, which begins with an empty register. -/
def lower (oracle : Oracle σ) (depth : Nat) (item : Item) : Run (Session σ) LoweringError String := do
  updatePath fun _ => []
  lowerInto oracle depth item.tokenList

/-- An outcome with the register left out. -/
def erase (o : Outcome (Session σ) ε α) : Outcome σ ε α := ⟨o.result, o.state.oracleState, o.events⟩

theorem same_of_erase_eq {o o' : Outcome (Session σ) ε α} (h : erase o = erase o') :
    o.result = o'.result ∧ o.queries = o'.queries ∧ o.state.oracleState = o'.state.oracleState := by
  obtain ⟨hresult, hstate, hevents⟩ := Outcome.mk.inj h
  exact ⟨hresult, congrArg (List.filterMap Event.query?) hevents, hstate⟩

theorem updatePath_bind (f : List String → List String) (k : Unit → Run (Session σ) ε α)
    (l : Session σ) : (updatePath f >>= k) l = k () { l with path := f l.path } := rfl

/-- Begun with the register at `path`, `x` does what `y` does without a register, and if it succeeds,
the register is at `path` again. -/
def Follows (path : List String) (x : Run (Session σ) ε α) (y : Run σ ε α) : Prop :=
  ∀ s, erase (x ⟨s, path⟩) = y s ∧
    ∀ a, (x ⟨s, path⟩).result = .ok a → (x ⟨s, path⟩).state = ⟨(y s).state, path⟩

namespace Follows

variable {path : List String} {x : Run (Session σ) ε α} {y : Run σ ε α}

theorem pure (a : α) : Follows path (Pure.pure a : Run (Session σ) ε α) (Pure.pure a) :=
  fun _ => ⟨rfl, fun _ _ => rfl⟩

theorem fail (e : ε) : Follows path (.fail e : Run (Session σ) ε α) (.fail e) :=
  fun _ => ⟨rfl, nofun⟩

theorem of_eq {x' : Run (Session σ) ε α} (heq : ∀ s, x ⟨s, path⟩ = x' ⟨s, path⟩)
    (h : Follows path x' y) : Follows path x y := by
  intro s
  rw [heq s]
  exact h s

theorem result_eq (h : Follows path x y) (s : σ) : (x ⟨s, path⟩).result = (y s).result :=
  congrArg Outcome.result (h s).1

theorem path_eq {l : Session σ} (h : Follows l.path x y) {a : α} (ha : (x l).result = .ok a) :
    (x l).state.path = l.path := by
  have hstate : (x l).state = ⟨(y l.oracleState).state, l.path⟩ := (h l.oracleState).2 a ha
  rw [hstate]

theorem bind {f : α → Run (Session σ) ε β} {g : α → Run σ ε β} (hx : Follows path x y)
    (hf : ∀ a, Follows path (f a) (g a)) : Follows path (x >>= f) (y >>= g) := by
  intro s
  obtain ⟨herase, hstate⟩ := hx s
  have hresult := hx.result_eq s
  cases h : (y s).result with
  | error e =>
    rw [Run.bind_of_error h, Run.bind_of_error (hresult.trans h), ← herase]
    exact ⟨rfl, nofun⟩
  | ok a =>
    obtain ⟨herase', hstate'⟩ := hf a (y s).state
    rw [Run.bind_of_ok h, Run.bind_of_ok (hresult.trans h), hstate a (hresult.trans h)]
    refine ⟨?_, hstate'⟩
    rw [← herase', ← herase]
    rfl

theorem compatible (path : List String) :
    Run.Compatible fun (α : Type) (x : Run (Session σ) ε α) (y : Run σ ε α) => Follows path x y where
  pure := pure
  bind := bind

/-- Between the two updates of the register, a run goes on inside the aggregate `name`. -/
theorem inside {f : α → β} {name : String} (h : Follows (path ++ [name]) x y) :
    Follows path (do updatePath (· ++ [name]); let a ← x; updatePath List.dropLast; return f a)
      (do return f (← y)) := by
  intro s
  obtain ⟨herase, hstate⟩ := h s
  have hresult := h.result_eq s
  rw [updatePath_bind]
  cases hy : (y s).result with
  | error e =>
    rw [Run.bind_of_error hy, Run.bind_of_error (hresult.trans hy), ← herase]
    exact ⟨rfl, nofun⟩
  | ok a =>
    rw [Run.bind_of_ok hy, Run.bind_of_ok (hresult.trans hy), hstate a (hresult.trans hy),
      updatePath_bind, List.dropLast_concat, ← herase]
    exact ⟨rfl, fun _ _ => rfl⟩

theorem ask (oracle : Oracle σ) (name : String) :
    Follows path ((asking oracle).ask name) (oracle.ask name) :=
  fun _ => ⟨rfl, fun _ _ => rfl⟩

end Follows

section Permit

variable {depth : Nat} {name : String} {l : Session σ} (k : Unit → Run (Session σ) LoweringError α)

theorem permit_of_mem (hmem : name ∈ l.path) :
    (permit depth name >>= k) l = Run.fail (.cyclic name (l.path ++ [name])) l := by
  have hpermit : permit depth name l = ⟨.error (.cyclic name (l.path ++ [name])), l, []⟩ := if_pos hmem
  rw [Run.bind_of_error (by rw [hpermit]), hpermit]
  rfl

theorem permit_of_le (hmem : name ∉ l.path) (hdepth : depth ≤ l.path.length) :
    (permit depth name >>= k) l = Run.fail (.tooDeep name depth) l := by
  have hpermit : permit depth name l = ⟨.error (.tooDeep name depth), l, []⟩ := by
    rw [permit, if_neg hmem, if_pos hdepth]
  rw [Run.bind_of_error (by rw [hpermit]), hpermit]
  rfl

theorem permit_of_lt (hmem : name ∉ l.path) (hdepth : l.path.length < depth) :
    (permit depth name >>= k) l = k () l := by
  have hpermit : permit depth name l = ⟨.ok (), l, []⟩ := by
    rw [permit, if_neg hmem, if_neg (Nat.not_le.mpr hdepth)]
  rw [Run.bind_of_ok (by rw [hpermit]), hpermit]
  rfl

end Permit

variable (oracle : Oracle σ) (depth : Nat)

/-- With the register at `path`, expanding an aggregate by the register is expanding it inside `path`,
where what the path leaves of the limit may be opened. -/
theorem follows_expand (room : Nat) (path : List String) (name : String) :
    Follows path (expand oracle depth room name)
      (Lowering.expand oracle depth (min room (depth - path.length)) path name) := by
  induction room generalizing path name with
  | zero =>
    rw [Nat.zero_min, expand]
    by_cases hmem : name ∈ path
    · rw [Lowering.expand_of_mem hmem]
      exact .of_eq (fun _ => permit_of_mem _ hmem) (.fail _)
    · rw [Lowering.expand, if_neg hmem]
      rcases Nat.lt_or_ge path.length depth with hlt | hge
      · exact .of_eq (fun _ => permit_of_lt _ hmem hlt) (.fail _)
      · exact .of_eq (fun _ => permit_of_le _ hmem hge) (.fail _)
  | succ room ih =>
    rw [expand]
    by_cases hmem : name ∈ path
    · rw [Lowering.expand_of_mem hmem]
      exact .of_eq (fun _ => permit_of_mem _ hmem) (.fail _)
    rcases Nat.lt_or_ge path.length depth with hlt | hge
    · -- What the path leaves of the limit shrinks by the aggregate that is opened.
      have hroom : min (room + 1) (depth - path.length) =
          min room (depth - (path ++ [name]).length) + 1 := by
        rw [List.length_append, List.length_singleton]
        omega
      rw [hroom, Lowering.expand, if_neg hmem]
      refine .of_eq (fun _ => permit_of_lt _ hmem hlt) (.bind (.ask oracle name) ?_)
      intro definition
      cases definition with
      | none => exact .fail _
      | some aggregate =>
        have hmembers := Lowering.lowerMembers_compatible (Follows.compatible (path ++ [name]))
          (ih (path ++ [name])) aggregate.members
        exact .inside hmembers
    · rw [Nat.sub_eq_zero_of_le hge, Nat.min_zero, Lowering.expand, if_neg hmem]
      exact .of_eq (fun _ => permit_of_le _ hmem hge) (.fail _)

theorem follows_lowerInto (path : List String) (tokens : List Token) :
    Follows path (lowerInto oracle depth tokens)
      (Lowering.lowerParts (Lowering.expand oracle depth (depth - path.length) path)
        (parts false tokens)) := by
  have hroom : min depth (depth - path.length) = depth - path.length :=
    Nat.min_eq_right (Nat.sub_le depth path.length)
  have hexpand := follows_expand oracle depth depth path
  rw [hroom] at hexpand
  exact Lowering.lowerParts_compatible (Follows.compatible path) hexpand _

theorem path_of_expand {room : Nat} {name text : String} {l : Session σ}
    (h : (expand oracle depth room name l).result = .ok text) :
    (expand oracle depth room name l).state.path = l.path :=
  (follows_expand oracle depth room l.path name).path_eq h

theorem path_of_lowerInto {tokens : List Token} {text : String} {l : Session σ}
    (h : (lowerInto oracle depth tokens l).result = .ok text) :
    (lowerInto oracle depth tokens l).state.path = l.path :=
  (follows_lowerInto oracle depth l.path tokens).path_eq h

/-- A call does not depend on what the register holds before it. -/
theorem erase_lower (item : Item) (l : Session σ) :
    erase (lower oracle depth item l) = lowerTokens oracle depth item.tokenList l.oracleState :=
  (follows_lowerInto oracle depth [] item.tokenList l.oracleState).1

theorem map_erase_outcomes (items : List Item) (l : Session σ) :
    (Run.outcomes (items.map (lower oracle depth)) l).map erase =
      Run.outcomes (items.map fun item => lowerTokens oracle depth item.tokenList) l.oracleState := by
  induction items generalizing l with
  | nil => rfl
  | cons item items ih =>
    have hfirst := erase_lower oracle depth item l
    have hstate := congrArg Outcome.state hfirst
    rw [List.map_cons, List.map_cons, Run.outcomes, Run.outcomes, List.map_cons, ih, hfirst]
    exact congrArg (List.cons _) (congrArg _ hstate)

theorem oracleState_leaves (items : List Item) (l : Session σ) :
    (Run.leaves (items.map (lower oracle depth)) l).oracleState =
      Run.leaves (items.map fun item => lowerTokens oracle depth item.tokenList) l.oracleState := by
  induction items generalizing l with
  | nil => rfl
  | cons item items ih =>
    have hstate := congrArg Outcome.state (erase_lower oracle depth item l)
    exact (ih _).trans (congrArg _ hstate)

/-- Calls that share a register are independent: whatever the earlier ones came to, and whatever they
left in the register, each call comes to what it comes to in a fresh session over the oracle as they
left it. So the runs that keep no register, one after the other, are the same calls. A success,
begun with any register, puts it back as it was. -/
theorem calls_independent (l : Session σ) (items : List Item) :
    let calls := items.map (lower oracle depth)
    (∀ i item, items[i]? = some item → ∃ o, (Run.outcomes calls l)[i]? = some o ∧
      let left := (Run.leaves (calls.take i) l).oracleState
      let alone := lower oracle depth item (fresh left)
      o.result = alone.result ∧ o.queries = alone.queries ∧
        o.state.oracleState = alone.state.oracleState) ∧
    (Run.each (items.map fun item => lowerTokens oracle depth item.tokenList) : Run σ ε _)
        l.oracleState =
      ⟨.ok ((Run.outcomes calls l).map (·.result)), (Run.leaves calls l).oracleState,
        (Run.outcomes calls l).flatMap (·.events)⟩ ∧
    (∀ room name text l, (expand oracle depth room name l).result = .ok text →
      (expand oracle depth room name l).state.path = l.path) ∧
    ∀ tokens text l, (lowerInto oracle depth tokens l).result = .ok text →
      (lowerInto oracle depth tokens l).state.path = l.path := by
  intro calls
  refine ⟨?_, ?_, fun _ _ _ _ => path_of_expand oracle depth,
    fun _ _ _ => path_of_lowerInto oracle depth⟩
  · intro i item hitem
    refine ⟨lower oracle depth item (Run.leaves (calls.take i) l), ?_, ?_⟩
    · rw [Run.getElem?_outcomes, List.getElem?_map, hitem]
      rfl
    · intro left alone
      apply same_of_erase_eq
      rw [erase_lower, erase_lower]
      rfl
  · rw [Run.each_apply, ← map_erase_outcomes, ← oracleState_leaves, List.map_map, List.flatMap_map]
    rfl

/-- Answers the first question with an aggregate that contains itself and the later ones with one that
does not, whatever the names. -/
def healing : Oracle Nat := fun _ asked =>
  (⟨.ok (some ⟨[if asked = 0 then "node *next" else "int value"]⟩), none⟩, asked + 1)

theorem calls_independent_healing :
    let calls := [Item.type "struct node *", .tokens [.name "node"]].map (lower healing 4)
    Run.leaves (calls.take 1) (fresh 0) = ⟨1, ["node"]⟩ ∧
    ((Run.outcomes calls (fresh 0))[1]?.map fun o => (o.value?, o.queries)) =
      some (some "\x7bi32\x7d", ["node"]) ∧
    (expand healing 4 4 "node" ⟨1, ["list"]⟩).state.path = ["list"] := by
  intro calls
  obtain ⟨hcalls, -, hexpand, -⟩ := calls_independent (ε := Unit) healing 4 (fresh 0)
    [.type "struct node *", .tokens [.name "node"]]
  obtain ⟨o, hsecond, hresult, hqueries, -⟩ := hcalls 1 (.tokens [.name "node"]) rfl
  have hleft : Run.leaves (calls.take 1) (fresh 0) = ⟨1, ["node"]⟩ := by decide +kernel
  have hstate : (Run.leaves (calls.take 1) (fresh 0)).oracleState = 1 := by rw [hleft]
  rw [hstate] at hresult hqueries
  refine ⟨hleft, ?_, hexpand 4 "node" "\x7bi32\x7d" ⟨1, ["list"]⟩ ?_⟩
  · have halone : (lower healing 4 (.tokens [.name "node"]) (fresh 1)).value? =
        some "\x7bi32\x7d" := by decide +kernel
    have hasked : (lower healing 4 (.tokens [.name "node"]) (fresh 1)).queries = ["node"] := by
      decide +kernel
    rw [hsecond, Option.map_some, hqueries, hasked,
      Outcome.value?_eq_some_iff.mpr (hresult.trans (Outcome.value?_eq_some_iff.mp halone))]
  · apply Outcome.value?_eq_some_iff.mp
    decide +kernel

end Session

end DecompConfig
