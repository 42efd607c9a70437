import DecompConfig.Lowering
import DecompConfig.Proofs.Part
import DecompConfig.Proofs.Run

namespace DecompConfig

variable {σ : Type}

/-- The tokens of the member types of an aggregate. -/
def Aggregate.tokens (aggregate : Aggregate) : List Token := aggregate.members.flatMap memberTokens

theorem Aggregate.mem_tokens_of_mem {aggregate : Aggregate} {member : String} {t : Token}
    (hmember : member ∈ aggregate.members) (ht : t ∈ memberTokens member) :
    t ∈ aggregate.tokens :=
  List.mem_flatMap.mpr ⟨member, hmember, ht⟩

namespace Oracle

def events (oracle : Oracle σ) (name : String) (s : σ) : List Event :=
  .asked name :: ((oracle name s).1.text.map (Event.answered name)).toList

@[simp] theorem queries_events (oracle : Oracle σ) (name : String) (s : σ) :
    (oracle.events name s).filterMap Event.query? = [name] := by
  cases h : (oracle name s).1.text <;> simp [events, h, Event.query?]

theorem ask_apply (oracle : Oracle σ) (name : String) (s : σ) :
    oracle.ask name s = ⟨(oracle name s).1.definition, (oracle name s).2, oracle.events name s⟩ := rfl

end Oracle

def commaPrefixed : List String → String
  | [] => ""
  | s :: rest => "," ++ s ++ commaPrefixed rest

theorem commaSeparated_cons (s : String) (rest : List String) :
    commaSeparated (s :: rest) = s ++ commaPrefixed rest := by
  induction rest generalizing s with
  | nil => simp [commaSeparated, commaPrefixed]
  | cons t rest ih => rw [commaSeparated, ih, commaPrefixed]; simp [String.append_assoc]

namespace Lowering

variable {oracle : Oracle σ} {limit room : Nat} {path : List String} {name : String} {s : σ}

/-- The run of the members of an aggregate that is being opened. -/
def inside (oracle : Oracle σ) (limit room : Nat) (path : List String) (name : String)
    (aggregate : Aggregate) : Run σ LoweringError (List String) :=
  lowerMembers (expand oracle limit room (path ++ [name])) aggregate.members

/-- All that expanding an aggregate can come to. -/
inductive Expansion (oracle : Oracle σ) (limit room : Nat) (path : List String) (name : String)
    (s : σ) : Prop where
  | cyclic (hmem : name ∈ path)
      (heq : expand oracle limit room path name s = ⟨.error (.cyclic name (path ++ [name])), s, []⟩)
  | tooDeep (hmem : name ∉ path) (hroom : room = 0)
      (heq : expand oracle limit room path name s = ⟨.error (.tooDeep name limit), s, []⟩)
  | refused {room' : Nat} {e : LoweringError} (hmem : name ∉ path) (hroom : room = room' + 1)
      (hanswer : (oracle name s).1.definition = .error e)
      (heq : expand oracle limit room path name s =
        ⟨.error e, (oracle name s).2, oracle.events name s⟩)
  | unresolved {room' : Nat} (hmem : name ∉ path) (hroom : room = room' + 1)
      (hanswer : (oracle name s).1.definition = .ok none)
      (heq : expand oracle limit room path name s =
        ⟨.error (.unresolved name), (oracle name s).2, oracle.events name s⟩)
  | opened {room' : Nat} {aggregate : Aggregate} (hmem : name ∉ path) (hroom : room = room' + 1)
      (hanswer : (oracle name s).1.definition = .ok (some aggregate))
      (heq : expand oracle limit room path name s =
        ((inside oracle limit room' path name aggregate (oracle name s).2).map braced).after
          (oracle.events name s))

theorem expand_of_mem (hmem : name ∈ path) :
    expand oracle limit room path name = .fail (.cyclic name (path ++ [name])) := by
  cases room <;> rw [expand, if_pos hmem]

theorem expansion (oracle : Oracle σ) (limit room : Nat) (path : List String) (name : String)
    (s : σ) : Expansion oracle limit room path name s := by
  by_cases hmem : name ∈ path
  · apply Expansion.cyclic hmem
    rw [expand_of_mem hmem]
    rfl
  · cases room with
    | zero =>
      apply Expansion.tooDeep hmem rfl
      rw [expand, if_neg hmem]
      rfl
    | succ room =>
      have hask := oracle.ask_apply name s
      cases hanswer : (oracle name s).1.definition with
      | error e =>
        apply Expansion.refused hmem rfl hanswer
        rw [expand, if_neg hmem, Run.bind_of_error (by rw [hask]; exact hanswer)]
        rfl
      | ok definition =>
        cases definition with
        | none =>
          apply Expansion.unresolved hmem rfl hanswer
          rw [expand, if_neg hmem, Run.bind_of_ok (by rw [hask]; exact hanswer)]
          simp [Run.fail, Outcome.after, hask]
        | some aggregate =>
          apply Expansion.opened hmem rfl hanswer
          rw [expand, if_neg hmem, Run.bind_of_ok (by rw [hask]; exact hanswer)]
          simp only [Run.bind_pure_apply]
          rfl

theorem lowerPart_of_not_aggregate (expand : String → Run σ LoweringError String) {p : Part}
    (h : p.isAggregate = false) : ∃ text, lowerPart expand p = pure text := by
  cases p with
  | aggregate name => simp [Part.isAggregate] at h
  | _ => exact ⟨_, rfl⟩

theorem lowerParts_nil (expand : String → Run σ LoweringError String) :
    lowerParts expand [] = pure "" := rfl

theorem lowerParts_cons (expand : String → Run σ LoweringError String) (p : Part) (ps : List Part) :
    lowerParts expand (p :: ps) =
      lowerPart expand p >>= fun a => lowerParts expand ps >>= fun b => pure (a ++ b) := rfl

theorem lowerParts_append (expand : String → Run σ LoweringError String) (ps qs : List Part) :
    lowerParts expand (ps ++ qs) =
      lowerParts expand ps >>= fun a => lowerParts expand qs >>= fun b => pure (a ++ b) := by
  induction ps with
  | nil => simp only [List.nil_append, lowerParts_nil, pure_bind, String.empty_append, bind_pure]
  | cons p ps ih =>
    rw [List.cons_append, lowerParts_cons, lowerParts_cons, ih]
    simp only [bind_assoc, pure_bind, String.append_assoc]

theorem lowerParts_singleton (expand : String → Run σ LoweringError String) (p : Part) :
    lowerParts expand [p] = lowerPart expand p := by
  simp only [lowerParts_cons, lowerParts_nil, pure_bind, String.append_empty, bind_pure]

theorem lowerMembers_nil (expand : String → Run σ LoweringError String) :
    lowerMembers expand [] = pure [] := rfl

theorem lowerMembers_cons (expand : String → Run σ LoweringError String) (m : String)
    (ms : List String) :
    lowerMembers expand (m :: ms) = lowerParts expand (parts false (memberTokens m)) >>= fun a =>
      lowerMembers expand ms >>= fun b => pure (a :: b) := rfl

theorem lowerParts_text (expand : String → Run σ LoweringError String) {p : Part} {text : String}
    (h : lowerPart expand p = pure text) (ps : List Part) (s : σ) :
    lowerParts expand (p :: ps) s = (lowerParts expand ps s).map (text ++ ·) := by
  rw [lowerParts_cons, h, pure_bind, Run.bind_pure_apply]

theorem lowerParts_signPart_append (expand : String → Run σ LoweringError String)
    (pendingSign : Bool) (ps : List Part) (s : σ) :
    lowerParts expand (signPart pendingSign ++ ps) s =
      (lowerParts expand ps s).map (signText pendingSign ++ ·) := by
  cases pendingSign with
  | true => exact lowerParts_text expand rfl ps s
  | false => simp [signPart, signText]

section Compatible

variable {τ : Type} {R : (α : Type) → Run σ LoweringError α → Run τ LoweringError α → Prop}
  {first : String → Run σ LoweringError String} {second : String → Run τ LoweringError String}

theorem lowerParts_compatible (hR : Run.Compatible R) (h : ∀ name, R String (first name) (second name))
    (ps : List Part) : R String (lowerParts first ps) (lowerParts second ps) := by
  induction ps with
  | nil => exact hR.pure ""
  | cons p ps ih =>
    have hpart : R String (lowerPart first p) (lowerPart second p) := by
      cases p with
      | aggregate name => exact h name
      | _ => exact hR.pure _
    exact hR.bind hpart fun a => hR.bind ih fun b => hR.pure (a ++ b)

theorem lowerMembers_compatible (hR : Run.Compatible R)
    (h : ∀ name, R String (first name) (second name)) (members : List String) :
    R (List String) (lowerMembers first members) (lowerMembers second members) := by
  induction members with
  | nil => exact hR.pure []
  | cons member members ih =>
    have hmember := lowerParts_compatible hR h (parts false (memberTokens member))
    exact hR.bind hmember fun a => hR.bind ih fun b => hR.pure (a :: b)

end Compatible

variable {Φ : σ → List String → Option LoweringError → σ → Prop}
  {expand : String → Run σ LoweringError String}

theorem has_lowerParts (hΦ : Run.Composable Φ) {ts : List Token}
    (h : ∀ name, .name name ∈ ts → Primitive.ofWord? name = none → (expand name).Has Φ) :
    (lowerParts expand (parts false ts)).Has Φ := by
  have hparts : ∀ name, .aggregate name ∈ parts false ts → (expand name).Has Φ := fun name hname =>
    h name (aggregate_mem_parts_iff.mp hname).1 (aggregate_mem_parts_iff.mp hname).2
  generalize parts false ts = ps at hparts ⊢
  induction ps with
  | nil => exact .pure hΦ _
  | cons p ps ih =>
    have hrest := ih fun name hname => hparts name (List.mem_cons_of_mem _ hname)
    have hfirst : (lowerPart expand p).Has Φ := by
      cases p with
      | aggregate name => exact hparts name List.mem_cons_self
      | _ => exact .pure hΦ _
    exact .bind hΦ hfirst fun a => .bind hΦ hrest fun b => .pure hΦ _

theorem has_lowerMembers (hΦ : Run.Composable Φ) {aggregate : Aggregate}
    (h : ∀ name, .name name ∈ aggregate.tokens → Primitive.ofWord? name = none →
      (expand name).Has Φ) :
    (lowerMembers expand aggregate.members).Has Φ := by
  obtain ⟨members⟩ := aggregate
  induction members with
  | nil => exact .pure hΦ _
  | cons member members ih =>
    have hfirst : (lowerParts expand (parts false (memberTokens member))).Has Φ :=
      has_lowerParts hΦ fun name hname =>
        h name (Aggregate.mem_tokens_of_mem List.mem_cons_self hname)
    have hrest : (lowerMembers expand members).Has Φ := ih fun name hname => by
      obtain ⟨m, hm, ht⟩ := List.mem_flatMap.mp hname
      exact h name (Aggregate.mem_tokens_of_mem (List.mem_cons_of_mem _ hm) ht)
    exact .bind hΦ hfirst fun a => .bind hΦ hrest fun b => .pure hΦ _

/-- A property of the runs on a token list inside the aggregates of a path, where a number of further
aggregates may be opened: it holds of each way in which the expansion of one name can go. -/
structure Invariant (oracle : Oracle σ) (limit : Nat)
    (Φ : Nat → List String → List Token → σ → List String → Option LoweringError → σ → Prop) :
    Prop where
  composable : ∀ room path tokens, Run.Composable (Φ room path tokens)
  member : ∀ {room path tokens name s qs e t}, .name name ∈ tokens →
    Φ room path [.name name] s qs e t → Φ room path tokens s qs e t
  cyclic : ∀ {room path name} s, Primitive.ofWord? name = none → name ∈ path →
    Φ room path [.name name] s [] (some (.cyclic name (path ++ [name]))) s
  tooDeep : ∀ {path name} s, Primitive.ofWord? name = none → name ∉ path →
    Φ 0 path [.name name] s [] (some (.tooDeep name limit)) s
  refused : ∀ {room path name s e}, Primitive.ofWord? name = none → name ∉ path →
    (oracle name s).1.definition = .error e →
    Φ (room + 1) path [.name name] s [name] (some e) (oracle name s).2
  unresolved : ∀ {room path name s}, Primitive.ofWord? name = none → name ∉ path →
    (oracle name s).1.definition = .ok none →
    Φ (room + 1) path [.name name] s [name] (some (.unresolved name)) (oracle name s).2
  opened : ∀ {room path name s aggregate qs e t}, Primitive.ofWord? name = none → name ∉ path →
    (oracle name s).1.definition = .ok (some aggregate) →
    Φ room (path ++ [name]) aggregate.tokens (oracle name s).2 qs e t →
    Φ (room + 1) path [.name name] s (name :: qs) e t

namespace Invariant

/-- What holds of a name where it stands, and inside an aggregate only if in front of it, holds of all
names that are asked for. -/
theorem of_asked {P : List Token → String → Prop}
    (here : ∀ {name}, Primitive.ofWord? name = none → P [.name name] name)
    (member : ∀ {tokens name q}, .name name ∈ tokens → P [.name name] q → P tokens q)
    (inside : ∀ {name s aggregate q}, Primitive.ofWord? name = none →
      (oracle name s).1.definition = .ok (some aggregate) → P aggregate.tokens q →
      P [.name name] q) :
    Invariant oracle limit fun _ _ tokens _ queries _ _ => ∀ q ∈ queries, P tokens q where
  composable room path tokens :=
    { empty := by simp
      append := fun hqs hrs q hq => (List.mem_append.mp hq).elim (hqs q) (hrs q) }
  member hmem h q hq := member hmem (h q hq)
  cyclic s hname hmem := by simp
  tooDeep s hname hmem := by simp
  refused hname _ _ q hq := by
    obtain rfl := List.mem_singleton.mp hq
    exact here hname
  unresolved hname _ _ q hq := by
    obtain rfl := List.mem_singleton.mp hq
    exact here hname
  opened := by
    intro room path name s aggregate qs e t hname hmem hanswer hinside q hq
    rcases List.mem_cons.mp hq with rfl | hq
    · exact here hname
    · exact inside hname hanswer (hinside q hq)

variable {Φ : Nat → List String → List Token → σ → List String → Option LoweringError → σ → Prop}

theorem has_expand (hΦ : Invariant oracle limit Φ) (room : Nat) (path : List String) {name : String}
    (hname : Primitive.ofWord? name = none) :
    (Lowering.expand oracle limit room path name).Has (Φ room path [.name name]) := by
  induction room using Nat.strongRecOn generalizing path name with
  | ind room ih =>
    intro s
    have hqueries := oracle.queries_events name s
    cases expansion oracle limit room path name s with
    | cyclic hmem heq =>
      rw [heq]
      exact hΦ.cyclic s hname hmem
    | tooDeep hmem hroom heq =>
      subst hroom
      rw [heq]
      exact hΦ.tooDeep s hname hmem
    | refused hmem hroom hanswer heq =>
      subst hroom
      rw [heq, Outcome.queries, hqueries]
      exact hΦ.refused hname hmem hanswer
    | unresolved hmem hroom hanswer heq =>
      subst hroom
      rw [heq, Outcome.queries, hqueries]
      exact hΦ.unresolved hname hmem hanswer
    | @opened inner aggregate hmem hroom hanswer heq =>
      subst hroom
      have hinside : (inside oracle limit inner path name aggregate).Has
          (Φ inner (path ++ [name]) aggregate.tokens) :=
        has_lowerMembers (hΦ.composable inner (path ++ [name]) aggregate.tokens)
          fun _ hmember hmention s =>
            hΦ.member hmember (ih inner (Nat.lt_succ_self inner) (path ++ [name]) hmention s)
      rw [heq, Outcome.queries_after, hqueries]
      simp only [Outcome.queries_map, Outcome.failure?_after, Outcome.failure?_map,
        Outcome.state_after, Outcome.state_map]
      exact hΦ.opened hname hmem hanswer (hinside _)

/-- What every expansion of one name preserves holds of the runs on all token lists. -/
theorem has_lowerTokens (hΦ : Invariant oracle limit Φ) (tokens : List Token) :
    (DecompConfig.lowerTokens oracle limit tokens).Has (Φ limit [] tokens) :=
  has_lowerParts (hΦ.composable limit [] tokens) fun _ hmember hname s =>
    hΦ.member hmember (hΦ.has_expand limit [] hname s)

end Invariant

end Lowering

end DecompConfig
