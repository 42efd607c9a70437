import DecompConfig.Proofs.Lowering.Dialogue
import Mathlib.Data.List.Nodup

namespace DecompConfig

variable {σ : Type}

namespace Lowering

/-- The last answer was an error, which the run hands on. -/
def Refused (dialogue : List (String × Answer)) (e : LoweringError) : Prop :=
  ∃ name answer, dialogue.getLast? = some (name, answer) ∧ Primitive.ofWord? name = none ∧
    answer.definition = .error e

/-- What an error of the lowering itself says about the dialogue of a run on `tokens` inside the
aggregates of `path`, where `room` more may be opened. -/
def Fault (limit room : Nat) (path : List String) (tokens : List Token)
    (dialogue : List (String × Answer)) : LoweringError → Prop
  | .unresolved name => Primitive.ofWord? name = none ∧
      ∃ answer, dialogue.getLast? = some (name, answer) ∧ answer.definition = .ok none
  | .malformed .. => False
  | .cyclic name cycle => ∃ opened, cycle = path ++ opened ++ [name] ∧ (path ++ opened).Nodup ∧
      name ∈ path ++ opened ∧ opened.length ≤ room ∧ Met tokens dialogue opened name
  | .tooDeep name bound => bound = limit ∧ ∃ opened, opened.length = room ∧
      (path ++ opened).Nodup ∧ name ∉ path ++ opened ∧ Met tokens dialogue opened name ∧
      ∀ innermost ∈ opened.getLast?, ∃ answer, dialogue.getLast? = some (innermost, answer)

variable {oracle : Oracle σ} {limit room : Nat} {path : List String} {tokens : List Token}
  {dialogue : List (String × Answer)} {e : LoweringError}

theorem getLast?_append_of_eq_some {α : Type} {l : List α} {a : α} (h : l.getLast? = some a)
    (before : List α) : (before ++ l).getLast? = some a := by
  simp [List.getLast?_append, h]

theorem Refused.after_dialogue (h : Refused dialogue e) (earlier : List (String × Answer)) :
    Refused (earlier ++ dialogue) e := by
  obtain ⟨name, answer, hlast, hname, hanswer⟩ := h
  exact ⟨name, answer, getLast?_append_of_eq_some hlast earlier, hname, hanswer⟩

theorem Fault.after_dialogue (h : Fault limit room path tokens dialogue e)
    (earlier : List (String × Answer)) : Fault limit room path tokens (earlier ++ dialogue) e := by
  cases e with
  | unresolved name =>
    obtain ⟨hname, answer, hlast, hanswer⟩ := h
    exact ⟨hname, answer, getLast?_append_of_eq_some hlast earlier, hanswer⟩
  | malformed name response => exact h
  | cyclic name cycle =>
    obtain ⟨opened, hcycle, hnodup, hmem, hlength, hmet⟩ := h
    exact ⟨opened, hcycle, hnodup, hmem, hlength, hmet.after_dialogue earlier⟩
  | tooDeep name bound =>
    obtain ⟨hbound, opened, hlength, hnodup, hmem, hmet, hlast⟩ := h
    refine ⟨hbound, opened, hlength, hnodup, hmem, hmet.after_dialogue earlier, ?_⟩
    intro innermost hinnermost
    obtain ⟨answer, hanswer⟩ := hlast innermost hinnermost
    exact ⟨answer, getLast?_append_of_eq_some hanswer earlier⟩

theorem Fault.of_mem {name : String} (h : Fault limit room path [.name name] dialogue e)
    (hmem : .name name ∈ tokens) : Fault limit room path tokens dialogue e := by
  cases e with
  | unresolved name => exact h
  | malformed name response => exact h
  | cyclic name cycle =>
    obtain ⟨opened, hcycle, hnodup, hin, hlength, hmet⟩ := h
    exact ⟨opened, hcycle, hnodup, hin, hlength, hmet.of_mem hmem⟩
  | tooDeep name bound =>
    obtain ⟨hbound, opened, hlength, hnodup, hin, hmet, hlast⟩ := h
    exact ⟨hbound, opened, hlength, hnodup, hin, hmet.of_mem hmem, hlast⟩

/-- A fault inside an aggregate is one in front of it, as the aggregate is not asked for again. -/
theorem Fault.outside {name : String} {answer : Answer} {aggregate : Aggregate}
    (h : Fault limit room (path ++ [name]) aggregate.tokens dialogue e)
    (hanswer : answer.definition = .ok (some aggregate)) (hfresh : name ∉ dialogue.map Prod.fst)
    (hfull : room = 0 → dialogue = []) :
    Fault limit (room + 1) path [.name name] ((name, answer) :: dialogue) e := by
  have hmet {opened : List String} {inner : String} (h : Met aggregate.tokens dialogue opened inner) :
      Met [.name name] ([] ++ (name, answer) :: dialogue) (name :: opened) inner :=
    .inside List.mem_cons_self hanswer hfresh h
  have hpath (opened : List String) : path ++ [name] ++ opened = path ++ name :: opened := by simp
  cases e with
  | unresolved inner =>
    obtain ⟨hinner, last, hlast, hlast'⟩ := h
    exact ⟨hinner, last, getLast?_append_of_eq_some hlast [(name, answer)], hlast'⟩
  | malformed inner response => exact h
  | cyclic inner cycle =>
    obtain ⟨opened, hcycle, hnodup, hin, hlength, hinner⟩ := h
    rw [hpath] at hcycle hnodup hin
    exact ⟨name :: opened, hcycle, hnodup, hin, by simpa using hlength, hmet hinner⟩
  | tooDeep inner bound =>
    obtain ⟨hbound, opened, hlength, hnodup, hin, hinner, hlast⟩ := h
    rw [hpath] at hnodup hin
    refine ⟨hbound, name :: opened, by simpa using hlength, hnodup, hin, hmet hinner, ?_⟩
    intro innermost hinnermost
    cases hopened : opened.getLast? with
    | none =>
      -- Without room nothing was asked behind the innermost aggregate.
      obtain rfl := List.getLast?_eq_none_iff.mp hopened
      obtain rfl : name = innermost := by simpa using hinnermost
      exact ⟨answer, by rw [hfull hlength.symm]; rfl⟩
    | some last =>
      obtain rfl : last = innermost := by simpa [List.getLast?_cons, hopened] using hinnermost
      obtain ⟨answer', hanswer'⟩ := hlast last hopened
      exact ⟨answer', getLast?_append_of_eq_some hanswer' [(name, answer)]⟩

/-- What the queries of a run tell about its last state and its error. -/
structure Accounted (oracle : Oracle σ) (limit room : Nat) (path : List String)
    (tokens : List Token) (s : σ) (queries : List String) (failure? : Option LoweringError) (t : σ) :
    Prop where
  state_eq : t = oracle.afterAsking queries s
  fresh : ∀ q ∈ queries, q ∉ path ∧ Primitive.ofWord? q = none
  full : room = 0 → queries = []
  reason : path.Nodup → ∀ e ∈ failure?, Refused (oracle.dialogue queries s) e ∨
    Fault limit room path tokens (oracle.dialogue queries s) e

theorem accounted (oracle : Oracle σ) (limit : Nat) :
    Invariant oracle limit (Accounted oracle limit) where
  composable room path tokens :=
    { empty := fun s => ⟨rfl, by simp, by simp, by simp⟩
      append := by
        intro s t u qs rs e hqs hrs
        obtain rfl := hqs.state_eq
        refine ⟨?_, ?_, ?_, ?_⟩
        · rw [hrs.state_eq, oracle.afterAsking_append]
        · intro q hq
          exact (List.mem_append.mp hq).elim (hqs.fresh q) (hrs.fresh q)
        · intro hroom
          rw [hqs.full hroom, hrs.full hroom, List.append_nil]
        · intro hnodup e he
          rw [oracle.dialogue_append]
          exact (hrs.reason hnodup e he).imp (·.after_dialogue _) (·.after_dialogue _) }
  member hmem h :=
    ⟨h.state_eq, h.fresh, h.full,
      fun hnodup e he => (h.reason hnodup e he).imp id (·.of_mem hmem)⟩
  cyclic s hname hmem := by
    refine ⟨rfl, by simp, by simp, ?_⟩
    intro hnodup e he
    cases he
    exact .inr ⟨[], by simp, by simpa using hnodup, by simpa using hmem, by simp,
      .here List.mem_cons_self⟩
  tooDeep s hname hmem := by
    refine ⟨rfl, by simp, by simp, ?_⟩
    intro hnodup e he
    cases he
    exact .inr ⟨rfl, [], rfl, by simpa using hnodup, by simpa using hmem,
      .here List.mem_cons_self, by simp⟩
  refused hname hmem hanswer := by
    refine ⟨rfl, by simp [hname, hmem], by simp, ?_⟩
    intro hnodup e he
    cases he
    exact .inl ⟨_, _, rfl, hname, hanswer⟩
  unresolved hname hmem hanswer := by
    refine ⟨rfl, by simp [hname, hmem], by simp, ?_⟩
    intro hnodup e he
    cases he
    exact .inr ⟨hname, _, rfl, hanswer⟩
  opened := by
    intro room path name s aggregate qs e t hname hmem hanswer hinside
    refine ⟨hinside.state_eq, ?_, by simp, ?_⟩
    · intro q hq
      rcases List.mem_cons.mp hq with rfl | hq
      · exact ⟨hmem, hname⟩
      · obtain ⟨hpath, hq⟩ := hinside.fresh q hq
        exact ⟨fun h => hpath (List.mem_append_left _ h), hq⟩
    · intro hnodup e he
      have hnodup' : (path ++ [name]).Nodup :=
        List.nodup_append_comm.mpr (List.nodup_cons.mpr ⟨hmem, hnodup⟩)
      rcases hinside.reason hnodup' e he with h | h
      · exact .inl (h.after_dialogue [(name, (oracle name s).1)])
      · refine .inr (h.outside hanswer ?_ ?_)
        · rw [oracle.map_fst_dialogue]
          intro hq
          exact (hinside.fresh name hq).1 (by simp)
        · intro hroom
          rw [hinside.full hroom]
          rfl

theorem accounted_lowerTokens (oracle : Oracle σ) (depth : Nat) (tokens : List Token) (s : σ) :
    Accounted oracle depth depth [] tokens s (lowerTokens oracle depth tokens s).queries
      (lowerTokens oracle depth tokens s).failure? (lowerTokens oracle depth tokens s).state :=
  (accounted oracle depth).has_lowerTokens tokens s

theorem eq_malformed_of_ofQuery {query : String → σ → Option String × σ} {name : String} {s : σ}
    {e : LoweringError} (h : (Oracle.ofQuery query name s).1.definition = .error e) :
    ∃ text, (Oracle.ofQuery query name s).1.text = some text ∧ e = .malformed name text := by
  simp only [Oracle.ofQuery] at h ⊢
  cases htext : (query name s).1 with
  | none => simp [Oracle.readText, htext] at h
  | some text =>
    rw [htext, Oracle.readText] at h
    split at h
    · simp at h
    next hblank =>
      refine ⟨text, by rw [Oracle.readText, if_neg hblank], ?_⟩
      cases hparse : Aggregate.parse name text with
      | ok aggregate => simp [hparse, Except.map] at h
      | error fault =>
        simp only [hparse, Except.map, Except.error.injEq] at h
        unfold Aggregate.parse at hparse
        split at hparse
        · simp at hparse
        · simp only [Except.error.injEq] at hparse
          rw [← h, ← hparse]

/-- Every error of a run is witnessed by what the oracle was asked and what it answered. Either the
last answer was an error, which is handed on, and of an oracle that answers with texts it names the
query and quotes the text. Or the last name asked for is unknown. Or the aggregates of a chain are open,
each of which was asked for, is not asked for again and was answered with an aggregate that mentions the
next, when one of them is met again, or when another is met while as many are open as may be. The run
leaves the oracle as these questions leave it. -/
theorem lowerTokens_error_witness (oracle : Oracle σ) (depth : Nat) (tokens : List Token) (s : σ)
    (e : LoweringError) (h : (lowerTokens oracle depth tokens s).result = .error e) :
    let queries := (lowerTokens oracle depth tokens s).queries
    let dialogue := oracle.dialogue queries s
    (lowerTokens oracle depth tokens s).state = oracle.afterAsking queries s ∧
    ((∃ name answer, dialogue.getLast? = some (name, answer) ∧ Primitive.ofWord? name = none ∧
      answer.definition = .error e ∧
      ∀ query, oracle = .ofQuery query →
        ∃ text, answer.text = some text ∧ e = .malformed name text) ∨
    match e with
    | .unresolved name => Primitive.ofWord? name = none ∧
        ∃ answer, dialogue.getLast? = some (name, answer) ∧ answer.definition = .ok none
    | .malformed .. => False
    | .cyclic name cycle => ∃ opened, cycle = opened ++ [name] ∧ opened.Nodup ∧ name ∈ opened ∧
        1 ≤ opened.length ∧ opened.length ≤ depth ∧ Met tokens dialogue opened name
    | .tooDeep name limit => limit = depth ∧ ∃ opened, opened.length = depth ∧ opened.Nodup ∧
        name ∉ opened ∧ Met tokens dialogue opened name ∧
        dialogue.getLast?.map Prod.fst = opened.getLast?) := by
  intro queries dialogue
  have haccount := accounted_lowerTokens oracle depth tokens s
  refine ⟨haccount.state_eq, ?_⟩
  rcases haccount.reason .nil e (Outcome.failure?_eq_some_iff.mpr h) with hrefused | hfault
  · obtain ⟨name, answer, hlast, hname, hanswer⟩ := hrefused
    refine .inl ⟨name, answer, hlast, hname, hanswer, ?_⟩
    intro query horacle
    subst horacle
    obtain ⟨t, ht⟩ := Oracle.exists_answer_of_mem_dialogue _ (List.mem_of_getLast? hlast)
    simp only at ht
    subst ht
    exact eq_malformed_of_ofQuery hanswer
  · right
    cases e with
    | unresolved name => exact hfault
    | malformed name response => exact hfault
    | cyclic name cycle =>
      obtain ⟨opened, hcycle, hnodup, hmem, hlength, hmet⟩ := hfault
      exact ⟨opened, hcycle, hnodup, hmem, List.length_pos_of_mem hmem, hlength, hmet⟩
    | tooDeep name limit =>
      obtain ⟨hlimit, opened, hlength, hnodup, hmem, hmet, hlast⟩ := hfault
      refine ⟨hlimit, opened, hlength, hnodup, hmem, hmet, ?_⟩
      cases hopened : opened.getLast? with
      | none =>
        obtain rfl := List.getLast?_eq_none_iff.mp hopened
        have hnone : queries = [] := haccount.full hlength.symm
        simp only [dialogue, hnone, Oracle.dialogue, List.getLast?_nil, Option.map_none]
      | some innermost =>
        obtain ⟨answer, hanswer⟩ := hlast innermost hopened
        rw [hanswer, Option.map_some]

/-- Answers with `b` to the first question and with `a` to all others, whatever the question. -/
def alternating : Oracle Nat := fun _ asked =>
  (⟨.ok (some ⟨[if asked = 0 then "b next" else "struct a *back"]⟩), none⟩, asked + 1)

theorem lowerTokens_error_witness_alternating :
    (lowerTokens alternating 2 [.name "a"] 0).result = .error (.cyclic "a" ["a", "b", "a"]) ∧
    ∃ opened, ["a", "b", "a"] = opened ++ ["a"] ∧
      Met [.name "a"] (alternating.dialogue ["a", "b"] 0) opened "a" := by
  have herror : (lowerTokens alternating 2 [.name "a"] 0).result =
      .error (.cyclic "a" ["a", "b", "a"]) := Outcome.failure?_eq_some_iff.mp (by decide +kernel)
  have hqueries : (lowerTokens alternating 2 [.name "a"] 0).queries = ["a", "b"] := by
    decide +kernel
  obtain ⟨-, hwitness⟩ := lowerTokens_error_witness alternating 2 [.name "a"] 0 _ herror
  rw [hqueries] at hwitness
  refine ⟨herror, ?_⟩
  rcases hwitness with ⟨name, answer, hlast, -, hanswer, -⟩ | hwitness
  · obtain ⟨t, rfl⟩ : ∃ t, answer = (alternating name t).1 :=
      alternating.exists_answer_of_mem_dialogue (List.mem_of_getLast? hlast)
    simp [alternating] at hanswer
  · obtain ⟨opened, hcycle, -, -, -, -, hmet⟩ := hwitness
    exact ⟨opened, hcycle, hmet⟩

end Lowering

end DecompConfig
