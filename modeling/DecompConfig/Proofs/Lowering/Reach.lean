import DecompConfig.Proofs.Lowering.Fault
import DecompConfig.Proofs.Lowering.Refinement
import Mathlib.Logic.Relation

namespace DecompConfig.Lowering

open Relation

/-- The members of the aggregate `outer` mention the aggregate `inner`. -/
def Mentions (find? : String → Option Aggregate) (outer inner : String) : Prop :=
  ∃ aggregate, find? outer = some aggregate ∧ .name inner ∈ aggregate.tokens ∧
    Primitive.ofWord? inner = none

/-- The tokens lead to the aggregate `name` through definitions, each of which mentions the next
aggregate. -/
def Reaches (find? : String → Option Aggregate) (tokens : List Token) (name : String) : Prop :=
  ∃ first, .name first ∈ tokens ∧ Primitive.ofWord? first = none ∧
    ReflTransGen (Mentions find?) first name

variable {σ : Type} {oracle : Oracle σ} {find? : String → Option Aggregate} {tokens : List Token}
  {name : String}

namespace Reaches

theorem of_mem (hmem : .name name ∈ tokens) (hname : Primitive.ofWord? name = none) :
    Reaches find? tokens name :=
  ⟨name, hmem, hname, .refl⟩

theorem through {outer : String} {aggregate : Aggregate} (h : Reaches find? aggregate.tokens name)
    (hmem : .name outer ∈ tokens) (houter : Primitive.ofWord? outer = none)
    (hdef : find? outer = some aggregate) : Reaches find? tokens name := by
  obtain ⟨first, hfirst, hprimitive, hpath⟩ := h
  exact ⟨outer, hmem, houter, .head ⟨aggregate, hdef, hfirst, hprimitive⟩ hpath⟩

theorem of_singleton {outer : String} (h : Reaches find? [.name outer] name)
    (hmem : .name outer ∈ tokens) : Reaches find? tokens name := by
  obtain ⟨first, hfirst, hprimitive, hpath⟩ := h
  obtain rfl : first = outer := by simpa using hfirst
  exact ⟨first, hmem, hprimitive, hpath⟩

theorem exists_mention (h : Reaches find? tokens name) :
    .name name ∈ tokens ∨ ∃ aggregate : Aggregate, .name name ∈ aggregate.tokens := by
  obtain ⟨first, hfirst, -, hpath⟩ := h
  rcases hpath.cases_tail with rfl | ⟨outer, -, aggregate, -, hmem, -⟩
  · exact .inl hfirst
  · exact .inr ⟨aggregate, hmem⟩

end Reaches

section Success

variable {depth : Nat} {outer inner : String}

/-- What an unfolding aggregate mentions unfolds at a smaller depth. -/
theorem Unfoldable.exists_lt (h : Unfoldable find? depth outer)
    (houter : Primitive.ofWord? outer = none) (hmention : Mentions find? outer inner) :
    ∃ less < depth, Unfoldable find? less inner := by
  obtain ⟨out, names, h⟩ := h
  obtain ⟨less, members, rfl, hdef, hmembers, -⟩ := h.exists_members houter
  obtain ⟨aggregate, haggregate, hmem, hinner⟩ := hmention
  obtain rfl : aggregate = ⟨members.map (·.declaration)⟩ :=
    Option.some.inj (haggregate.symm.trans hdef)
  obtain ⟨declaration, hdeclaration, hmem⟩ := List.mem_flatMap.mp hmem
  obtain ⟨m, hm, rfl⟩ := List.mem_map.mp hdeclaration
  exact ⟨less, Nat.lt_succ_self less, (hmembers m hm).unfoldable_of_mem hinner hmem⟩

theorem Mentions.not_primitive (h : Mentions find? outer inner) :
    Primitive.ofWord? inner = none := by
  obtain ⟨_, _, _, h⟩ := h
  exact h

theorem Unfoldable.exists_lt_of_transGen (h : Unfoldable find? depth outer)
    (houter : Primitive.ofWord? outer = none) (hpath : TransGen (Mentions find?) outer inner) :
    Primitive.ofWord? inner = none ∧ ∃ less < depth, Unfoldable find? less inner := by
  induction hpath with
  | single hmention => exact ⟨hmention.not_primitive, h.exists_lt houter hmention⟩
  | tail _ hmention ih =>
    obtain ⟨hmid, less, hless, hunfoldable⟩ := ih
    obtain ⟨less', hless', hunfoldable'⟩ := hunfoldable.exists_lt hmid hmention
    exact ⟨hmention.not_primitive, less', hless'.trans hless, hunfoldable'⟩

/-- The unfolding depth decreases along each mention, so nothing that unfolds leads back to itself. -/
theorem Unfoldable.not_transGen_self (h : Unfoldable find? depth name)
    (hname : Primitive.ofWord? name = none) : ¬TransGen (Mentions find?) name name := by
  intro hcycle
  obtain ⟨least, -, hleast, hminimal⟩ := h.exists_least
  obtain ⟨-, less, hless, hunfoldable⟩ := hleast.exists_lt_of_transGen hname hcycle
  exact hminimal less hless hunfoldable

theorem Unfoldable.isSome (h : Unfoldable find? depth name)
    (hname : Primitive.ofWord? name = none) : (find? name).isSome := by
  obtain ⟨out, names, h⟩ := h
  obtain ⟨-, members, -, hdef, -⟩ := h.exists_members hname
  simp [hdef]

/-- Every aggregate that an unfolding token list reaches is defined and does not lead back to
itself. -/
theorem Unfolds.defined_of_reaches {out : String} {names : List String}
    (h : Unfolds find? depth tokens out names) (hreach : Reaches find? tokens name) :
    (find? name).isSome ∧ ¬TransGen (Mentions find?) name name := by
  obtain ⟨first, hfirst, hprimitive, hpath⟩ := hreach
  have hunfoldable := h.unfoldable_of_mem hprimitive hfirst
  obtain ⟨hname, less, hunfoldable⟩ : Primitive.ofWord? name = none ∧
      ∃ less, Unfoldable find? less name := by
    rcases reflTransGen_iff_eq_or_transGen.mp hpath with rfl | hpath
    · exact ⟨hprimitive, depth, hunfoldable⟩
    · obtain ⟨hname, less, -, hless⟩ := hunfoldable.exists_lt_of_transGen hprimitive hpath
      exact ⟨hname, less, hless⟩
  exact ⟨hunfoldable.isSome hname, hunfoldable.not_transGen_self hname⟩

end Success

section Failure

variable {depth : Nat} {dialogue : List (String × Answer)} {opened : List String}

theorem reaches_of_query (horacle : oracle.AnswersBy find?) (limit : Nat) :
    Invariant oracle limit fun _ _ tokens _ queries _ _ =>
      ∀ q ∈ queries, Reaches find? tokens q := by
  refine .of_asked (.of_mem List.mem_cons_self) (fun hmem h => h.of_singleton hmem) ?_
  intro name s aggregate q hname hanswer hinside
  rw [horacle name s] at hanswer
  exact hinside.through List.mem_cons_self hname (Except.ok.inj hanswer)

/-- What is met inside open aggregates is reached, and they all lead to it. -/
theorem Met.reaches (h : Met tokens dialogue opened name)
    (hdialogue : ∀ entry ∈ dialogue, entry.2.definition = .ok (find? entry.1))
    (hopened : ∀ outer ∈ opened, Primitive.ofWord? outer = none)
    (hname : Primitive.ofWord? name = none) :
    Reaches find? tokens name ∧ ∀ outer ∈ opened, TransGen (Mentions find?) outer name := by
  induction h with
  | here hmem => exact ⟨.of_mem hmem hname, by simp⟩
  | @inside tokens before after opened name outer answer aggregate hmem hanswer _ _ ih =>
    have hdef : find? outer = some aggregate := by
      have hentry := hdialogue (outer, answer) (by simp)
      exact Except.ok.inj (hentry.symm.trans hanswer)
    obtain ⟨hreach, hinner⟩ := ih
      (fun entry hentry => hdialogue entry (by simp [hentry]))
      (fun outer houter => hopened outer (List.mem_cons_of_mem _ houter)) hname
    -- What is reached from the members of `outer` is reached through `outer`.
    refine ⟨hreach.through hmem (hopened outer List.mem_cons_self) hdef, ?_⟩
    intro other hother
    rcases List.mem_cons.mp hother with rfl | hother
    · obtain ⟨first, hfirst, hprimitive, hpath⟩ := hreach
      exact .head' ⟨aggregate, hdef, hfirst, hprimitive⟩ hpath
    · exact hinner other hother

/-- What the errors of a run say about the definitions that its oracle answers with. -/
theorem reaches_of_error (horacle : oracle.AnswersBy find?) {s : σ} {e : LoweringError}
    (h : (lowerTokens oracle depth tokens s).result = .error e) :
    match e with
    | .unresolved name => Reaches find? tokens name ∧ find? name = none
    | .malformed .. => False
    | .cyclic name _ => Reaches find? tokens name ∧ TransGen (Mentions find?) name name
    | .tooDeep .. => ∃ opened : List String, opened.length = depth ∧ opened.Nodup ∧
        ∀ outer ∈ opened, Reaches find? tokens outer ∧ (find? outer).isSome := by
  have haccount := accounted_lowerTokens oracle depth tokens s
  have hqueries := (reaches_of_query horacle depth).has_lowerTokens tokens s
  generalize (lowerTokens oracle depth tokens s).queries = queries at haccount hqueries
  have hdialogue : ∀ entry ∈ oracle.dialogue queries s, entry.1 ∈ queries ∧
      entry.2.definition = .ok (find? entry.1) := by
    intro entry hentry
    obtain ⟨t, ht⟩ := oracle.exists_answer_of_mem_dialogue hentry
    refine ⟨?_, by rw [ht, horacle]⟩
    rw [← oracle.map_fst_dialogue queries s]
    exact List.mem_map_of_mem hentry
  have hopened {opened : List String} {inner : String}
      (hmet : Met tokens (oracle.dialogue queries s) opened inner) :
      ∀ outer ∈ opened, outer ∈ queries ∧ (find? outer).isSome := by
    intro outer houter
    obtain ⟨answer, aggregate, hentry, hanswer⟩ := hmet.exists_aggregate houter
    obtain ⟨hquery, hdef⟩ := hdialogue _ hentry
    exact ⟨hquery, by simp [Except.ok.inj (hdef.symm.trans hanswer)]⟩
  rcases haccount.reason .nil e (Outcome.failure?_eq_some_iff.mpr h) with hrefused | hfault
  · obtain ⟨name, answer, hlast, -, hanswer⟩ := hrefused
    cases (hdialogue _ (List.mem_of_getLast? hlast)).2.symm.trans hanswer
  · cases e with
    | unresolved name =>
      obtain ⟨-, answer, hlast, hanswer⟩ := hfault
      obtain ⟨hquery, hdef⟩ := hdialogue _ (List.mem_of_getLast? hlast)
      exact ⟨hqueries name hquery, Except.ok.inj (hdef.symm.trans hanswer)⟩
    | malformed name response => exact hfault
    | cyclic name cycle =>
      obtain ⟨opened, -, -, hmem, -, hmet⟩ := hfault
      have hprimitive (outer : String) (houter : outer ∈ opened) : Primitive.ofWord? outer = none :=
        (haccount.fresh outer (hopened hmet outer houter).1).2
      obtain ⟨hreach, hcycle⟩ := hmet.reaches
        (fun entry hentry => (hdialogue entry hentry).2) hprimitive (hprimitive name hmem)
      exact ⟨hreach, hcycle name hmem⟩
    | tooDeep name limit =>
      obtain ⟨-, opened, hlength, hnodup, -, hmet, -⟩ := hfault
      refine ⟨opened, hlength, hnodup, fun outer houter => ?_⟩
      obtain ⟨hquery, hdef⟩ := hopened hmet outer houter
      exact ⟨hqueries outer hquery, hdef⟩

end Failure

end DecompConfig.Lowering
