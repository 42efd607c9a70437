import DecompConfig.Proofs.Aggregate
import DecompConfig.Proofs.Encoding.Grammar
import DecompConfig.Proofs.Lowering.Dialogue

namespace DecompConfig

variable {σ : Type}

/-- No aggregate of the answers has a punctuation mark in the types of its members. -/
def Plain (dialogue : List (String × Answer)) : Prop :=
  ∀ entry ∈ dialogue, ∀ aggregate, entry.2.definition = .ok (some aggregate) →
    ∀ t ∈ aggregate.tokens, t.isPunctuation = false

/-- The answers are these aggregates, in their order. -/
def Opens (dialogue : List (String × Answer)) (opened : List Aggregate) : Prop :=
  dialogue.map (·.2.definition) = opened.map fun aggregate => .ok (some aggregate)

section Answers

variable {dialogue more : List (String × Answer)} {opened others : List Aggregate}

theorem Plain.of_append (h : Plain (dialogue ++ more)) : Plain dialogue ∧ Plain more :=
  List.forall_mem_append.mp h

namespace Opens

theorem append (h : Opens dialogue opened) (hmore : Opens more others) :
    Opens (dialogue ++ more) (opened ++ others) := by
  rw [Opens, List.map_append, List.map_append, h, hmore]

theorem cons {entry : String × Answer} {aggregate : Aggregate}
    (hanswer : entry.2.definition = .ok (some aggregate)) (h : Opens dialogue opened) :
    Opens (entry :: dialogue) (aggregate :: opened) := by
  rw [Opens, List.map_cons, List.map_cons, hanswer, h]

theorem length_eq (h : Opens dialogue opened) : opened.length = dialogue.length := by
  simpa using (congrArg List.length h).symm

theorem unique (h : Opens dialogue opened) (hothers : Opens dialogue others) : opened = others := by
  have hinjective : Function.Injective
      (fun aggregate => .ok (some aggregate) : Aggregate → Except LoweringError (Option Aggregate)) :=
    fun _ _ heq => Option.some.inj (Except.ok.inj heq)
  exact List.map_injective_iff.mpr hinjective (h.symm.trans hothers)

theorem plain (h : Opens dialogue opened)
    (hplain : ∀ aggregate ∈ opened, ∀ t ∈ aggregate.tokens, t.isPunctuation = false) :
    Plain dialogue := by
  intro entry hentry aggregate hanswer
  have hanswered : .ok (some aggregate) ∈ dialogue.map (·.2.definition) :=
    List.mem_map.mpr ⟨entry, hentry, hanswer⟩
  rw [h] at hanswered
  obtain ⟨_, hmem, heq⟩ := List.mem_map.mp hanswered
  obtain rfl := Option.some.inj (Except.ok.inj heq)
  exact hplain _ hmem

end Opens

end Answers

namespace Lowering

open Encoding

/-- A text that came with the answers of a dialogue is made of symbols, and if no punctuation mark is
among the types it came from, its groups are the aggregates of the answers. -/
structure Written (height : Nat) (plain : Prop) (text : String) (dialogue : List (String × Answer)) :
    Prop where
  spelled : Spelled text
  mirrors : plain → Plain dialogue → ∃ opened, Opens dialogue opened ∧
    Sentence height (opened.map (·.members.length)) text

namespace Written

variable {height : Nat} {plain plain' : Prop} {text rest : String}
  {dialogue more : List (String × Answer)}

theorem of_symbols (h : Spelled text) (hsentence : plain → Sentence height [] text) :
    Written height plain text [] where
  spelled := h
  mirrors hplain _ := ⟨[], rfl, hsentence hplain⟩

theorem weaken (h : Written height plain text dialogue) (himp : plain' → plain) :
    Written height plain' text dialogue where
  spelled := h.spelled
  mirrors hplain := h.mirrors (himp hplain)

theorem append (h : Written height plain text dialogue) (hrest : Written height plain' rest more) :
    Written height (plain ∧ plain') (text ++ rest) (dialogue ++ more) where
  spelled := h.spelled.append hrest.spelled
  mirrors := by
    intro hplain hanswers
    obtain ⟨opened, hopened, hsentence⟩ := h.mirrors hplain.1 hanswers.of_append.1
    obtain ⟨others, hothers, hsentence'⟩ := hrest.mirrors hplain.2 hanswers.of_append.2
    refine ⟨opened ++ others, hopened.append hothers, ?_⟩
    rw [List.map_append]
    exact hsentence.append hsentence'

end Written

/-- The texts of `count` members, which came with the answers of a dialogue. -/
structure WrittenMembers (height count : Nat) (plain : Prop) (texts : List String)
    (dialogue : List (String × Answer)) : Prop where
  spelled : ∀ text ∈ texts, Spelled text
  mirrors : plain → Plain dialogue → ∃ opened, Opens dialogue opened ∧
    ∃ members : List Member, members.map (·.text) = texts ∧ members.length = count ∧
      members.flatMap (·.groups) = opened.map (·.members.length) ∧
      ∀ m ∈ members, Sentence height m.groups m.text

namespace WrittenMembers

variable {height count : Nat} {plain plain' : Prop} {text : String} {texts : List String}
  {dialogue more : List (String × Answer)}

theorem nil : WrittenMembers height 0 plain [] [] where
  spelled := by simp
  mirrors _ _ := ⟨[], rfl, [], by simp⟩

theorem weaken (h : WrittenMembers height count plain texts dialogue) (himp : plain' → plain) :
    WrittenMembers height count plain' texts dialogue where
  spelled := h.spelled
  mirrors hplain := h.mirrors (himp hplain)

theorem cons (h : Written height plain text dialogue)
    (hrest : WrittenMembers height count plain' texts more) :
    WrittenMembers height (count + 1) (plain ∧ plain') (text :: texts) (dialogue ++ more) where
  spelled := List.forall_mem_cons.mpr ⟨h.spelled, hrest.spelled⟩
  mirrors := by
    intro hplain hanswers
    obtain ⟨opened, hopened, hsentence⟩ := h.mirrors hplain.1 hanswers.of_append.1
    obtain ⟨others, hothers, members, rfl, rfl, hgroups, hmembers⟩ :=
      hrest.mirrors hplain.2 hanswers.of_append.2
    refine ⟨opened ++ others, hopened.append hothers,
      ⟨text, opened.map (·.members.length)⟩ :: members, rfl, rfl, ?_, ?_⟩
    · rw [List.flatMap_cons, hgroups, List.map_append]
    · exact List.forall_mem_cons.mpr ⟨hsentence, hmembers⟩

/-- Braces around the members of an aggregate make its group. -/
theorem braced {aggregate : Aggregate} {entry : String × Answer}
    (hanswer : entry.2.definition = .ok (some aggregate))
    (hplain : (∀ t ∈ aggregate.tokens, t.isPunctuation = false) → plain)
    (h : WrittenMembers height aggregate.members.length plain texts dialogue) :
    Written (height + 1) True (DecompConfig.braced texts) (entry :: dialogue) where
  spelled := .braced h.spelled
  mirrors := by
    intro _ hanswers
    obtain ⟨hfirst, hothers⟩ := List.forall_mem_cons.mp hanswers
    obtain ⟨opened, hopened, members, rfl, hlength, hgroups, hmembers⟩ :=
      h.mirrors (hplain (hfirst aggregate hanswer)) hothers
    refine ⟨aggregate :: opened, .cons hanswer hopened, ?_⟩
    rw [List.map_cons, ← hlength, ← hgroups]
    exact .of_members hmembers

end WrittenMembers

section Runs

variable {oracle : Oracle σ} {height : Nat} {expand : String → Run σ LoweringError String}

theorem relates_lowerPart (hexpand : ∀ name, (expand name).Relates oracle (Written height True))
    (p : Part) :
    (lowerPart expand p).Relates oracle (Written height (p.isPunctuation = false)) := by
  cases p with
  | primitive p => exact .pure (.of_symbols (.code p) fun _ => .of_code height p)
  | aggregate name => exact (hexpand name).mono fun _ _ h => h.weaken fun _ => trivial
  | stars count => exact .pure (.of_symbols (.stars count) fun _ => .of_stars height count)
  | openBrace => exact .pure (.of_symbols (.of_mem (by decide)) nofun)
  | closeBrace => exact .pure (.of_symbols (.of_mem (by decide)) nofun)
  | comma => exact .pure (.of_symbols (.of_mem (by decide)) nofun)

theorem relates_lowerParts (hexpand : ∀ name, (expand name).Relates oracle (Written height True))
    (ps : List Part) :
    (lowerParts expand ps).Relates oracle (Written height (∀ p ∈ ps, p.isPunctuation = false)) := by
  induction ps with
  | nil => exact .pure (.of_symbols .empty fun _ => .empty)
  | cons p ps ih =>
    rw [lowerParts_cons]
    apply Run.Relates.bind (relates_lowerPart hexpand p)
    intro text d hfirst
    apply Run.Relates.bind ih
    intro rest e hrest
    apply Run.Relates.pure
    rw [List.append_nil]
    exact (hfirst.append hrest).weaken List.forall_mem_cons.mp

theorem relates_lowerMembers (hexpand : ∀ name, (expand name).Relates oracle (Written height True))
    (members : List String) :
    (lowerMembers expand members).Relates oracle (WrittenMembers height members.length
      (∀ m ∈ members, ∀ p ∈ parts false (memberTokens m), p.isPunctuation = false)) := by
  induction members with
  | nil => exact .pure .nil
  | cons m members ih =>
    rw [lowerMembers_cons]
    apply Run.Relates.bind (relates_lowerParts hexpand _)
    intro text d hfirst
    apply Run.Relates.bind ih
    intro texts e hrest
    apply Run.Relates.pure
    rw [List.append_nil]
    exact (WrittenMembers.cons hfirst hrest).weaken List.forall_mem_cons.mp

/-- An aggregate comes to one group, with a group in it for each aggregate that is asked for on the
way. -/
theorem relates_expand (oracle : Oracle σ) (limit room : Nat) (path : List String) (name : String) :
    (Lowering.expand oracle limit room path name).Relates oracle (Written room True) := by
  induction room using Nat.strongRecOn generalizing path name with
  | ind room ih =>
    intro s out hout
    cases expansion oracle limit room path name s with
    | cyclic _ heq => simp [heq] at hout
    | tooDeep _ _ heq => simp [heq] at hout
    | refused _ _ _ heq => simp [heq] at hout
    | unresolved _ _ _ heq => simp [heq] at hout
    | @opened inner aggregate _ hroom hanswer heq =>
      subst hroom
      rw [heq, Outcome.result_after, Outcome.result_map_eq_ok_iff] at hout
      obtain ⟨texts, htexts, rfl⟩ := hout
      have hinside := relates_lowerMembers (ih inner (Nat.lt_succ_self inner) (path ++ [name]))
        aggregate.members
      obtain ⟨hstate, hmembers⟩ := hinside (oracle name s).2 texts htexts
      rw [heq, Outcome.state_after, Outcome.state_map, Outcome.queries_after, Oracle.queries_events,
        Outcome.queries_map]
      refine ⟨hstate, WrittenMembers.braced hanswer ?_ hmembers⟩
      intro hplain m hm p hp
      exact unpunctuated_parts (fun t ht => hplain t (Aggregate.mem_tokens_of_mem hm ht)) hp

end Runs

/-- A successful output consists of primitive codes, stars, braces and commas only. If neither the type
nor the types of the members that the oracle answers with have punctuation marks, it is a sentence of
the grammar with a group for each aggregate asked for, in the order of the questions: the braces are
balanced and nest no deeper than the limit, there are as many pairs as questions, and each pair has one
comma less of its own than its aggregate has members, or none. The members of a definition that can be
read have no braces to begin with. -/
theorem lowerType_wellFormed (oracle : Oracle σ) (depth : Nat) (type : String) (s : σ) :
    let run := lowerType oracle depth type s
    (∀ out, run.result = .ok out →
      Spelled out ∧ (∀ c ∈ out.toList, Text.isBlank c = false) ∧
      ((∀ t ∈ typeTokens type, t.isPunctuation = false) → Plain (oracle.dialogue run.queries s) →
        ∃ opened, Opens (oracle.dialogue run.queries s) opened ∧
          Sentence depth (opened.map (·.members.length)) out ∧ Balanced depth out.toList ∧
          out.toList.count '{' = run.queries.length ∧
          ∀ j aggregate, opened[j]? = some aggregate →
            HasGroup depth out.toList j (aggregate.members.length - 1))) ∧
    ∀ name text aggregate, Aggregate.parse name text = .ok aggregate →
      ∀ t ∈ aggregate.tokens, t ≠ .openBrace ∧ t ≠ .closeBrace := by
  intro run
  refine ⟨?_, fun name text aggregate h t => Aggregate.not_brace_of_parse h⟩
  intro out hout
  have hwritten : Written depth _ out (oracle.dialogue run.queries s) :=
    (relates_lowerParts (relates_expand oracle depth depth []) _ s out hout).2
  refine ⟨hwritten.spelled, fun c hc => hwritten.spelled.not_isBlank hc, ?_⟩
  intro htype hanswers
  obtain ⟨opened, hopened, hsentence⟩ :=
    hwritten.mirrors (fun p hp => unpunctuated_parts htype hp) hanswers
  have hlayout := hsentence.layout
  refine ⟨opened, hopened, hsentence, hlayout.balanced, ?_, ?_⟩
  · rw [hlayout.count, List.length_map, List.length_map, hopened.length_eq, oracle.length_dialogue]
  · intro j aggregate hj
    exact hlayout.hasGroup j _ (by simp [hj])

/-- Answers the questions with aggregates of fewer and fewer members, whatever the names. -/
def shrinking : Oracle Nat := fun _ asked =>
  let aggregate : Aggregate :=
    match asked with
    | 0 => ⟨["unsigned size", "const int *data", "list_t *next"]⟩
    | 1 => ⟨["nothing n", "char c"]⟩
    | _ => ⟨[]⟩
  (⟨.ok (some aggregate), none⟩, asked + 1)

theorem lowerType_wellFormed_shrinking :
    let out := "\x7bi32,i32*,\x7b\x7b\x7d,i8\x7d*\x7d*"
    (lowerType shrinking 3 "struct list *" 0).value? = some out ∧ Sentence 3 [3, 2, 0] out ∧
      Balanced 3 out.toList ∧ HasGroup 3 out.toList 1 1 := by
  intro out
  have hvalue : (lowerType shrinking 3 "struct list *" 0).value? = some out := by decide +kernel
  have hqueries : (lowerType shrinking 3 "struct list *" 0).queries =
      ["list", "list_t", "nothing"] := by decide +kernel
  have htype : ∀ t ∈ typeTokens "struct list *", t.isPunctuation = false := by decide +kernel
  have hopens : Opens (shrinking.dialogue ["list", "list_t", "nothing"] 0)
      [⟨["unsigned size", "const int *data", "list_t *next"]⟩, ⟨["nothing n", "char c"]⟩, ⟨[]⟩] := rfl
  have hanswers : Plain (shrinking.dialogue ["list", "list_t", "nothing"] 0) := by
    apply hopens.plain
    decide +kernel
  have hwellFormed := (lowerType_wellFormed shrinking 3 "struct list *" 0).1 out
    (Outcome.value?_eq_some_iff.mp hvalue)
  rw [hqueries] at hwellFormed
  obtain ⟨-, -, hplain⟩ := hwellFormed
  obtain ⟨opened, hopened, hsentence, hbalanced, -, hgroups⟩ := hplain htype hanswers
  obtain rfl := hopened.unique hopens
  exact ⟨hvalue, hsentence, hbalanced, hgroups 1 _ rfl⟩

end Lowering

end DecompConfig
