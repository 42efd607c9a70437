import DecompConfig.Lowering.Part

namespace DecompConfig

/-- Identifiers: the words that are no qualifiers. -/
def Token.isName : Token → Bool
  | .name _ => true
  | _ => false

def Token.isQualifier : Token → Bool
  | .qualifier _ => true
  | _ => false

def Part.isAggregate : Part → Bool
  | .aggregate _ => true
  | _ => false

def Token.isPunctuation : Token → Bool
  | .openBrace | .closeBrace | .comma => true
  | _ => false

def Part.isPunctuation : Part → Bool
  | .openBrace | .closeBrace | .comma => true
  | _ => false

namespace Primitive

/-- The tokens `run` continue a spelling of `p` to a spelling of `q`. -/
inductive Continues : Primitive → List Token → Primitive → Prop where
  | done (p : Primitive) : Continues p [] p
  | qualifier {p q run} (k : Qualifier) : Continues p run q → Continues p (.qualifier k :: run) q
  | word {p p' q word run} : p.extend? word = some p' → Continues p' run q →
      Continues p (.name word :: run) q

/-- No longer run at the front of `run ++ rest` than `run` continues a spelling of `p`. -/
def Longest (p : Primitive) (run rest : List Token) : Prop :=
  ∀ run' q, run' <+: run ++ rest → p.Continues run' q → run'.length ≤ run.length

theorem munch_append_of_continues {p q : Primitive} {run : List Token} (h : p.Continues run q)
    (rest : List Token) : p.munch (run ++ rest) = q.munch rest := by
  induction h with
  | done => rfl
  | qualifier k _ ih => rw [List.cons_append, munch, ih]
  | word hword _ ih => simp only [List.cons_append, munch, hword, ih]

theorem exists_continues_munch (p : Primitive) (ts : List Token) :
    ∃ run, run ++ (p.munch ts).2 = ts ∧ p.Continues run (p.munch ts).1 := by
  fun_induction munch p ts with
  | case1 p k ts ih =>
    obtain ⟨run, happ, hrun⟩ := ih
    exact ⟨.qualifier k :: run, by rw [List.cons_append, happ], .qualifier k hrun⟩
  | case2 p word ts q hword ih =>
    obtain ⟨run, happ, hrun⟩ := ih
    exact ⟨.name word :: run, by rw [List.cons_append, happ], .word hword hrun⟩
  | case3 p word ts => exact ⟨[], rfl, .done p⟩
  | case4 p ts => exact ⟨[], rfl, .done p⟩

/-- What is munched is the longest run that continues the spelling. -/
theorem munch_append_of_longest {p q : Primitive} {run rest : List Token} (h : p.Continues run q)
    (hlongest : p.Longest run rest) : p.munch (run ++ rest) = (q, rest) := by
  obtain ⟨more, happ, hmore⟩ := exists_continues_munch p (run ++ rest)
  have hlength : more.length ≤ run.length := hlongest more _ ⟨_, happ⟩ hmore
  have hshort := (q.length_munch_le rest)
  rw [munch_append_of_continues h] at happ ⊢
  have htotal := congrArg List.length happ
  simp only [List.length_append] at htotal
  have hmore' : more = run := (List.append_inj happ (by omega)).1
  have hrest : (q.munch rest).2 = rest := (List.append_inj happ (by omega)).2
  obtain ⟨run', happ', hrun'⟩ := exists_continues_munch q rest
  have hempty : run' = [] := by
    rw [hrest] at happ'
    simpa using happ'
  subst hempty
  generalize hq : (q.munch rest).1 = r at hrun'
  cases hrun'
  exact Prod.ext hq hrest

theorem exists_longest_munch (p : Primitive) (ts : List Token) :
    ∃ run, run ++ (p.munch ts).2 = ts ∧ p.Continues run (p.munch ts).1 ∧
      p.Longest run (p.munch ts).2 := by
  obtain ⟨run, happ, hrun⟩ := exists_continues_munch p ts
  refine ⟨run, happ, hrun, ?_⟩
  intro run' q hprefix hrun'
  obtain ⟨rest', happ'⟩ := hprefix
  -- The longer run would be munched as well.
  have heq := munch_append_of_continues hrun' rest'
  rw [happ', happ] at heq
  have hshort := q.length_munch_le rest'
  rw [← heq] at hshort
  have htotal := congrArg List.length happ'
  simp only [List.length_append] at htotal
  omega

theorem isSome_ofWord?_of_mem_continues {p q : Primitive} {run : List Token}
    (h : p.Continues run q) {word : String} (hmem : .name word ∈ run) :
    (ofWord? word).isSome := by
  induction h with
  | done => simp at hmem
  | qualifier k _ ih => exact ih (by simpa using hmem)
  | word hword _ ih =>
    rcases List.mem_cons.mp hmem with heq | hmem
    · cases heq
      exact isSome_ofWord?_of_extend? hword
    · exact ih hmem

theorem munch_suffix (p : Primitive) (ts : List Token) : (p.munch ts).2 <:+ ts := by
  obtain ⟨run, happ, -⟩ := exists_continues_munch p ts
  exact ⟨run, happ⟩

theorem name_mem_munch_iff (p : Primitive) {ts : List Token} {name : String}
    (h : ofWord? name = none) : .name name ∈ (p.munch ts).2 ↔ .name name ∈ ts := by
  obtain ⟨run, happ, hrun⟩ := exists_continues_munch p ts
  constructor
  · intro hmem
    exact (p.munch_suffix ts).subset hmem
  · intro hmem
    rw [← happ] at hmem
    rcases List.mem_append.mp hmem with hmem | hmem
    · simpa [h] using isSome_ofWord?_of_mem_continues hrun hmem
    · exact hmem

theorem munch_append {rest : List Token} (hstop : ∀ p : Primitive, p.munch rest = (p, rest))
    (p : Primitive) (ts : List Token) :
    p.munch (ts ++ rest) = ((p.munch ts).1, (p.munch ts).2 ++ rest) := by
  fun_induction munch p ts with
  | case1 p q ts ih => rw [List.cons_append, munch, ih]
  | case2 p word ts q hword ih => simp only [List.cons_append, munch, hword, ih]
  | case3 p word ts hword => simp only [List.cons_append, munch, hword]
  | case4 p ts hqualifier hname =>
    cases ts with
    | nil => exact hstop p
    | cons t ts =>
      cases t with
      | qualifier q => exact absurd rfl (hqualifier q ts)
      | name word => exact absurd rfl (hname word ts)
      | _ => rfl

end Primitive

/-- The text that a waiting sign keyword turns into. -/
def signText (pendingSign : Bool) : String := if pendingSign then Primitive.i32.code else ""

theorem mem_signPart {pendingSign : Bool} {p : Part} (h : p ∈ signPart pendingSign) :
    p = .primitive .i32 := by
  cases pendingSign <;> simp_all [signPart]

/-- The aggregates among the parts are the identifiers that are no primitives. -/
theorem aggregate_mem_parts_iff {pendingSign : Bool} {ts : List Token} {name : String} :
    .aggregate name ∈ parts pendingSign ts ↔
      .name name ∈ ts ∧ Primitive.ofWord? name = none := by
  have hsign (b : Bool) : Part.aggregate name ∉ signPart b := fun h => by
    simpa using mem_signPart h
  fun_induction parts pendingSign ts with
  | case1 b => simp [hsign]
  | case2 b q ts ih => simpa using ih
  | case3 b word ts p hword ih =>
    have hne : Primitive.ofWord? name = none → name ≠ word := by
      intro h heq
      rw [heq, hword] at h
      cases h
    constructor
    · intro h
      obtain ⟨hmem, hname⟩ := ih.mp (by simpa using h)
      exact ⟨List.mem_cons_of_mem _ ((p.name_mem_munch_iff hname).mp hmem), hname⟩
    · intro h
      obtain ⟨hmem, hname⟩ := h
      have hmem' : .name name ∈ ts := by simpa [hne hname] using hmem
      exact List.mem_cons_of_mem _ (ih.mpr ⟨(p.name_mem_munch_iff hname).mpr hmem', hname⟩)
  | case4 b word ts hword ih =>
    by_cases h : name = word
    · subst h
      simp [hword]
    · simpa [h] using ih
  | case5 b count ts ih => simpa [hsign] using ih
  | case6 b ts ih => simpa [hsign] using ih
  | case7 b ts ih => simpa [hsign] using ih
  | case8 b ts ih => simpa [hsign] using ih

/-- Punctuation among the parts comes from punctuation among the tokens. -/
theorem unpunctuated_parts {pendingSign : Bool} {ts : List Token}
    (h : ∀ t ∈ ts, t.isPunctuation = false) {p : Part} (hp : p ∈ parts pendingSign ts) :
    p.isPunctuation = false := by
  have hsign (b : Bool) (hp : p ∈ signPart b) : p.isPunctuation = false := by
    rw [mem_signPart hp]
    rfl
  fun_induction parts pendingSign ts with
  | case1 b => exact hsign b hp
  | case2 b q ts ih => exact ih (List.forall_mem_cons.mp h).2 hp
  | case3 b word ts q hword ih =>
    have hrest := fun t ht => (List.forall_mem_cons.mp h).2 t ((q.munch_suffix ts).subset ht)
    rcases List.mem_cons.mp hp with rfl | hp
    · rfl
    · exact ih hrest hp
  | case4 b word ts hword ih =>
    rcases List.mem_cons.mp hp with rfl | hp
    · rfl
    · exact ih (List.forall_mem_cons.mp h).2 hp
  | case5 b count ts ih =>
    rcases List.mem_append.mp hp with hp | hp
    · exact hsign b hp
    rcases List.mem_cons.mp hp with rfl | hp
    · rfl
    · exact ih (List.forall_mem_cons.mp h).2 hp
  | case6 b ts ih => simp [Token.isPunctuation] at h
  | case7 b ts ih => simp [Token.isPunctuation] at h
  | case8 b ts ih => simp [Token.isPunctuation] at h

theorem countP_isAggregate_parts_le (pendingSign : Bool) (ts : List Token) :
    (parts pendingSign ts).countP Part.isAggregate ≤ ts.countP Token.isName := by
  have hsign (b : Bool) : (signPart b).countP Part.isAggregate = 0 := by
    cases b <;> rfl
  fun_induction parts pendingSign ts with
  | case1 b => simp [hsign]
  | case2 b q ts ih => simpa [Token.isName] using ih
  | case3 b word ts p hword ih =>
    have hle := (p.munch_suffix ts).sublist.countP_le (p := Token.isName)
    simp only [List.countP_cons, Part.isAggregate, Token.isName]
    simp only [Bool.false_eq_true, if_false, if_true]
    omega
  | case4 b word ts hword ih => simpa [List.countP_cons, Part.isAggregate, Token.isName] using ih
  | case5 b count ts ih => simpa [hsign, Part.isAggregate, Token.isName] using ih
  | case6 b ts ih => simpa [hsign, Part.isAggregate, Token.isName] using ih
  | case7 b ts ih => simpa [hsign, Part.isAggregate, Token.isName] using ih
  | case8 b ts ih => simpa [hsign, Part.isAggregate, Token.isName] using ih

theorem parts_qualifiers_append (pendingSign : Bool) (qs : List Qualifier) (ts : List Token) :
    parts pendingSign (qs.map Token.qualifier ++ ts) =
      parts (pendingSign || qs.any Qualifier.isSign) ts := by
  induction qs generalizing pendingSign with
  | nil => simp
  | cons q qs ih => rw [List.map_cons, List.cons_append, parts, ih, List.any_cons, Bool.or_assoc]

theorem parts_name (pendingSign : Bool) (word : String) (ts : List Token) :
    parts pendingSign (.name word :: ts) = parts false (.name word :: ts) := by
  cases h : Primitive.ofWord? word <;> simp [parts, h]

theorem parts_of_head_isName {ts : List Token} (h : ∃ t ∈ ts.head?, t.isName = true)
    (pendingSign : Bool) : parts pendingSign ts = parts false ts := by
  obtain ⟨t, ht, hname⟩ := h
  cases ts with
  | nil => simp at ht
  | cons first ts =>
    have heq : first = t := by simpa using ht
    subst heq
    cases first with
    | name word => exact parts_name pendingSign word ts
    | _ => simp [Token.isName] at hname

theorem parts_of_spelling {word : String} {p q : Primitive} {run ts : List Token}
    (hword : Primitive.ofWord? word = some p) (hrun : p.Continues run q)
    (hlongest : p.Longest run ts) :
    parts false (.name word :: (run ++ ts)) = .primitive q :: parts false ts := by
  simp only [parts, hword, Primitive.munch_append_of_longest hrun hlongest]

/-- A pending sign keyword stands for `int` where neither a qualifier nor a word follows it. -/
theorem parts_true_of_dangling {ts : List Token}
    (h : ∀ t ∈ ts.head?, t.isQualifier = false ∧ t.isName = false) :
    parts true ts = .primitive .i32 :: parts false ts := by
  cases ts with
  | nil => simp [parts, signPart]
  | cons t ts =>
    have ht := h t rfl
    cases t <;> simp_all [parts, signPart, Token.isQualifier, Token.isName]

/-- No sign keyword waits at the end of `ts` for what the tokens `rest` begin with, or they begin with a
token that ends the waiting. -/
def Settled (pendingSign : Bool) (ts rest : List Token) : Prop :=
  (∀ b, parts b rest = signPart b ++ parts false rest) ∨
    (∀ t ∈ ts.getLast?, t.isQualifier = false) ∧ (ts = [] → pendingSign = false)

namespace Settled

variable {pendingSign : Bool} {ts rest : List Token}

theorem of_qualifier {q : Qualifier} (h : Settled pendingSign (.qualifier q :: ts) rest) :
    Settled (pendingSign || q.isSign) ts rest := by
  rcases h with hmark | ⟨hlast, -⟩
  · exact .inl hmark
  · cases ts with
    | nil => simp [Token.isQualifier] at hlast
    | cons t ts => exact .inr ⟨by simpa using hlast, by simp⟩

theorem of_suffix {ts' : List Token} (h : Settled pendingSign ts rest) (hsuffix : ts' <:+ ts) :
    Settled false ts' rest := by
  rcases h with hmark | ⟨hlast, -⟩
  · exact .inl hmark
  · refine .inr ⟨?_, fun _ => rfl⟩
    obtain ⟨before, rfl⟩ := hsuffix
    intro t ht
    exact hlast t (by simp [List.getLast?_append, Option.mem_def.mp ht])

theorem of_cons {t : Token} (h : Settled pendingSign (t :: ts) rest) : Settled false ts rest :=
  h.of_suffix (List.suffix_cons t ts)

end Settled

theorem parts_append {pendingSign : Bool} {ts rest : List Token}
    (hstop : ∀ p : Primitive, p.munch rest = (p, rest)) (h : Settled pendingSign ts rest) :
    parts pendingSign (ts ++ rest) = parts pendingSign ts ++ parts false rest := by
  fun_induction parts pendingSign ts with
  | case1 b =>
    rcases h with hmark | ⟨-, hb⟩
    · exact hmark b
    · rw [hb rfl]
      rfl
  | case2 b q ts ih => rw [List.cons_append, parts, ih h.of_qualifier]
  | case3 b word ts p hword ih =>
    have hrest : Settled false (p.munch ts).2 rest :=
      h.of_suffix ((p.munch_suffix ts).trans (List.suffix_cons _ _))
    simp only [List.cons_append, parts, hword, p.munch_append hstop, ih hrest]
  | case4 b word ts hword ih =>
    simp only [List.cons_append, parts, hword, ih h.of_cons]
  | case5 b count ts ih =>
    simp only [List.cons_append, parts, ih h.of_cons, List.append_assoc]
  | case6 b ts ih =>
    simp only [List.cons_append, parts, ih h.of_cons, List.append_assoc]
  | case7 b ts ih =>
    simp only [List.cons_append, parts, ih h.of_cons, List.append_assoc]
  | case8 b ts ih =>
    simp only [List.cons_append, parts, ih h.of_cons, List.append_assoc]

/-- A mark is read alike behind all tokens. -/
theorem parts_append_mark (pendingSign : Bool) (ts : List Token) {t : Token} (rest : List Token)
    (hqualifier : t.isQualifier = false) (hname : t.isName = false) :
    parts pendingSign (ts ++ t :: rest) = parts pendingSign ts ++ parts false (t :: rest) := by
  apply parts_append
  · intro p
    cases t <;> simp_all [Token.isQualifier, Token.isName, Primitive.munch]
  · left
    intro b
    cases t <;> simp_all [Token.isQualifier, Token.isName, parts, signPart]

/-- An aggregate is read alike behind all tokens that no qualifier ends. -/
theorem parts_append_aggregate {ts : List Token} (hlast : ∀ t ∈ ts.getLast?, t.isQualifier = false)
    {name : String} (hname : Primitive.ofWord? name = none) (rest : List Token) :
    parts false (ts ++ .name name :: rest) =
      parts false ts ++ .aggregate name :: parts false rest := by
  have hstop : ∀ p : Primitive, p.munch (.name name :: rest) = (p, .name name :: rest) := by
    intro p
    have hextend : p.extend? name = none := by
      cases h : p.extend? name with
      | none => rfl
      | some q => simpa [hname] using Primitive.isSome_ofWord?_of_extend? h
    simp only [Primitive.munch, hextend]
  rw [parts_append hstop (.inr ⟨hlast, fun _ => rfl⟩)]
  simp only [parts, hname]

end DecompConfig
