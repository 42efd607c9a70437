import DecompConfig.Proofs.Lowering.Expansion
import DecompConfig.Proofs.Lowering.Qualifier

namespace DecompConfig

/-- The words among the tokens. -/
def Token.names (ts : List Token) : List String :=
  ts.filterMap fun
    | .name word => some word
    | _ => none

section Names

variable {ts us : List Token}

@[simp] theorem Token.names_append : names (ts ++ us) = names ts ++ names us :=
  List.filterMap_append

theorem Token.names_ne_nil_of_mem {t : Token} (ht : t ∈ ts) (hname : t.isName = true) :
    names ts ≠ [] := by
  cases t with
  | name word => exact List.ne_nil_of_mem (List.mem_filterMap.mpr ⟨_, ht, rfl⟩)
  | _ => cases hname

end Names

namespace Primitive

variable {p q : Primitive} {word : String} {words run rest : List String} {ts : List Token}

theorem extend?_eq_some_iff : p.extend? word = some q ↔
    p = i64 ∧ (word = "long" ∨ word = "int") ∧ q = i64 ∨ p = i16 ∧ word = "int" ∧ q = i16 ∨
      p = i64 ∧ word = "double" ∧ q = double := by
  constructor
  · intro h
    unfold extend? at h
    split at h
    all_goals simp_all
  · rintro (⟨rfl, rfl | rfl, rfl⟩ | ⟨rfl, rfl, rfl⟩ | ⟨rfl, rfl, rfl⟩)
    all_goals rfl

section Munch

/-- The tokens do not begin with one that continues a spelling of `p`. -/
def Stops (p : Primitive) (ts : List Token) : Prop :=
  ∀ t ∈ ts.head?, t.isQualifier = false ∧ ∀ word, t = .name word → p.extend? word = none

theorem continues_iff {run : List Token} : p.Continues run q ↔
    (∀ t ∈ run, t.isQualifier = true ∨ t.isName = true) ∧
      (Token.names run).foldlM extend? p = some q := by
  constructor
  · intro h
    induction h with
    | done p => exact ⟨nofun, rfl⟩
    | qualifier k _ ih => exact ⟨List.forall_mem_cons.mpr ⟨.inl rfl, ih.1⟩, ih.2⟩
    | word hword _ ih =>
      refine ⟨List.forall_mem_cons.mpr ⟨.inr rfl, ih.1⟩, ?_⟩
      exact Option.bind_eq_some_iff.mpr ⟨_, hword, ih.2⟩
  · rintro ⟨hrun, hfold⟩
    induction run generalizing p with
    | nil =>
      obtain rfl : p = q := Option.some.inj hfold
      exact .done p
    | cons t run ih =>
      obtain ⟨ht, hrest⟩ := List.forall_mem_cons.mp hrun
      cases t with
      | qualifier k => exact .qualifier k (ih hrest hfold)
      | name word =>
        obtain ⟨p', hword, hfold⟩ := Option.bind_eq_some_iff.mp hfold
        exact .word hword (ih hrest hfold)
      | _ => simp [Token.isQualifier, Token.isName] at ht

theorem stops_munch (p : Primitive) (ts : List Token) : (p.munch ts).1.Stops (p.munch ts).2 := by
  fun_induction munch p ts with
  | case1 p k ts ih => exact ih
  | case2 p word ts q hword ih => exact ih
  | case3 p word ts hword =>
    intro t ht
    obtain rfl : .name word = t := Option.some.inj ht
    refine ⟨rfl, ?_⟩
    rintro _ ⟨⟩
    exact hword
  | case4 p ts hqualifier hname =>
    intro t ht
    obtain ⟨us, rfl⟩ := List.head?_eq_some_iff.mp ht
    cases t with
    | qualifier k => exact absurd rfl (hqualifier k us)
    | name word => exact absurd rfl (hname word us)
    | _ => simp [Token.isQualifier]

/-- The front of the tokens that is munched is the longest that consists of qualifiers and of words
which, one after the other, continue the spelling. -/
theorem munch_exact (p : Primitive) (ts : List Token) : ∃ run, run ++ (p.munch ts).2 = ts ∧
    (∀ t ∈ run, t.isQualifier = true ∨ t.isName = true) ∧
    (Token.names run).foldlM extend? p = some (p.munch ts).1 ∧
    (∀ run', run' <+: ts → (∀ t ∈ run', t.isQualifier = true ∨ t.isName = true) →
      ((Token.names run').foldlM extend? p).isSome → run' <+: run) ∧
    (p.munch ts).1.Stops (p.munch ts).2 := by
  obtain ⟨run, happ, hrun, hlongest⟩ := exists_longest_munch p ts
  obtain ⟨hwords, hfold⟩ := continues_iff.mp hrun
  refine ⟨run, happ, hwords, hfold, ?_, p.stops_munch ts⟩
  intro run' hprefix hwords' hfold'
  obtain ⟨q, hq⟩ := Option.isSome_iff_exists.mp hfold'
  have hle := hlongest run' q (happ.symm ▸ hprefix) (continues_iff.mpr ⟨hwords', hq⟩)
  exact List.prefix_of_prefix_length_le hprefix ⟨_, happ⟩ hle

end Munch

section Spelling

/-- The words that spell a primitive together. -/
inductive Spells : List String → Primitive → Prop where
  | alone {word : String} {p : Primitive} : ofWord? word = some p → Spells [word] p
  | short {word : String} {run : List String} : ofWord? word = some i16 →
      (∀ w ∈ run, w = "int") → Spells (word :: run) i16
  | long {word : String} {run : List String} : ofWord? word = some i64 →
      (∀ w ∈ run, w = "long" ∨ w = "int") → Spells (word :: run) i64
  | longDouble {word : String} {run : List String} : ofWord? word = some i64 →
      (∀ w ∈ run, w = "long" ∨ w = "int") → Spells (word :: (run ++ ["double"])) double

theorem Spells.concat (h : Spells words p) (hextend : p.extend? word = some q) :
    Spells (words ++ [word]) q := by
  rcases extend?_eq_some_iff.mp hextend with ⟨rfl, hword, rfl⟩ | ⟨rfl, hword, rfl⟩ | ⟨rfl, rfl, rfl⟩
  · cases h with
    | alone hfirst => exact .long hfirst (by simpa using hword)
    | long hfirst hrun =>
      exact .long hfirst (List.forall_mem_append.mpr ⟨hrun, by simpa using hword⟩)
  · cases h with
    | alone hfirst => exact .short hfirst (by simpa using hword)
    | short hfirst hrun =>
      exact .short hfirst (List.forall_mem_append.mpr ⟨hrun, by simpa using hword⟩)
  · cases h with
    | alone hfirst => exact .longDouble hfirst (List.forall_mem_nil _)
    | long hfirst hrun => exact .longDouble hfirst hrun

theorem Spells.append (h : Spells words p) (hrun : run.foldlM extend? p = some q) :
    Spells (words ++ run) q := by
  induction run generalizing words p with
  | nil =>
    obtain rfl : p = q := Option.some.inj hrun
    rwa [List.append_nil]
  | cons word run ih =>
    obtain ⟨p', hword, hrun⟩ := Option.bind_eq_some_iff.mp hrun
    rw [List.append_cons]
    exact ih (h.concat hword) hrun

theorem foldlM_extend?_of_forall (h : ∀ word ∈ run, p.extend? word = some p) :
    run.foldlM extend? p = some p := by
  induction run with
  | nil => rfl
  | cons word run ih =>
    obtain ⟨hword, hrun⟩ := List.forall_mem_cons.mp h
    exact Option.bind_eq_some_iff.mpr ⟨p, hword, ih hrun⟩

/-- Words that spell a primitive are one that names a primitive and a run that continues it. -/
theorem spells_iff : Spells words q ↔ ∃ word p run, words = word :: run ∧
    ofWord? word = some p ∧ run.foldlM extend? p = some q := by
  constructor
  · have hlong {run : List String} (h : ∀ w ∈ run, w = "long" ∨ w = "int") :
        run.foldlM extend? i64 = some i64 := by
      refine foldlM_extend?_of_forall fun w hw => ?_
      exact extend?_eq_some_iff.mpr (.inl ⟨rfl, h w hw, rfl⟩)
    intro h
    cases h with
    | alone hword => exact ⟨_, _, [], rfl, hword, rfl⟩
    | short hword hrun =>
      refine ⟨_, _, _, rfl, hword, foldlM_extend?_of_forall fun w hw => ?_⟩
      exact extend?_eq_some_iff.mpr (.inr (.inl ⟨rfl, hrun w hw, rfl⟩))
    | long hword hrun => exact ⟨_, _, _, rfl, hword, hlong hrun⟩
    | longDouble hword hrun =>
      refine ⟨_, _, _, rfl, hword, ?_⟩
      rw [List.foldlM_append, hlong hrun]
      rfl
  · rintro ⟨word, p, run, rfl, hword, hrun⟩
    exact (Spells.alone hword).append hrun

theorem Spells.ne_nil (h : Spells words p) : words ≠ [] := by
  cases h <;> simp

theorem Spells.unique (h : Spells words p) (h' : Spells words q) : p = q := by
  obtain ⟨word, r, run, rfl, hword, hrun⟩ := spells_iff.mp h
  obtain ⟨word', r', run', heq, hword', hrun'⟩ := spells_iff.mp h'
  obtain ⟨rfl, rfl⟩ := List.cons_eq_cons.mp heq
  obtain rfl := Option.some.inj (hword.symm.trans hword')
  exact Option.some.inj (hrun.symm.trans hrun')

/-- The words of a spelling that nothing continues are the longest spelling at their place. -/
theorem Spells.prefix_of_stops (hword : ofWord? word = some p) (hrun : run.foldlM extend? p = some q)
    (hstop : ∀ w ∈ rest.head?, q.extend? w = none) {r : Primitive}
    (hstart : words <+: word :: (run ++ rest)) (h : Spells words r) : words <+: word :: run := by
  obtain ⟨word', p', run', rfl, hword', hrun'⟩ := spells_iff.mp h
  obtain ⟨rfl, hfront⟩ := List.cons_prefix_cons.mp hstart
  obtain rfl := Option.some.inj (hword.symm.trans hword')
  refine List.cons_prefix_cons.mpr ⟨rfl, ?_⟩
  rcases List.prefix_or_prefix_of_prefix hfront (List.prefix_append run rest) with h | ⟨more, rfl⟩
  · exact h
  · rw [List.foldlM_append, hrun] at hrun'
    have hmore := (List.prefix_append_right_inj run).mp hfront
    have hfold : more.foldlM extend? q = some r := hrun'
    cases more with
    | nil => simp
    | cons w more =>
      obtain ⟨rest, rfl⟩ := hmore
      obtain ⟨r', hw, -⟩ := Option.bind_eq_some_iff.mp hfold
      rw [hstop w rfl] at hw
      cases hw

/-- The words are divided, from the left to the right, into spellings, each the longest at its place. -/
inductive Segmented : List String → List (List String × Primitive) → Prop where
  | nil : Segmented [] []
  | cons {first rest : List String} {p : Primitive} {segments : List (List String × Primitive)} :
      Spells first p →
      (∀ longer q, longer <+: first ++ rest → Spells longer q → longer <+: first) →
      Segmented rest segments → Segmented (first ++ rest) ((first, p) :: segments)

theorem Segmented.cons_of_stops {segments : List (List String × Primitive)}
    (hword : ofWord? word = some p) (hrun : run.foldlM extend? p = some q)
    (hstop : ∀ w ∈ rest.head?, q.extend? w = none) (h : Segmented rest segments) :
    Segmented (word :: (run ++ rest)) ((word :: run, q) :: segments) := by
  have hfirst : Spells (word :: run) q := spells_iff.mpr ⟨_, _, _, rfl, hword, hrun⟩
  exact .cons hfirst (fun longer r => Spells.prefix_of_stops hword hrun hstop) h

theorem Segmented.unique {segments others : List (List String × Primitive)}
    (h : Segmented words segments) (h' : Segmented words others) : segments = others := by
  induction h generalizing others with
  | nil =>
    generalize hwords : [] = words at h'
    cases h' with
    | nil => rfl
    | cons hfirst => exact absurd (List.append_eq_nil_iff.mp hwords.symm).1 hfirst.ne_nil
  | @cons first rest p segments hfirst hlongest _ ih =>
    generalize hwords : first ++ rest = words at h'
    cases h' with
    | nil => exact absurd (List.append_eq_nil_iff.mp hwords).1 hfirst.ne_nil
    | @cons first' rest' p' others hfirst' hlongest' hrest' =>
      have hshort : first' <+: first := hlongest first' p' (hwords ▸ List.prefix_append _ _) hfirst'
      have hlong : first <+: first' := hlongest' first p (hwords ▸ List.prefix_append _ _) hfirst
      obtain rfl := hlong.eq_of_length_le hshort.length_le
      obtain rfl := List.append_cancel_left hwords
      rw [hfirst.unique hfirst', ih hrest']

end Spelling

end Primitive

section Parts

open Primitive

variable {p : Primitive} {pendingSign : Bool} {ts : List Token}

/-- Among primitives and qualifiers a spelling stops only at a word that does not continue it. -/
theorem Primitive.Stops.cases (h : p.Stops ts)
    (hts : ∀ t ∈ ts, t.isQualifier = true ∨ t.isPrimitive = true) :
    ts = [] ∨ ∃ word rest, ts = .name word :: rest ∧ p.extend? word = none := by
  cases ts with
  | nil => exact .inl rfl
  | cons t rest =>
    obtain ⟨hqualifier, hextend⟩ := h t rfl
    have ht := (List.forall_mem_cons.mp hts).1
    cases t with
    | name word => exact .inr ⟨word, rest, rfl, hextend word rfl⟩
    | _ => simp [Token.isQualifier, Token.isPrimitive] at ht hqualifier

/-- Primitives and qualifiers are read as the segments of their words. A sign keyword waits in vain only
where no word follows it: behind a word the qualifiers are munched. -/
theorem exists_segmented (hts : ∀ t ∈ ts, t.isQualifier = true ∨ t.isPrimitive = true)
    (hnames : Token.names ts = [] → ts = [] ∧ pendingSign = false) :
    ∃ segments, Segmented (Token.names ts) segments ∧
      parts pendingSign ts = segments.map fun segment => .primitive segment.2 := by
  fun_induction parts pendingSign ts with
  | case1 b =>
    obtain ⟨-, rfl⟩ := hnames rfl
    exact ⟨[], .nil, rfl⟩
  | case2 b k ts ih =>
    exact ih (List.forall_mem_cons.mp hts).2 fun h => absurd (hnames h).1 (List.cons_ne_nil _ _)
  | case3 b word ts p hword ih =>
    obtain ⟨run, happ, -, hrun, -, hstops⟩ := p.munch_exact ts
    generalize (p.munch ts).1 = q at hrun hstops ⊢
    generalize (p.munch ts).2 = rest at happ hstops ih ⊢
    subst happ
    have hrest : ∀ t ∈ rest, t.isQualifier = true ∨ t.isPrimitive = true := fun t ht =>
      hts t (List.mem_cons_of_mem _ (List.mem_append_right run ht))
    have hcases := hstops.cases hrest
    have hnil : Token.names rest = [] → rest = [] ∧ false = false := by
      intro h
      rcases hcases with rfl | ⟨next, after, rfl, -⟩
      · exact ⟨rfl, rfl⟩
      · cases h
    have hstop : ∀ w ∈ (Token.names rest).head?, q.extend? w = none := by
      intro w hw
      rcases hcases with rfl | ⟨next, after, rfl, hnext⟩
      · cases hw
      · obtain rfl : next = w := Option.some.inj hw
        exact hnext
    obtain ⟨segments, hsegments, hparts⟩ := ih hrest hnil
    refine ⟨(word :: Token.names run, q) :: segments, ?_, by rw [hparts]; rfl⟩
    have hwords : Token.names (.name word :: (run ++ rest)) =
        word :: (Token.names run ++ Token.names rest) := congrArg (word :: ·) Token.names_append
    rw [hwords]
    exact hsegments.cons_of_stops hword hrun hstop
  | case4 b word ts hword ih =>
    have hprimitive := (List.forall_mem_cons.mp hts).1
    simp [Token.isQualifier, Token.isPrimitive, hword] at hprimitive
  | _ => simp [Token.isQualifier, Token.isPrimitive] at hts

end Parts

namespace Lowering

open Primitive

variable {σ : Type}

theorem lowerParts_map_primitive (expand : String → Run σ LoweringError String)
    (ps : List Primitive) :
    lowerParts expand (ps.map .primitive) = pure (String.join (ps.map code)) := by
  induction ps with
  | nil => rfl
  | cons p ps ih =>
    rw [List.map_cons, lowerParts_cons, ih]
    simp only [lowerPart, pure_bind, List.map_cons, String.join_cons]

/-- A spelling of more than one word takes the longest front of the tokens that continues it and leaves
the others alone. So primitives and qualifiers are lowered without a question to the codes of the only
division of their words into longest spellings, if there is a word at all: `long` and the other words
for `i64` go on with any `long` and `int` and then with at most one `double`, those for `i16` go on with
any `int`, and others stand alone. -/
theorem lowerTokens_segmented :
    (∀ (p : Primitive) ts, ∃ run q rest, p.munch ts = (q, rest) ∧ run ++ rest = ts ∧
      (∀ t ∈ run, t.isQualifier = true ∨ t.isName = true) ∧
      (Token.names run).foldlM extend? p = some q ∧
      (∀ run', run' <+: ts → (∀ t ∈ run', t.isQualifier = true ∨ t.isName = true) →
        ((Token.names run').foldlM extend? p).isSome → run' <+: run) ∧
      ∀ t ∈ rest.head?, t.isQualifier = false ∧ ∀ word, t = .name word → q.extend? word = none) ∧
    ∀ ts, (∀ t ∈ ts, t.isQualifier = true ∨ t.isPrimitive = true) → (∃ t ∈ ts, t.isName = true) →
      ∃ segments, Segmented (Token.names ts) segments ∧
        (∀ others, Segmented (Token.names ts) others → others = segments) ∧
        ∀ (σ : Type) (oracle : Oracle σ) depth s, lowerTokens oracle depth ts s =
          ⟨.ok (String.join (segments.map fun segment => segment.2.code)), s, []⟩ := by
  constructor
  · intro p ts
    obtain ⟨run, hmunch⟩ := p.munch_exact ts
    exact ⟨run, _, _, rfl, hmunch⟩
  · rintro ts hts ⟨t, ht, hname⟩
    have hnames : Token.names ts = [] → ts = [] ∧ false = false := fun h =>
      absurd h (Token.names_ne_nil_of_mem ht hname)
    obtain ⟨segments, hsegments, hparts⟩ := exists_segmented hts hnames
    refine ⟨segments, hsegments, fun others h => h.unique hsegments, ?_⟩
    intro σ oracle depth s
    have hlower := lowerParts_map_primitive (expand oracle depth depth []) (segments.map Prod.snd)
    rw [List.map_map, List.map_map] at hlower
    rw [lowerTokens, hparts]
    exact congrFun hlower s

/-- Qualifiers in all places, a word that begins anew behind `double`, one that names a primitive but
continues none, and a sign keyword at the end. -/
theorem lowerTokens_segmented_mixed :
    let ts := [Token.qualifier .unsigned, .name "size_t", .qualifier .const, .name "long",
      .qualifier .signed, .name "int", .name "double", .name "double", .qualifier .unsigned,
      .name "short", .qualifier .struct, .name "int", .name "long", .name "int64_t",
      .qualifier .signed]
    (∀ t ∈ ts, t.isQualifier = true ∨ t.isPrimitive = true) ∧ (∃ t ∈ ts, t.isName = true) ∧
    ∃ segments, Segmented (Token.names ts) segments ∧
      String.join (segments.map fun segment => segment.2.code) = "doubledoublei16i64i64" := by
  intro ts
  have hts : ∀ t ∈ ts, t.isQualifier = true ∨ t.isPrimitive = true := by decide
  have hname : ∃ t ∈ ts, t.isName = true := by decide
  obtain ⟨segments, hsegments, -, hlower⟩ := lowerTokens_segmented.2 ts hts hname
  have hvalue : (lowerTokens hollow 0 ts ()).value? = some "doubledoublei16i64i64" := by
    decide +kernel
  rw [hlower] at hvalue
  exact ⟨hts, hname, segments, hsegments, Option.some.inj hvalue⟩

end Lowering

end DecompConfig
