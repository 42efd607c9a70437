import DecompConfig.Aggregate
import DecompConfig.Proofs.Text.Blank

namespace DecompConfig

open Text

theorem isBrace_eq_false_iff {c : Char} : isBrace c = false ↔ c ≠ '{' ∧ c ≠ '}' := by
  simp [isBrace]

theorem isBrace_of_isBlank {c : Char} (h : isBlank c = true) : isBrace c = false := by
  rw [isBrace_eq_false_iff]
  constructor <;> rintro rfl <;> exact absurd h (by decide)

section Enclosed

variable {s head body tail : List Char}

/-- A text with a pair of braces. -/
def enclosed (head body tail : List Char) : List Char := head ++ '{' :: (body ++ '}' :: tail)

/-- `body` is what stands between the first opening brace of a text and its last closing brace. -/
structure Encloses (s head body tail : List Char) : Prop where
  eq : s = enclosed head body tail
  first : '{' ∉ head
  last : '}' ∉ tail

theorem Encloses.betweenBraces?_eq (h : Encloses s head body tail) :
    betweenBraces? s = some body := by
  have hlast : '}' ∉ tail.reverse := fun hmem => h.last (List.mem_reverse.mp hmem)
  have hclose : (body ++ '}' :: tail).reverse.dropWhile (· != '}') = '}' :: body.reverse := by
    rw [List.reverse_append, List.reverse_cons, List.append_assoc]
    exact dropWhile_bne_append_cons hlast _
  rw [betweenBraces?, h.eq, enclosed, dropWhile_bne_append_cons h.first]
  dsimp only
  rw [hclose]
  dsimp only
  rw [List.reverse_reverse]

/-- A text has an opening brace with a closing brace behind it, or nothing is read from it. -/
theorem encloses_or_betweenBraces?_eq_none (s : List Char) :
    (∃ head body tail, Encloses s head body tail) ∨ betweenBraces? s = none := by
  by_cases hopen : '{' ∈ s
  · obtain ⟨head, inner, rfl, hhead⟩ := List.eq_append_cons_of_mem hopen
    by_cases hclose : '}' ∈ inner.reverse
    · obtain ⟨tail, body, hsplit, htail⟩ := List.eq_append_cons_of_mem hclose
      have hinner : inner = body.reverse ++ '}' :: tail.reverse := by
        rw [← List.reverse_reverse inner, hsplit]
        simp
      have hlast : '}' ∉ tail.reverse := fun hmem => htail (List.mem_reverse.mp hmem)
      exact .inl ⟨head, body.reverse, tail.reverse, by rw [hinner, enclosed], hhead, hlast⟩
    · refine .inr ?_
      rw [betweenBraces?, dropWhile_bne_append_cons hhead]
      dsimp only
      rw [dropWhile_bne_of_not_mem hclose]
  · refine .inr ?_
    rw [betweenBraces?, dropWhile_bne_of_not_mem hopen]

theorem betweenBraces?_eq_some_iff :
    betweenBraces? s = some body ↔ ∃ head tail, Encloses s head body tail := by
  constructor
  · intro h
    rcases encloses_or_betweenBraces?_eq_none s with ⟨head, body', tail, hs⟩ | hnone
    · obtain rfl := Option.some.inj (hs.betweenBraces?_eq.symm.trans h)
      exact ⟨head, tail, hs⟩
    · rw [hnone] at h
      cases h
  · rintro ⟨head, tail, hs⟩
    exact hs.betweenBraces?_eq

end Enclosed

namespace Aggregate

variable {name text : String} {aggregate : Aggregate}

theorem ofText?_eq_some_iff : ofText? text = some aggregate ↔
    ∃ head body tail, Encloses text.toList head body tail ∧ (∀ c ∈ body, isBrace c = false) ∧
      aggregate = ⟨membersOf body⟩ := by
  rw [ofText?, Option.bind_eq_bind, Option.bind_eq_some_iff]
  constructor
  · rintro ⟨body, hbetween, h⟩
    obtain ⟨head, tail, hs⟩ := betweenBraces?_eq_some_iff.mp hbetween
    split at h
    · cases h
    next hany => exact ⟨head, body, tail, hs, by simpa using hany, (Option.some.inj h).symm⟩
  · rintro ⟨head, body, tail, hs, hbody, rfl⟩
    refine ⟨body, hs.betweenBraces?_eq, ?_⟩
    rw [if_neg (by simpa using hbody)]

theorem ofText?_of_encloses {s head body tail : List Char} (h : Encloses s head body tail)
    (hbody : ∀ c ∈ body, isBrace c = false) :
    ofText? (.ofList s) = some ⟨membersOf body⟩ := by
  rw [ofText?_eq_some_iff, String.toList_ofList]
  exact ⟨head, body, tail, h, hbody, rfl⟩

theorem parse_eq_ok_iff : parse name text = .ok aggregate ↔ ofText? text = some aggregate := by
  rw [parse]
  cases ofText? text <;> simp

theorem parse_eq_error {e : LoweringError} (h : parse name text = .error e) :
    e = .malformed name text := by
  rw [parse] at h
  split at h
  · cases h
  · exact (Except.error.inj h).symm

section Members

theorem mem_of_mem_membersOf {body : List Char} {member : String} (h : member ∈ membersOf body)
    {c : Char} (hc : c ∈ member.toList) : c ∈ body := by
  obtain ⟨piece, hpiece, rfl⟩ := List.mem_map.mp h
  obtain ⟨raw, hraw, rfl⟩ := List.mem_map.mp (List.mem_filter.mp hpiece).1
  have htrimmed : c ∈ trim raw := by simpa using hc
  exact (mem_of_mem_pieces hraw (mem_of_mem_trim htrimmed)).1

theorem membersOf_append_semicolon (s t : List Char) :
    membersOf (s ++ ';' :: t) = membersOf s ++ membersOf t := by
  have hpieces : pieces (· == ';') (s ++ ';' :: t) = pieces (· == ';') s ++ pieces (· == ';') t :=
    pieces_append_cut (by decide) s t
  rw [membersOf, hpieces, List.map_append, List.filter_append, List.map_append]
  rfl

theorem membersOf_of_not_mem {s : List Char} (h : ';' ∉ s) :
    membersOf s = if trim s = [] then [] else [.ofList (trim s)] := by
  have huncut : ∀ c ∈ s, (c == ';') = false := by
    intro c hc
    rw [beq_eq_false_iff_ne]
    rintro rfl
    exact h hc
  rw [membersOf, pieces_of_uncut huncut]
  split <;> simp_all

theorem not_mem_of_blank {s : List Char} (h : ∀ c ∈ s, isBlank c = true) : ';' ∉ s :=
  not_mem_of_forall_eq (by decide) h

end Members

/-- A member that semicolons can stand around. -/
structure IsPlainMember (member : String) : Prop where
  ne_empty : member ≠ ""
  trimmed : trim member.toList = member.toList
  no_semicolon : ';' ∉ member.toList
  braceless : ∀ c ∈ member.toList, isBrace c = false

instance : DecidablePred IsPlainMember := fun member =>
  have := List.decidableBAll (isBrace · = false) member.toList
  decidable_of_iff (member ≠ "" ∧ trim member.toList = member.toList ∧ ';' ∉ member.toList ∧
      ∀ c ∈ member.toList, isBrace c = false)
    ⟨fun ⟨hne, htrim, hsemicolon, hbrace⟩ => ⟨hne, htrim, hsemicolon, hbrace⟩,
      fun h => ⟨h.ne_empty, h.trimmed, h.no_semicolon, h.braceless⟩⟩

/-- What may stand between two semicolons: at most one member, with blanks around it. -/
inductive MemberSlot : (members : List String) → (slot : List Char) → Prop where
  | blank {blanks} : (∀ c ∈ blanks, isBlank c = true) → MemberSlot [] blanks
  | member {before member after} : (∀ c ∈ before, isBlank c = true) → IsPlainMember member →
      (∀ c ∈ after, isBlank c = true) → MemberSlot [member] (before ++ member.toList ++ after)

namespace MemberSlot

variable {members : List String} {slot : List Char}

theorem no_semicolon (h : MemberSlot members slot) : ';' ∉ slot := by
  cases h with
  | blank hblank => exact not_mem_of_blank hblank
  | member hbefore hmember hafter =>
    rw [List.mem_append, List.mem_append, not_or, not_or]
    exact ⟨⟨not_mem_of_blank hbefore, hmember.no_semicolon⟩, not_mem_of_blank hafter⟩

theorem braceless (h : MemberSlot members slot) : ∀ c ∈ slot, isBrace c = false := by
  cases h with
  | blank hblank => exact fun c hc => isBrace_of_isBlank (hblank c hc)
  | member hbefore hmember hafter =>
    rw [List.forall_mem_append, List.forall_mem_append]
    exact ⟨⟨fun c hc => isBrace_of_isBlank (hbefore c hc), hmember.braceless⟩,
      fun c hc => isBrace_of_isBlank (hafter c hc)⟩

theorem membersOf_eq (h : MemberSlot members slot) : membersOf slot = members := by
  rw [membersOf_of_not_mem h.no_semicolon]
  cases h with
  | blank hblank => rw [if_pos (trim_of_blank hblank)]
  | member hbefore hmember hafter =>
    have hne : ∀ member : String, IsPlainMember member → member.toList ≠ [] := fun member h => by
      simpa using h.ne_empty
    rw [trim_between hbefore hafter hmember.trimmed, if_neg (hne _ hmember), String.ofList_toList]

theorem of_no_semicolon (hsemicolon : ';' ∉ slot) (hbrace : ∀ c ∈ slot, isBrace c = false) :
    MemberSlot (Aggregate.membersOf slot) slot := by
  obtain ⟨before, after, hslot, hbefore, hafter⟩ := exists_trim_between slot
  rw [membersOf_of_not_mem hsemicolon]
  split
  next hnil =>
    rw [hslot, hnil, List.append_nil]
    exact .blank (List.forall_mem_append.mpr ⟨hbefore, hafter⟩)
  next hne =>
    have hmember : IsPlainMember (.ofList (trim slot)) := by
      constructor
      · simpa using hne
      · rw [String.toList_ofList, trim_trim]
      · rw [String.toList_ofList]
        exact fun hmem => hsemicolon (mem_of_mem_trim hmem)
      · rw [String.toList_ofList]
        exact fun c hc => hbrace c (mem_of_mem_trim hc)
    have hslot' := MemberSlot.member hbefore hmember hafter
    rwa [String.toList_ofList, ← hslot] at hslot'

end MemberSlot

/-- How members are written between braces: semicolons separate them, more semicolons do no harm, and
the last one is optional. -/
inductive MemberList : (members : List String) → (body : List Char) → Prop where
  | slot {members slot} : MemberSlot members slot → MemberList members slot
  | semicolon {members more slot body} : MemberSlot members slot → MemberList more body →
      MemberList (members ++ more) (slot ++ ';' :: body)

namespace MemberList

variable {members : List String} {body : List Char}

theorem membersOf_eq (h : MemberList members body) : membersOf body = members := by
  induction h with
  | slot hslot => exact hslot.membersOf_eq
  | semicolon hslot _ ih => rw [membersOf_append_semicolon, hslot.membersOf_eq, ih]

theorem braceless (h : MemberList members body) : ∀ c ∈ body, isBrace c = false := by
  induction h with
  | slot hslot => exact hslot.braceless
  | semicolon hslot _ ih =>
    rw [List.forall_mem_append, List.forall_mem_cons]
    exact ⟨hslot.braceless, rfl, ih⟩

theorem plain (h : MemberList members body) : ∀ member ∈ members, IsPlainMember member := by
  have hslots : ∀ {members slot}, MemberSlot members slot → ∀ m ∈ members, IsPlainMember m := by
    intro members slot hslot
    cases hslot with
    | blank => exact nofun
    | member _ hmember _ => simpa using hmember
  induction h with
  | slot hslot => exact hslots hslot
  | semicolon hslot _ ih => exact List.forall_mem_append.mpr ⟨hslots hslot, ih⟩

/-- Every text without braces is a list of members. -/
theorem of_braceless (body : List Char) (h : ∀ c ∈ body, isBrace c = false) :
    MemberList (Aggregate.membersOf body) body := by
  by_cases hmem : ';' ∈ body
  · obtain ⟨slot, rest, hsplit, hslot⟩ := List.eq_append_cons_of_mem hmem
    rw [hsplit] at h ⊢
    have : rest.length < body.length := by
      rw [hsplit, List.length_append, List.length_cons]
      omega
    obtain ⟨hfirst, hrest⟩ := List.forall_mem_append.mp h
    rw [membersOf_append_semicolon]
    exact .semicolon (.of_no_semicolon hslot hfirst)
      (of_braceless rest fun c hc => hrest c (List.mem_cons_of_mem _ hc))
  · exact .slot (.of_no_semicolon hmem h)
termination_by body.length

end MemberList

theorem parse_eq_ok_of_encloses {head body tail : List Char}
    (h : Encloses text.toList head body tail) (hbody : ∀ c ∈ body, isBrace c = false) :
    parse name text = .ok ⟨membersOf body⟩ := by
  rw [parse_eq_ok_iff, ← ofText?_of_encloses h hbody, String.ofList_toList]

theorem parse_eq_ok_iff_memberList {members : List String} : parse name text = .ok ⟨members⟩ ↔
    ∃ head body tail, Encloses text.toList head body tail ∧ MemberList members body := by
  constructor
  · intro h
    obtain ⟨head, body, tail, hs, hbody, heq⟩ := ofText?_eq_some_iff.mp (parse_eq_ok_iff.mp h)
    obtain rfl : members = membersOf body := congrArg Aggregate.members heq
    exact ⟨head, body, tail, hs, .of_braceless body hbody⟩
  · rintro ⟨head, body, tail, hs, hlist⟩
    rw [parse_eq_ok_of_encloses hs hlist.braceless, hlist.membersOf_eq]

/-- A definition is read if there is no brace between its first opening brace and its last closing
brace. Its members are what the semicolons separate there, without the blanks around them. They come
back however they were written between the braces, and any other text is malformed. -/
theorem parse_exact (name text : String) :
    ((∃ aggregate, parse name text = .ok aggregate) ↔
      ∃ head body tail, Encloses text.toList head body tail ∧ ∀ c ∈ body, isBrace c = false) ∧
    (∀ head body tail, Encloses text.toList head body tail → (∀ c ∈ body, isBrace c = false) →
      parse name text =
        .ok ⟨(((body.splitOn ';').map trim).filter (!·.isEmpty)).map String.ofList⟩) ∧
    (∀ members, parse name text = .ok ⟨members⟩ ↔
      ∃ head body tail, Encloses text.toList head body tail ∧ MemberList members body) ∧
    (∀ aggregate, parse name text = .ok aggregate →
      ∀ member ∈ aggregate.members, IsPlainMember member) ∧
    ∀ e, parse name text = .error e → e = .malformed name text := by
  refine ⟨⟨?_, ?_⟩, ?_, fun members => parse_eq_ok_iff_memberList, ?_, fun e => parse_eq_error⟩
  · rintro ⟨aggregate, h⟩
    obtain ⟨head, body, tail, hs, hbody, -⟩ := ofText?_eq_some_iff.mp (parse_eq_ok_iff.mp h)
    exact ⟨head, body, tail, hs, hbody⟩
  · rintro ⟨head, body, tail, hs, hbody⟩
    exact ⟨_, parse_eq_ok_of_encloses hs hbody⟩
  · intro head body tail hs hbody
    rw [parse_eq_ok_of_encloses hs hbody, membersOf, pieces_beq]
  · intro aggregate h
    obtain ⟨head, body, tail, -, hlist⟩ := parse_eq_ok_iff_memberList.mp h
    exact hlist.plain

/-- Other braces in front and behind, a blank member and no semicolon after the last one; and a text
with two definitions. -/
theorem parse_exact_pair :
    let text := "\x7d p \x7b int x ;; char *s\n\x7d \x7b"
    let twice := "p \x7bint x;\x7d q \x7b\x7d"
    parse "p" text = .ok ⟨["int x", "char *s"]⟩ ∧ parse "p" twice = .error (.malformed "p" twice) := by
  intro text twice
  constructor
  · have hspace : ∀ c ∈ [' '], isBlank c = true := List.all_eq_true.mp (by decide)
    have hend : ∀ c ∈ ['\n'], isBlank c = true := List.all_eq_true.mp (by decide)
    have hlist : MemberList ["int x", "char *s"] " int x ;; char *s\n".toList :=
      .semicolon (.member hspace (by decide) hspace)
        (.semicolon (.blank (List.forall_mem_nil _)) (.slot (.member hspace (by decide) hend)))
    obtain ⟨-, -, hread, -⟩ := parse_exact "p" text
    have hbraces : Encloses text.toList "\x7d p ".toList " int x ;; char *s\n".toList " \x7b".toList :=
      ⟨by decide, by decide, by decide⟩
    exact (hread _).mpr ⟨_, _, _, hbraces, hlist⟩
  · obtain ⟨-, -, -, -, herror⟩ := parse_exact "p" twice
    have hnone : ofText? twice = none := by decide +kernel
    cases h : parse "p" twice with
    | ok aggregate =>
      rw [parse_eq_ok_iff, hnone] at h
      cases h
    | error e => rw [herror e h]

end Aggregate

end DecompConfig
