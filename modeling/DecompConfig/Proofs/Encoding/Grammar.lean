import DecompConfig.Proofs.Encoding.Layout
import DecompConfig.Proofs.Lowering.Unfolding

namespace DecompConfig.Encoding

/-- The texts that encodings are made of. -/
def symbols : List String :=
  ["void", "i8", "i16", "i32", "i64", "float", "double", "*", "\x7b", "\x7d", ","]

theorem text_stars_succ (count : Nat) :
    (Token.stars (count + 1)).text = "*" ++ (Token.stars count).text := by
  apply String.toList_inj.mp
  simp [Token.text, List.replicate_succ]

/-- The text is a sequence of symbols. -/
def Spelled (text : String) : Prop :=
  ∃ pieces : List String, (∀ piece ∈ pieces, piece ∈ symbols) ∧ text = String.join pieces

namespace Spelled

variable {text more : String}

theorem empty : Spelled "" := ⟨[], by simp, rfl⟩

theorem of_mem (h : text ∈ symbols) : Spelled text := ⟨[text], by simpa using h, by simp⟩

theorem append (h : Spelled text) (hmore : Spelled more) : Spelled (text ++ more) := by
  obtain ⟨pieces, hpieces, rfl⟩ := h
  obtain ⟨others, hothers, rfl⟩ := hmore
  refine ⟨pieces ++ others, ?_, String.join_append.symm⟩
  intro piece hpiece
  exact (List.mem_append.mp hpiece).elim (hpieces piece) (hothers piece)

theorem code (p : Primitive) : Spelled p.code := of_mem (by cases p <;> decide)

theorem stars (count : Nat) : Spelled (Token.stars count).text := by
  induction count with
  | zero => exact empty
  | succ count ih =>
    have hfirst : Spelled "*" := of_mem (by decide)
    rw [text_stars_succ]
    exact hfirst.append ih

theorem commaSeparated {texts : List String} (h : ∀ text ∈ texts, Spelled text) :
    Spelled (DecompConfig.commaSeparated texts) := by
  fun_induction DecompConfig.commaSeparated texts with
  | case1 => exact empty
  | case2 text => exact h text List.mem_cons_self
  | case3 first second rest ih =>
    have hcomma : Spelled "," := of_mem (by decide)
    have hrest := ih fun text htext => h text (List.mem_cons_of_mem _ htext)
    exact ((h first List.mem_cons_self).append hcomma).append hrest

theorem braced {texts : List String} (h : ∀ text ∈ texts, Spelled text) :
    Spelled (DecompConfig.braced texts) := by
  have hopen : Spelled "\x7b" := of_mem (by decide)
  have hclose : Spelled "\x7d" := of_mem (by decide)
  exact (hopen.append (commaSeparated h)).append hclose

/-- No symbol has a blank. -/
theorem not_isBlank (h : Spelled text) {c : Char} (hc : c ∈ text.toList) : Text.isBlank c = false := by
  obtain ⟨pieces, hpieces, rfl⟩ := h
  have hsymbols : (symbols.all fun symbol => symbol.toList.all fun c => !Text.isBlank c) = true := by
    decide
  simp only [List.all_eq_true, Bool.not_eq_true'] at hsymbols
  induction pieces with
  | nil => simp at hc
  | cons piece pieces ih =>
    rw [String.join_cons, String.toList_append] at hc
    rcases List.mem_append.mp hc with hc | hc
    · exact hsymbols piece (hpieces piece List.mem_cons_self) c hc
    · exact ih (fun piece h => hpieces piece (List.mem_cons_of_mem _ h)) hc

end Spelled

/-- A member between the commas of a group, with the numbers of members of the groups in it. -/
structure Member where
  text : String
  groups : List Nat

/-- The grammar of encodings: `groups` tells the number of members of each group, in the order of the
opening braces, and `height` bounds how deeply groups may be nested. -/
inductive Sentence : (height : Nat) → (groups : List Nat) → String → Prop where
  | empty {height} : Sentence height [] ""
  | code {height groups text} (p : Primitive) : Sentence height groups text →
      Sentence height groups (p.code ++ text)
  | star {height groups text} : Sentence height groups text → Sentence height groups ("*" ++ text)
  | group {height groups text} {members : List Member} :
      (∀ m ∈ members, Sentence height m.groups m.text) → Sentence (height + 1) groups text →
      Sentence (height + 1) (members.length :: members.flatMap (·.groups) ++ groups)
        ("\x7b" ++ ",".intercalate (members.map (·.text)) ++ "\x7d" ++ text)

namespace Sentence

variable {height : Nat} {groups more : List Nat} {text rest : String}

theorem append (h : Sentence height groups text) (hrest : Sentence height more rest) :
    Sentence height (groups ++ more) (text ++ rest) := by
  induction h with
  | empty => simpa using hrest
  | code p _ ih => simpa [String.append_assoc] using (ih hrest).code p
  | star _ ih => simpa [String.append_assoc] using (ih hrest).star
  | group hmembers _ _ ih => simpa [String.append_assoc] using (ih hrest).group hmembers

theorem of_code (height : Nat) (p : Primitive) : Sentence height [] p.code := by
  simpa using Sentence.code p (empty : Sentence height [] "")

theorem of_stars (height count : Nat) : Sentence height [] (Token.stars count).text := by
  induction count with
  | zero => exact empty
  | succ count ih =>
    rw [text_stars_succ]
    exact ih.star

theorem of_members {members : List Member} (h : ∀ m ∈ members, Sentence height m.groups m.text) :
    Sentence (height + 1) (members.length :: members.flatMap (·.groups))
      (braced (members.map (·.text))) := by
  simpa [Lowering.braced_eq] using Sentence.group h empty

theorem layout_of_members {members : List Member}
    (h : ∀ m ∈ members, Layout height (m.groups.map (· - 1)) 0 m.text.toList) :
    Layout height ((members.flatMap (·.groups)).map (· - 1)) (members.length - 1)
      (commaSeparated (members.map (·.text))).toList := by
  induction members with
  | nil =>
    have hempty : (commaSeparated []).toList = [] := String.toList_empty
    exact .of_unpunctuated height (by simp [hempty]) (by simp [hempty]) (by simp [hempty])
  | cons m members ih =>
    have hfirst := h m List.mem_cons_self
    have hrest := ih fun m hm => h m (List.mem_cons_of_mem _ hm)
    cases members with
    | nil => simpa [commaSeparated] using hfirst
    | cons next members =>
      have hlayout := (hfirst.append (.comma height)).append hrest
      simpa [commaSeparated, Nat.add_comm] using hlayout

/-- The text of a sentence shows its groups. -/
theorem layout (h : Sentence height groups text) :
    Layout height (groups.map (· - 1)) 0 text.toList := by
  induction h with
  | empty => exact .of_unpunctuated _ (by simp) (by simp) (by simp)
  | @code height groups text p _ ih =>
    have hcode : Layout height [] 0 p.code.toList :=
      .of_unpunctuated height (by cases p <;> decide) (by cases p <;> decide)
        (by cases p <;> decide)
    simpa using hcode.append ih
  | @star height groups text _ ih =>
    have hstar : Layout height [] 0 ['*'] :=
      .of_unpunctuated height (by decide) (by decide) (by decide)
    simpa using hstar.append ih
  | @group height groups text members _ _ ihmembers ih =>
    have hgroup := (layout_of_members ihmembers).wrap.append ih
    simpa [← Lowering.commaSeparated_eq_intercalate] using hgroup

end Sentence

end DecompConfig.Encoding
