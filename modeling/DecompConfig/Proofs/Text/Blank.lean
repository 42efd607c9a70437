import DecompConfig.Text.Blank
import Mathlib.Data.List.Basic
import Mathlib.Data.List.TakeWhile
import Mathlib.Tactic.Conv

namespace DecompConfig.Text

section Pieces

variable {cut : Char → Bool} {s w : List Char}

theorem pieces_eq_splitOnP (cut : Char → Bool) (s : List Char) : pieces cut s = s.splitOnP cut := by
  induction s with
  | nil => exact List.splitOnP_nil.symm
  | cons c s ih => rw [pieces, List.splitOnP_cons_eq_if_modifyHead, ih]

theorem pieces_beq (c : Char) (s : List Char) : pieces (· == c) s = s.splitOn c := by
  rw [pieces_eq_splitOnP, List.splitOn_eq_splitOnP]

theorem exists_pieces_eq_cons (cut : Char → Bool) (s : List Char) :
    ∃ piece more, pieces cut s = piece :: more :=
  List.exists_cons_of_ne_nil (pieces_ne_nil cut s)

theorem pieces_append_cut {c : Char} (hc : cut c = true) (s t : List Char) :
    pieces cut (s ++ c :: t) = pieces cut s ++ pieces cut t := by
  simp only [pieces_eq_splitOnP]
  exact List.splitOnP_append_cons s t hc

theorem pieces_of_uncut (h : ∀ c ∈ s, cut c = false) : pieces cut s = [s] := by
  rw [pieces_eq_splitOnP, List.splitOnP_eq_singleton h]

theorem flatten_pieces (cut : Char → Bool) (s : List Char) :
    (pieces cut s).flatten = s.filter (!cut ·) := by
  induction s with
  | nil => rfl
  | cons c s ih =>
    rw [pieces, List.filter_cons, ← ih]
    split
    next hc => simp [hc]
    next hc =>
      obtain ⟨piece, more, hpieces⟩ := exists_pieces_eq_cons cut s
      simp [hpieces, hc]

theorem prefix_of_head?_pieces (h : w ∈ (pieces cut s).head?) : w <+: s := by
  induction s generalizing w with
  | nil =>
    obtain rfl : [] = w := by simpa [pieces] using h
    exact List.prefix_rfl
  | cons c s ih =>
    rw [pieces] at h
    split at h
    · obtain rfl : [] = w := by simpa using h
      exact List.nil_prefix
    · obtain ⟨piece, more, hpieces⟩ := exists_pieces_eq_cons cut s
      obtain rfl : c :: piece = w := by simpa [hpieces] using h
      have hfront : piece <+: s := ih (by rw [hpieces]; rfl)
      exact (List.prefix_cons_inj c).mpr hfront

theorem infix_of_mem_pieces (hw : w ∈ pieces cut s) : w <:+: s := by
  induction s with
  | nil =>
    obtain rfl : w = [] := by simpa [pieces] using hw
    exact List.infix_rfl
  | cons c s ih =>
    have hfirst : w ∈ (pieces cut (c :: s)).head? → w <+: c :: s := prefix_of_head?_pieces
    rw [pieces] at hw hfirst
    split at hw
    · rcases List.mem_cons.mp hw with rfl | hw
      · exact List.nil_infix
      · exact (ih hw).trans (List.suffix_cons c s).isInfix
    next hc =>
      rw [if_neg hc] at hfirst
      obtain ⟨piece, more, hpieces⟩ := exists_pieces_eq_cons cut s
      rw [hpieces, List.modifyHead_cons] at hw hfirst
      rcases List.mem_cons.mp hw with rfl | hw
      · exact (hfirst rfl).isInfix
      · have hmem : w ∈ pieces cut s := hpieces ▸ List.mem_cons_of_mem piece hw
        exact (ih hmem).trans (List.suffix_cons c s).isInfix

/-- The pieces are made of the characters at which the text is not cut. -/
theorem mem_of_mem_pieces (hw : w ∈ pieces cut s) {c : Char} (hc : c ∈ w) :
    c ∈ s ∧ cut c = false := by
  have hflat : c ∈ (pieces cut s).flatten := List.mem_flatten.mpr ⟨w, hw, hc⟩
  rw [flatten_pieces, List.mem_filter] at hflat
  simpa using hflat

end Pieces

variable {s blanks : List Char}

section Scan

variable {p : Char → Bool} {c : Char}

theorem dropWhile_append_cons_of_neg (hc : p c = false) (s t : List Char) :
    (s ++ c :: t).dropWhile p = s.dropWhile p ++ c :: t := by
  induction s with
  | nil => exact List.dropWhile_cons_of_neg (by simp [hc])
  | cons a s ih =>
    rw [List.cons_append, List.dropWhile_cons, List.dropWhile_cons, ih]
    split <;> rfl

theorem not_mem_of_forall_eq {b : Bool} (hc : p c ≠ b) (h : ∀ d ∈ s, p d = b) : c ∉ s :=
  fun hmem => hc (h c hmem)

theorem forall_bne_of_not_mem (h : c ∉ s) : ∀ d ∈ s, (d != c) = true := by
  intro d hd
  rw [bne_iff_ne]
  rintro rfl
  exact h hd

theorem dropWhile_bne_of_not_mem (h : c ∉ s) : s.dropWhile (· != c) = [] := by
  rw [← List.append_nil s, List.dropWhile_append_of_pos (forall_bne_of_not_mem h)]
  rfl

theorem dropWhile_bne_append_cons (h : c ∉ s) (t : List Char) :
    (s ++ c :: t).dropWhile (· != c) = c :: t := by
  rw [List.dropWhile_append_of_pos (forall_bne_of_not_mem h), List.dropWhile_cons_of_neg (by simp)]

theorem takeWhile_bne_append_cons (h : c ∉ s) (t : List Char) :
    (s ++ c :: t).takeWhile (· != c) = s := by
  rw [List.takeWhile_append_of_pos (forall_bne_of_not_mem h),
    List.takeWhile_cons_of_neg (by simp), List.append_nil]

end Scan

section Trim

theorem mem_of_mem_trim {c : Char} (hc : c ∈ trim s) : c ∈ s := by
  have hstart : c ∈ trimStart s := by
    have hreverse := (List.dropWhile_sublist isBlank).subset (List.mem_reverse.mp hc)
    exact List.mem_reverse.mp hreverse
  exact (List.dropWhile_sublist isBlank).subset hstart

theorem exists_trimEnd_append (s : List Char) :
    ∃ blanks, s = trimEnd s ++ blanks ∧ ∀ c ∈ blanks, isBlank c = true := by
  refine ⟨(s.reverse.takeWhile isBlank).reverse, ?_, ?_⟩
  · rw [trimEnd, ← List.reverse_append, List.takeWhile_append_dropWhile, List.reverse_reverse]
  · intro c hc
    exact List.mem_takeWhile_imp (List.mem_reverse.mp hc)

theorem trim_append_of_blank (h : ∀ c ∈ blanks, isBlank c = true) (s : List Char) :
    trim (blanks ++ s) = trim s := by
  rw [trim, trimStart, List.dropWhile_append_of_pos h]
  rfl

theorem trim_of_blank (h : ∀ c ∈ s, isBlank c = true) : trim s = [] := by
  have htrim := trim_append_of_blank h []
  rwa [List.append_nil] at htrim

theorem not_isBlank_of_mem_head?_trimStart {c : Char} (hc : c ∈ (trimStart s).head?) :
    isBlank c = false := by
  have h := List.head?_dropWhile_not isBlank s
  rw [← trimStart, Option.mem_def.mp hc] at h
  exact h

theorem not_isBlank_of_mem_getLast?_trimEnd {c : Char} (hc : c ∈ (trimEnd s).getLast?) :
    isBlank c = false := by
  rw [trimEnd, List.getLast?_reverse] at hc
  exact not_isBlank_of_mem_head?_trimStart hc

theorem trimStart_eq_self (h : ∀ c ∈ s.head?, isBlank c = false) : trimStart s = s := by
  cases s with
  | nil => rfl
  | cons c s => exact List.dropWhile_cons_of_neg (by simp [h c rfl])

theorem trimEnd_eq_self (h : ∀ c ∈ s.getLast?, isBlank c = false) : trimEnd s = s := by
  have hreverse : trimStart s.reverse = s.reverse := trimStart_eq_self (by rwa [List.head?_reverse])
  rw [trimEnd, ← trimStart, hreverse, List.reverse_reverse]

/-- A text that is not blank ends as a text without the blanks in front of it does. -/
theorem getLast?_trimStart (h : trimStart s ≠ []) : (trimStart s).getLast? = s.getLast? := by
  have hsplit : s.takeWhile isBlank ++ trimStart s = s := List.takeWhile_append_dropWhile
  conv_rhs => rw [← hsplit]
  rw [List.getLast?_append_of_ne_nil _ h]

theorem head?_trimEnd (h : trimEnd s ≠ []) : (trimEnd s).head? = s.head? := by
  rw [trimEnd, ne_eq, List.reverse_eq_nil_iff] at h
  rw [trimEnd, List.head?_reverse, ← trimStart, getLast?_trimStart h, List.getLast?_reverse]

theorem not_isBlank_of_mem_head?_trim {c : Char} (hc : c ∈ (trim s).head?) : isBlank c = false := by
  have hne : trim s ≠ [] := by
    intro hnil
    rw [hnil] at hc
    cases hc
  rw [trim, head?_trimEnd hne] at hc
  exact not_isBlank_of_mem_head?_trimStart hc

theorem not_isBlank_of_mem_getLast?_trim {c : Char} (hc : c ∈ (trim s).getLast?) :
    isBlank c = false :=
  not_isBlank_of_mem_getLast?_trimEnd hc

theorem trim_eq_self_of_ends (hhead : ∀ c ∈ s.head?, isBlank c = false)
    (hlast : ∀ c ∈ s.getLast?, isBlank c = false) : trim s = s := by
  rw [trim, trimStart_eq_self hhead, trimEnd_eq_self hlast]

theorem trim_eq_self (h : ∀ c ∈ s, isBlank c = false) : trim s = s :=
  trim_eq_self_of_ends (fun c hc => h c (List.mem_of_mem_head? hc))
    fun c hc => h c (List.mem_of_getLast? hc)

theorem trim_trim (s : List Char) : trim (trim s) = trim s :=
  trim_eq_self_of_ends (fun _ => not_isBlank_of_mem_head?_trim)
    fun _ => not_isBlank_of_mem_getLast?_trim

theorem trim_between {before after : List Char} (hbefore : ∀ c ∈ before, isBlank c = true)
    (hafter : ∀ c ∈ after, isBlank c = true) (h : trim s = s) : trim (before ++ s ++ after) = s := by
  rw [List.append_assoc, trim_append_of_blank hbefore]
  cases s with
  | nil => exact trim_of_blank hafter
  | cons c s =>
    have hhead : ∀ d ∈ (c :: s).head?, isBlank d = false := by
      rw [← h]
      exact fun _ => not_isBlank_of_mem_head?_trim
    have hstart : trimStart (c :: s ++ after) = c :: s ++ after := trimStart_eq_self hhead
    have hreverse : ∀ d ∈ after.reverse, isBlank d = true := fun d hd =>
      hafter d (List.mem_reverse.mp hd)
    have hend : trimEnd (c :: s ++ after) = trimEnd (c :: s) := by
      rw [trimEnd, List.reverse_append, List.dropWhile_append_of_pos hreverse]
      rfl
    have hs : trimEnd (trimStart (c :: s)) = c :: s := h
    rw [trimStart_eq_self hhead] at hs
    rw [trim, hstart, hend, hs]

/-- A text is what is left of it between two stretches of blanks. -/
theorem exists_trim_between (s : List Char) : ∃ before after, s = before ++ trim s ++ after ∧
    (∀ c ∈ before, isBlank c = true) ∧ ∀ c ∈ after, isBlank c = true := by
  obtain ⟨after, hafter, hblank⟩ := exists_trimEnd_append (trimStart s)
  refine ⟨s.takeWhile isBlank, after, ?_, fun c hc => List.mem_takeWhile_imp hc, hblank⟩
  rw [List.append_assoc, trim, ← hafter]
  exact List.takeWhile_append_dropWhile.symm

theorem trim_append_cons {c : Char} (hc : isBlank c = false) (s t : List Char) :
    trim (s ++ c :: t) = trimStart s ++ c :: trimEnd t := by
  rw [trim, trimStart, dropWhile_append_cons_of_neg hc, trimEnd, List.reverse_append,
    List.reverse_cons, List.append_assoc, List.singleton_append, dropWhile_append_cons_of_neg hc,
    List.reverse_append, List.reverse_cons, List.reverse_reverse, List.append_assoc,
    List.singleton_append]
  rfl

end Trim

section Words

variable {w t : List Char}

theorem words_append_blank {c : Char} (hc : isBlank c = true) (s t : List Char) :
    words (s ++ c :: t) = words s ++ words t := by
  rw [words, pieces_append_cut hc, List.filter_append]
  rfl

theorem words_of_unblank (hne : s ≠ []) (h : ∀ c ∈ s, isBlank c = false) : words s = [s] := by
  rw [words, pieces_of_uncut h]
  simpa using hne

theorem flatten_words (s : List Char) : (words s).flatten = s.filter (!isBlank ·) := by
  rw [words, List.flatten_filter_not_isEmpty, flatten_pieces]

theorem infix_of_mem_words (hw : w ∈ words s) : w <:+: s :=
  infix_of_mem_pieces (List.mem_filter.mp hw).1

theorem mem_of_mem_words (hw : w ∈ words s) {c : Char} (hc : c ∈ w) : c ∈ s :=
  (mem_of_mem_pieces (List.mem_filter.mp hw).1 hc).1

theorem not_isBlank_of_mem_words (hw : w ∈ words s) {c : Char} (hc : c ∈ w) : isBlank c = false :=
  (mem_of_mem_pieces (List.mem_filter.mp hw).1 hc).2

theorem exists_mem_words {c : Char} (hc : c ∈ s) (hblank : isBlank c = false) :
    ∃ w ∈ words s, c ∈ w := by
  rw [← List.mem_flatten, flatten_words, List.mem_filter]
  exact ⟨hc, by rw [hblank, Bool.not_false]⟩

theorem words_cons_of_blank {c : Char} (hc : isBlank c = true) (s : List Char) :
    words (c :: s) = words s :=
  words_append_blank hc [] s

theorem words_eq_nil_iff : words s = [] ↔ ∀ c ∈ s, isBlank c = true := by
  constructor
  · intro h c hc
    have hflat := flatten_words s
    rw [h, List.flatten_nil, eq_comm, List.filter_eq_nil_iff] at hflat
    simpa using hflat c hc
  · intro h
    induction s with
    | nil => rfl
    | cons c s ih =>
      obtain ⟨hc, hs⟩ := List.forall_mem_cons.mp h
      rw [words_cons_of_blank hc, ih hs]

theorem words_append_of_blank (s : List Char) (h : ∀ c ∈ blanks, isBlank c = true) :
    words (s ++ blanks) = words s := by
  cases blanks with
  | nil => rw [List.append_nil]
  | cons c blanks =>
    obtain ⟨hc, hblanks⟩ := List.forall_mem_cons.mp h
    rw [words_append_blank hc, words_eq_nil_iff.mpr hblanks, List.append_nil]

/-- A blank where two texts meet keeps their words apart. -/
theorem words_append (h : (∃ c ∈ s.getLast?, isBlank c = true) ∨ ∃ c ∈ t.head?, isBlank c = true) :
    words (s ++ t) = words s ++ words t := by
  rcases h with ⟨c, hc, hblank⟩ | ⟨c, hc, hblank⟩
  · obtain ⟨s, rfl⟩ := List.getLast?_eq_some_iff.mp hc
    have hs : words (s ++ [c]) = words s := words_append_of_blank s (by simpa using hblank)
    rw [List.append_assoc, List.singleton_append, words_append_blank hblank, hs]
  · obtain ⟨t, rfl⟩ := List.head?_eq_some_iff.mp hc
    rw [words_append_blank hblank, words_cons_of_blank hblank]

theorem words_trimStart (s : List Char) : words (trimStart s) = words s := by
  induction s with
  | nil => rfl
  | cons c s ih =>
    rw [trimStart, List.dropWhile_cons]
    split
    next hc => rw [words_cons_of_blank hc, ← ih, trimStart]
    next => rfl

theorem words_trim (s : List Char) : words (trim s) = words s := by
  obtain ⟨blanks, hs, hblank⟩ := exists_trimEnd_append (trimStart s)
  have hend : words (trimStart s) = words (trim s) := by
    conv_lhs => rw [hs]
    exact words_append_of_blank _ hblank
  rw [← hend, words_trimStart]

/-- A text that does not begin with a blank begins with its first word. -/
theorem words_eq_cons {a : Char} (ha : isBlank a = false) (s : List Char) :
    words (a :: s) =
      (a :: s.takeWhile (!isBlank ·)) :: words (s.dropWhile (!isBlank ·)) := by
  have hsplit : a :: s = (a :: s.takeWhile (!isBlank ·)) ++ s.dropWhile (!isBlank ·) := by
    rw [List.cons_append, List.takeWhile_append_dropWhile]
  have hunblank : ∀ c ∈ a :: s.takeWhile (!isBlank ·), isBlank c = false := by
    intro c hc
    rcases List.mem_cons.mp hc with rfl | hc
    · exact ha
    · simpa using List.mem_takeWhile_imp hc
  have hfirst := words_of_unblank (List.cons_ne_nil _ _) hunblank
  have hrest := List.head?_dropWhile_not (!isBlank ·) s
  conv_lhs => rw [hsplit]
  cases hdrop : s.dropWhile (!isBlank ·) with
  | nil => rw [List.append_nil, hfirst, words_eq_nil_iff.mpr (by simp)]
  | cons c rest =>
    have hc : isBlank c = true := by simpa [hdrop] using hrest
    rw [words_append_blank hc, hfirst, words_cons_of_blank hc]
    rfl

/-- The first of several words stands in front of a blank. -/
theorem exists_of_words_eq_cons_cons {w next : List Char} {more : List (List Char)}
    (hhead : ∀ c ∈ s.head?, isBlank c = false) (h : words s = w :: next :: more) :
    ∃ c rest, s = w ++ c :: rest ∧ isBlank c = true := by
  cases s with
  | nil => cases h
  | cons a s =>
    rw [words_eq_cons (hhead a rfl)] at h
    obtain ⟨rfl, hmore⟩ := List.cons_eq_cons.mp h
    have hrest := List.head?_dropWhile_not (!isBlank ·) s
    cases hdrop : s.dropWhile (!isBlank ·) with
    | nil => rw [hdrop] at hmore; cases hmore
    | cons c rest =>
      refine ⟨c, rest, ?_, by simpa [hdrop] using hrest⟩
      rw [← hdrop, List.cons_append, List.takeWhile_append_dropWhile]

end Words

end DecompConfig.Text
