import DecompConfig.Name
import Mathlib.Data.List.Infix

namespace DecompConfig

/-- The second text is the first with copies of a marker between its characters, any number of them at
each place. -/
inductive Interrupted (marker : List Char) : List Char → List Char → Prop
  | last (c : Char) : Interrupted marker [c] [c]
  | next (c : Char) (count : Nat) {t u : List Char} : Interrupted marker t u →
    Interrupted marker (c :: t) (c :: ((List.replicate count marker).flatten ++ u))

/-- The letters of `t` stand in the text with nothing but copies of the marker between them, and are not
themselves a marker. -/
def Hides (marker t s : List Char) : Prop := ∃ u, Interrupted marker t u ∧ u ≠ marker ∧ u <:+: s

section Removal

variable {marker s t u : List Char}

theorem removeMarker_cons (h : ¬marker <+: c :: s) :
    removeMarker marker (c :: s) = c :: removeMarker marker s := by
  rw [removeMarker, if_neg (by simpa using h)]

theorem removeMarker_append (hne : marker ≠ []) (s : List Char) :
    removeMarker marker (marker ++ s) = removeMarker marker s := by
  obtain ⟨c, cs, rfl⟩ := List.exists_cons_of_ne_nil hne
  rw [List.cons_append, removeMarker, if_pos (by simp)]
  simp

/-- A text is empty, or it begins with a marker, or with a character that stays. -/
theorem removal_induction {P : List Char → Prop} (hne : marker ≠ []) (nil : P [])
    (marked : ∀ s, P s → P (marker ++ s))
    (kept : ∀ c s, ¬marker <+: c :: s → P s → P (c :: s)) (s : List Char) : P s := by
  induction hlength : s.length using Nat.strongRecOn generalizing s with
  | ind n ih =>
    cases s with
    | nil => exact nil
    | cons c s =>
      by_cases h : marker <+: c :: s
      · obtain ⟨rest, hrest⟩ := h
        have hpos : 0 < marker.length := List.length_pos_iff.mpr hne
        have hlt : rest.length < n := by
          rw [← hlength, ← hrest, List.length_append]
          omega
        rw [← hrest]
        exact marked rest (ih _ hlt rest rfl)
      · exact kept c s h (ih _ (by rw [← hlength]; exact Nat.lt_succ_self _) s rfl)

theorem removeMarker_copies (hne : marker ≠ []) (count : Nat) (s : List Char) :
    removeMarker marker ((List.replicate count marker).flatten ++ s) = removeMarker marker s := by
  induction count with
  | zero => rfl
  | succ count ih =>
    rw [List.replicate_succ, List.flatten_cons, List.append_assoc, removeMarker_append hne, ih]

theorem removeMarker_sublist (hne : marker ≠ []) (s : List Char) :
    (removeMarker marker s).Sublist s := by
  induction s using removal_induction hne with
  | nil => rw [removeMarker]
  | marked s ih =>
    rw [removeMarker_append hne]
    exact ih.trans (List.sublist_append_right marker s)
  | kept c s hc ih =>
    rw [removeMarker_cons hc]
    exact ih.cons_cons c

theorem removeMarker_eq_self_iff (hne : marker ≠ []) : removeMarker marker s = s ↔ ¬marker <:+: s := by
  have hpos : 0 < marker.length := List.length_pos_iff.mpr hne
  induction s using removal_induction hne with
  | nil => simp [removeMarker, hne]
  | marked s ih =>
    have hle := (removeMarker_sublist hne s).length_le
    have hoccurs : marker <:+: marker ++ s := (List.prefix_append marker s).isInfix
    rw [removeMarker_append hne]
    refine iff_of_false (fun h => ?_) (not_not.mpr hoccurs)
    have hlength := congrArg List.length h
    rw [List.length_append] at hlength
    omega
  | kept c s hc ih =>
    have hoccurs : marker <:+: c :: s ↔ marker <:+: s := by
      rw [List.infix_cons_iff]
      exact or_iff_right hc
    rw [removeMarker_cons hc, hoccurs, List.cons_inj_right]
    exact ih

/-- A text that does not begin inside a marker is cleaned on its own. -/
theorem removeMarker_append_of_head (hne : marker ≠ []) {rest : List Char}
    (hhead : ∀ c ∈ rest.head?, c ∉ marker.tail) (s : List Char) :
    removeMarker marker (s ++ rest) = removeMarker marker s ++ removeMarker marker rest := by
  induction s using removal_induction hne with
  | nil => rw [removeMarker, List.nil_append, List.nil_append]
  | marked s ih => rw [List.append_assoc, removeMarker_append hne, removeMarker_append hne, ih]
  | kept c s hc ih =>
    have hc' : ¬marker <+: c :: (s ++ rest) := by
      intro h
      rcases List.prefix_or_prefix_of_prefix h (List.prefix_append (c :: s) rest) with hshort | hlong
      · exact hc hshort
      · obtain ⟨missing, rfl⟩ := hlong
        rw [← List.cons_append, List.prefix_append_right_inj] at h
        cases missing with
        | nil => exact hc (by rw [List.append_nil])
        | cons d missing =>
          obtain ⟨rest, rfl⟩ := h
          exact hhead d rfl (by simp)
    rw [List.cons_append, removeMarker_cons hc', removeMarker_cons hc, ih, List.cons_append]

end Removal

section Interruption

variable {marker s t u y b : List Char}

theorem Interrupted.ne_nil (h : Interrupted marker t u) : t ≠ [] := by
  cases h with
  | last => exact List.cons_ne_nil _ _
  | next => exact List.cons_ne_nil _ _

theorem Interrupted.text_ne_nil (h : Interrupted marker t u) : u ≠ [] := by
  cases h with
  | last => exact List.cons_ne_nil _ _
  | next => exact List.cons_ne_nil _ _

theorem Interrupted.getLast?_cons (h : Interrupted marker t u) (c : Char) :
    (c :: t).getLast? = t.getLast? := by
  cases h with
  | last => rfl
  | next => rfl

theorem Interrupted.head?_eq (h : Interrupted marker t u) : u.head? = t.head? := by
  cases h with
  | last => rfl
  | next => rfl

theorem Interrupted.getLast?_eq (h : Interrupted marker t u) : u.getLast? = t.getLast? := by
  induction h with
  | last c => rfl
  | next c count h ih =>
    rw [List.getLast?_cons, List.getLast?_cons, List.getLast?_append, ih]
    obtain ⟨last, hlast⟩ := Option.ne_none_iff_exists'.mp (mt List.getLast?_eq_none_iff.mp h.ne_nil)
    rw [hlast]
    rfl

theorem mem_of_mem_copies {count : Nat} {c : Char} (h : c ∈ (List.replicate count marker).flatten) :
    c ∈ marker := by
  obtain ⟨copy, hcopy, hc⟩ := List.mem_flatten.mp h
  rwa [List.eq_of_mem_replicate hcopy] at hc

theorem Interrupted.mem_or_mem (h : Interrupted marker t u) {c : Char} (hc : c ∈ u) :
    c ∈ t ∨ c ∈ marker := by
  induction h with
  | last d => exact .inl hc
  | next d count h ih =>
    rcases List.mem_cons.mp hc with rfl | hc
    · exact .inl List.mem_cons_self
    · rcases List.mem_append.mp hc with hcopies | hc
      · exact .inr (mem_of_mem_copies hcopies)
      · exact (ih hc).imp_left (List.mem_cons_of_mem d)

/-- Removal leaves a text at the beginning only where it already stood, with whole markers before and
inside it. -/
theorem exists_interrupted_of_prefix_removeMarker (hne : marker ≠ []) (ht : t ≠ [])
    (h : t <+: removeMarker marker s) :
    ∃ count u v, s = (List.replicate count marker).flatten ++ (u ++ v) ∧
      Interrupted marker t u ∧ ¬marker <+: u ++ v := by
  induction s using removal_induction hne generalizing t with
  | nil =>
    rw [removeMarker, List.prefix_nil] at h
    exact absurd h ht
  | marked s ih =>
    rw [removeMarker_append hne] at h
    obtain ⟨count, u, v, rfl, hu, hstart⟩ := ih ht h
    refine ⟨count + 1, u, v, ?_, hu, hstart⟩
    rw [List.replicate_succ, List.flatten_cons, List.append_assoc]
  | kept c s hc ih =>
    rw [removeMarker_cons hc] at h
    cases t with
    | nil => exact absurd rfl ht
    | cons d t =>
      obtain ⟨rfl, htail⟩ := List.cons_prefix_cons.mp h
      cases t with
      | nil => exact ⟨0, [d], s, rfl, .last d, hc⟩
      | cons e t =>
        obtain ⟨count, u, v, rfl, hu, -⟩ := ih (List.cons_ne_nil e t) htail
        refine ⟨0, d :: ((List.replicate count marker).flatten ++ u), v, ?_, .next d count hu, ?_⟩
        · simp
        · simpa using hc

theorem hides_of_infix_removeMarker (hne : marker ≠ []) (ht : t ≠ [])
    (h : t <:+: removeMarker marker s) : Hides marker t s := by
  have hbegins : ∀ {s}, t <+: removeMarker marker s → Hides marker t s := by
    intro s h
    obtain ⟨count, u, v, rfl, hu, hstart⟩ := exists_interrupted_of_prefix_removeMarker hne ht h
    refine ⟨u, hu, ?_, List.infix_append' _ u v⟩
    rintro rfl
    exact hstart (List.prefix_append u v)
  induction s using removal_induction hne with
  | nil =>
    rw [removeMarker, List.infix_nil] at h
    exact absurd h ht
  | marked s ih =>
    rw [removeMarker_append hne] at h
    obtain ⟨u, hu, hmarker, hoccurs⟩ := ih h
    exact ⟨u, hu, hmarker, hoccurs.trans (List.suffix_append marker s).isInfix⟩
  | kept c s hc ih =>
    rw [removeMarker_cons hc] at h
    rcases List.infix_cons_iff.mp h with hstart | hinside
    · exact hbegins (by rwa [removeMarker_cons hc])
    · obtain ⟨u, hu, hmarker, hoccurs⟩ := ih hinside
      exact ⟨u, hu, hmarker, hoccurs.trans (List.suffix_cons c s).isInfix⟩

theorem eq_nil_of_suffix_of_getLast? (hnodup : marker.Nodup) {c : Char} (hsuffix : c :: y <:+ marker)
    (hlast : marker.getLast? = some c) : y = [] := by
  have hrest : c ∉ y := (List.nodup_cons.mp (hnodup.sublist hsuffix.sublist)).1
  cases y with
  | nil => rfl
  | cons d y =>
    obtain ⟨start, rfl⟩ := hsuffix
    rw [List.getLast?_append_cons, List.getLast?_cons_cons] at hlast
    exact absurd (List.mem_of_getLast? hlast) hrest

theorem head_notMem_of_suffix (hnodup : marker.Nodup) {c d : Char} (hsuffix : c :: y <:+ marker)
    (hhead : d ∈ marker.head?) : d ∉ y := by
  rw [← List.cons_head?_tail hhead] at hnodup hsuffix
  have htail : d ∉ marker.tail := (List.nodup_cons.mp hnodup).1
  rcases List.suffix_cons_iff.mp hsuffix with hwhole | hpart
  · obtain ⟨-, rfl⟩ := List.cons_eq_cons.mp hwhole
    exact htail
  · intro hd
    exact htail (hpart.subset (List.mem_cons_of_mem c hd))

/-- A text that begins like a later part of the marker does so with its own letters: an inserted copy
would begin with a letter that is not there. -/
theorem Interrupted.prefix_of_suffix_marker (h : Interrupted marker t u) (hnodup : marker.Nodup)
    (hlast : t.getLast? = marker.getLast?) (hsuffix : y <:+ marker) (hstart : y <+: u ++ b) :
    y <+: t ∧ (y = t → u = t) := by
  induction h generalizing y with
  | last c =>
    refine ⟨?_, fun _ => rfl⟩
    cases y with
    | nil => exact List.nil_prefix
    | cons d y =>
      obtain ⟨rfl, -⟩ := List.cons_prefix_cons.mp hstart
      rw [eq_nil_of_suffix_of_getLast? hnodup hsuffix hlast.symm]
  | @next c count t u h ih =>
    have hlastTail : t.getLast? = marker.getLast? := by rw [← hlast, h.getLast?_cons]
    -- The first letters are equal; the rest of `y` meets the copies or, if there are none, the text.
    cases y with
    | nil => exact ⟨List.nil_prefix, fun heq => absurd heq.symm (List.cons_ne_nil c t)⟩
    | cons d y =>
      obtain ⟨rfl, hrest⟩ := List.cons_prefix_cons.mp hstart
      have htail : y <:+ marker := (List.suffix_cons d y).trans hsuffix
      cases count with
      | zero =>
        obtain ⟨hbegins, hwhole⟩ := ih hlastTail htail hrest
        refine ⟨List.cons_prefix_cons.mpr ⟨rfl, hbegins⟩, fun heq => ?_⟩
        rw [List.cons_inj_right] at heq ⊢
        exact hwhole heq
      | succ count =>
        have hnil : y = [] := by
          cases y with
          | nil => rfl
          | cons e y =>
            have hhead : e ∈ marker.head? := by
              obtain ⟨m, marker, rfl⟩ : ∃ m ms, marker = m :: ms :=
                List.exists_cons_of_ne_nil (by rintro rfl; simp at hsuffix)
              rw [List.replicate_succ, List.flatten_cons] at hrest
              exact congrArg some (List.cons_prefix_cons.mp hrest).1.symm
            exact absurd List.mem_cons_self (head_notMem_of_suffix hnodup hsuffix hhead)
        subst hnil
        refine ⟨List.cons_prefix_cons.mpr ⟨rfl, List.nil_prefix⟩, fun heq => ?_⟩
        exact absurd (List.cons_inj_right d |>.mp heq).symm h.ne_nil

/-- An interrupted text does not begin with a marker, unless its own letters do. -/
theorem Interrupted.marker_not_prefix_append (h : Interrupted marker t u) (hnodup : marker.Nodup)
    (hlast : t.getLast? = marker.getLast?) (hfree : marker <:+: t → t = marker ∧ u ≠ marker)
    (b : List Char) : ¬marker <+: u ++ b := by
  intro hstart
  obtain ⟨hbegins, hwhole⟩ := h.prefix_of_suffix_marker hnodup hlast List.suffix_rfl hstart
  obtain ⟨ht, hu⟩ := hfree hbegins.isInfix
  exact hu ((hwhole ht.symm).trans ht)

/-- The copies inside a text go, and its own letters stay. -/
theorem Interrupted.removeMarker_append (h : Interrupted marker t u) (hne : marker ≠ [])
    (hnodup : marker.Nodup) (hlast : t.getLast? = marker.getLast?)
    (hfree : marker <:+: t → t = marker ∧ u ≠ marker) (b : List Char) :
    removeMarker marker (u ++ b) = t ++ removeMarker marker b := by
  have hstart := h.marker_not_prefix_append hnodup hlast hfree b
  induction h with
  | last c => exact removeMarker_cons hstart
  | @next c count t u h ih =>
    have hlastTail : t.getLast? = marker.getLast? := by rw [← hlast, h.getLast?_cons]
    have hfreeTail : ¬marker <:+: t := by
      intro hoccurs
      obtain ⟨rfl, -⟩ := hfree (hoccurs.trans (List.suffix_cons c t).isInfix)
      exact absurd hoccurs.length_le (by simp)
    have hfree : marker <:+: t → t = marker ∧ u ≠ marker := fun hoccurs =>
      absurd hoccurs hfreeTail
    have htail := h.marker_not_prefix_append hnodup hlastTail hfree b
    rw [List.cons_append, List.append_assoc] at hstart ⊢
    rw [removeMarker_cons hstart, removeMarker_copies hne, List.cons_append,
      ih hlastTail hfree htail]

/-- One removal leaves a text behind exactly where its letters are hidden. -/
theorem infix_removeMarker_iff (hnodup : marker.Nodup) (hhead : ∀ c ∈ t.head?, c ∉ marker.tail)
    (hlast : t.getLast? = marker.getLast?) (hne : marker ≠ []) (hfree : marker <:+: t → t = marker) :
    t <:+: removeMarker marker s ↔ Hides marker t s := by
  constructor
  · have ht : t ≠ [] := by
      rintro rfl
      exact hne (List.getLast?_eq_none_iff.mp hlast.symm)
    exact hides_of_infix_removeMarker hne ht
  · rintro ⟨u, hu, hmarker, a, b, rfl⟩
    have hheadRest : ∀ c ∈ (u ++ b).head?, c ∉ marker.tail := by
      intro c hc
      refine hhead c ?_
      rw [← hu.head?_eq]
      rwa [List.head?_append_of_ne_nil _ hu.text_ne_nil] at hc
    rw [List.append_assoc, removeMarker_append_of_head hne hheadRest,
      hu.removeMarker_append hne hnodup hlast (fun hoccurs => ⟨hfree hoccurs, hmarker⟩)]
    exact List.infix_append' _ _ _

/-- If the marker begins with none of the later letters of a text, an interruption begins with the text
only if nothing is inserted. -/
theorem Interrupted.eq_of_prefix_self (h : Interrupted marker t u) (hne : marker ≠ [])
    (hhead : ∀ c ∈ marker.head?, c ∉ t.tail) (hstart : t <+: u) : u = t := by
  induction h with
  | last => rfl
  | @next c count t u h ih =>
    have htail := (List.cons_prefix_cons.mp hstart).2
    cases count with
    | zero =>
      have hheadTail : ∀ c ∈ marker.head?, c ∉ t.tail := fun d hd hmem =>
        hhead d hd (List.mem_of_mem_tail hmem)
      exact congrArg (List.cons c) (ih hheadTail htail)
    | succ count =>
      obtain ⟨m, marker, rfl⟩ := List.exists_cons_of_ne_nil hne
      obtain ⟨d, t, rfl⟩ := List.exists_cons_of_ne_nil h.ne_nil
      rw [List.replicate_succ, List.flatten_cons] at htail
      obtain rfl := (List.cons_prefix_cons.mp htail).1
      exact absurd List.mem_cons_self (hhead d rfl)

theorem Interrupted.eq_of_infix_self {c : Char} (h : Interrupted marker (c :: t) u) (hne : marker ≠ [])
    (hhead : ∀ d ∈ marker.head?, d ∉ t) (ht : c ∉ t) (hmarker : c ∉ marker) (hoccurs : c :: t <:+: u) :
    u = c :: t := by
  refine h.eq_of_prefix_self hne hhead ?_
  cases h with
  | last => exact List.prefix_rfl
  | next c count h =>
    rcases List.infix_cons_iff.mp hoccurs with hstart | hinside
    · exact hstart
    · rcases List.mem_append.mp (hinside.subset List.mem_cons_self) with hcopies | hrest
      · exact absurd (mem_of_mem_copies hcopies) hmarker
      · exact absurd (h.mem_or_mem hrest) (not_or.mpr ⟨ht, hmarker⟩)

end Interruption

section Names

/-- The markers of the two name spaces. -/
def markers : List (List Char) := ["fcn.".toList, "sym.".toList]

/-- A name without the markers that are found in it. -/
def withoutMarkers (s : List Char) : List Char :=
  removeMarker "sym.".toList (removeMarker "fcn.".toList s)

/-- The letters of `t` are joined when the first marker is removed and then the second. -/
def HidesTwice (t s : List Char) : Prop :=
  ∃ v, Interrupted "sym.".toList t v ∧ v ≠ "sym.".toList ∧ Hides "fcn.".toList v s

variable {s t : List Char}

theorem markers_spec (ht : t ∈ markers) :
    t.getLast? = some '.' ∧ (∀ m ∈ markers, ∀ c ∈ t.head?, c ∉ m.tail) ∧
      ∀ m ∈ markers, m <:+: t → t = m := by
  obtain rfl | rfl : t = "fcn.".toList ∨ t = "sym.".toList := by simpa [markers] using ht
  · exact ⟨rfl, by simp [markers], by decide⟩
  · exact ⟨rfl, by simp [markers], by decide⟩

/-- The first marker is not joined by copies of the second one. -/
theorem eq_marker_of_infix_interrupted {v : List Char} (ht : t ∈ markers)
    (hv : Interrupted "sym.".toList t v) (hoccurs : "fcn.".toList <:+: v) : v = "fcn.".toList := by
  rcases List.mem_cons.mp ht with rfl | ht
  · have hhead : ∀ d ∈ "sym.".toList.head?, d ∉ ['c', 'n', '.'] := by simp
    exact hv.eq_of_infix_self (by decide) hhead (by decide) (by decide) hoccurs
  · obtain rfl := List.mem_singleton.mp ht
    have hf : 'f' ∈ v := hoccurs.subset (by decide)
    exact absurd (hv.mem_or_mem hf) (by decide)

theorem infix_withoutMarkers_iff (ht : t ∈ markers) : t <:+: withoutMarkers s ↔ HidesTwice t s := by
  obtain ⟨hlast, hhead, hwhole⟩ := markers_spec ht
  have hsecond : t <:+: withoutMarkers s ↔
      Hides "sym.".toList t (removeMarker "fcn.".toList s) :=
    infix_removeMarker_iff (by decide) (hhead _ (by decide)) hlast (by decide) (hwhole _ (by decide))
  rw [hsecond]
  refine exists_congr fun v => and_congr_right fun hv => and_congr_right fun _ => ?_
  refine infix_removeMarker_iff (by decide) ?_ ?_ (by decide) (eq_marker_of_infix_interrupted ht hv)
  · rw [hv.head?_eq]
    exact hhead _ (by decide)
  · rw [hv.getLast?_eq]
    exact hlast

theorem withoutMarkers_eq_self_iff : withoutMarkers s = s ↔ ∀ marker ∈ markers, ¬marker <:+: s := by
  have hmarkers : (∀ marker ∈ markers, ¬marker <:+: s) ↔
      ¬"fcn.".toList <:+: s ∧ ¬"sym.".toList <:+: s := by
    rw [markers, List.forall_mem_cons, List.forall_mem_singleton]
  rw [hmarkers, ← removeMarker_eq_self_iff (by decide), ← removeMarker_eq_self_iff (by decide)]
  constructor
  · intro h
    have hfirst : (removeMarker "fcn.".toList s).Sublist s := removeMarker_sublist (by decide) s
    have hsecond : (withoutMarkers s).Sublist (removeMarker "fcn.".toList s) :=
      removeMarker_sublist (by decide) _
    rw [h] at hsecond
    have hkept := hfirst.antisymm hsecond
    exact ⟨hkept, by rwa [withoutMarkers, hkept] at h⟩
  · rintro ⟨hfirst, hsecond⟩
    rw [withoutMarkers, hfirst, hsecond]

theorem removeMarker_function {marker : List Char} (hmarker : marker ∈ markers) (s : List Char) :
    removeMarker marker ("function_".toList ++ s) =
      "function_".toList ++ removeMarker marker s := by
  obtain ⟨hne, hletters, hline⟩ :
      marker ≠ [] ∧ ¬marker <:+: "function".toList ∧ '_' ∉ marker := by
    revert marker
    decide
  have hstart : ¬marker <+: '_' :: s := by
    intro h
    obtain ⟨c, marker, rfl⟩ := List.exists_cons_of_ne_nil hne
    obtain rfl := (List.cons_prefix_cons.mp h).1
    exact hline List.mem_cons_self
  have hhead : ∀ c ∈ ('_' :: s).head?, c ∉ marker.tail := by
    rintro c ⟨⟩ htail
    exact hline (List.mem_of_mem_tail htail)
  calc removeMarker marker ("function".toList ++ ('_' :: s))
    _ = removeMarker marker "function".toList ++ removeMarker marker ('_' :: s) :=
      removeMarker_append_of_head hne hhead _
    _ = "function".toList ++ ('_' :: removeMarker marker s) := by
      rw [(removeMarker_eq_self_iff hne).mpr hletters, removeMarker_cons hstart]

theorem withoutMarkers_function (s : List Char) :
    withoutMarkers ("function_".toList ++ s) = "function_".toList ++ withoutMarkers s := by
  rw [withoutMarkers, removeMarker_function (by decide), removeMarker_function (by decide),
    withoutMarkers]

theorem functionName_toList (name : String) : (functionName name).toList =
    if looksLikeAddress (withoutMarkers name.toList) then
      "function_".toList ++ withoutMarkers name.toList
    else withoutMarkers name.toList := by
  have hcleaned : functionName name =
      if looksLikeAddress (withoutMarkers name.toList) then
        "function_" ++ .ofList (withoutMarkers name.toList)
      else .ofList (withoutMarkers name.toList) := rfl
  rw [hcleaned]
  split
  · rw [String.toList_append]
    exact congrArg _ String.toList_ofList
  · exact String.toList_ofList

theorem symbolName_toList (flagName : String) :
    (symbolName flagName).toList = removeMarker "sym.".toList flagName.toList :=
  String.toList_ofList

theorem looksLikeAddress_functionName (name : String) :
    looksLikeAddress (functionName name).toList = false := by
  rw [functionName_toList]
  split
  · rfl
  · simp_all

theorem functionName_eq_self_iff {name : String} : functionName name = name ↔
    (∀ marker ∈ markers, ¬marker <:+: name.toList) ∧ looksLikeAddress name.toList = false := by
  rw [← withoutMarkers_eq_self_iff, ← String.toList_inj]
  constructor
  · intro h
    have haddress : looksLikeAddress name.toList = false := by
      rw [← h]
      exact looksLikeAddress_functionName name
    refine ⟨?_, haddress⟩
    rw [functionName_toList] at h
    split at h
    case isTrue hcleaned =>
      rw [← h, withoutMarkers_function] at hcleaned
      exact absurd hcleaned Bool.false_ne_true
    case isFalse => exact h
  · rintro ⟨hcleaned, haddress⟩
    rw [functionName_toList, hcleaned, haddress]
    rfl

theorem functionName_without_iff (name : String) :
    (∀ marker ∈ markers, ¬marker <:+: (functionName name).toList) ↔
      ∀ marker ∈ markers, ¬HidesTwice marker name.toList := by
  refine forall₂_congr fun marker hmarker => ?_
  have hne : marker ≠ [] := by
    rintro rfl
    exact absurd hmarker (by decide)
  rw [← infix_withoutMarkers_iff hmarker, functionName_toList]
  split
  · rw [← removeMarker_eq_self_iff hne, removeMarker_function hmarker, List.append_right_inj,
      removeMarker_eq_self_iff hne]
  · rfl

/-- Cleaning a name leaves a marker in it, and changes the name again when it is repeated, exactly
where the removal joins the letters of a marker. -/
theorem names_clean_iff (name flagName : String) :
    ((∀ marker ∈ markers, ¬marker <:+: (functionName name).toList) ↔
      ∀ marker ∈ markers, ¬HidesTwice marker name.toList) ∧
    (functionName (functionName name) = functionName name ↔
      ∀ marker ∈ markers, ¬HidesTwice marker name.toList) ∧
    (¬"sym.".toList <:+: (symbolName flagName).toList ↔
      ¬Hides "sym.".toList "sym.".toList flagName.toList) ∧
    (symbolName (symbolName flagName) = symbolName flagName ↔
      ¬Hides "sym.".toList "sym.".toList flagName.toList) := by
  have hfunction := functionName_without_iff name
  have hsymbol : "sym.".toList <:+: (symbolName flagName).toList ↔
      Hides "sym.".toList "sym.".toList flagName.toList := by
    have hnodup : "sym.".toList.Nodup := by decide
    have hhead : ∀ c ∈ "sym.".toList.head?, c ∉ "sym.".toList.tail := by simp
    have hne : "sym.".toList ≠ [] := by decide
    rw [symbolName_toList]
    exact infix_removeMarker_iff hnodup hhead rfl hne fun _ => rfl
  refine ⟨hfunction, ?_, not_congr hsymbol, ?_⟩
  · rw [functionName_eq_self_iff, looksLikeAddress_functionName, hfunction]
    exact and_iff_left rfl
  · have hne : "sym.".toList ≠ [] := by decide
    rw [← hsymbol, ← removeMarker_eq_self_iff hne, ← String.toList_inj, symbolName_toList]

/-- A marker that the removal joins stays, of either name space, until the name is cleaned again. -/
theorem joined_marker_stays :
    functionName "sysym.m.main" = "sym.main" ∧ functionName "sym.main" = "main" ∧
    functionName "fsym.cn.main" = "fcn.main" ∧ functionName "fcn.main" = "main" ∧
    symbolName "sysym.m.main" = "sym.main" ∧ symbolName "sym.main" = "main" ∧
    "sym.".toList <:+: (functionName "sysym.m.main").toList ∧
    "sym.".toList <:+: (symbolName "sysym.m.main").toList := by
  decide +kernel

end Names

end DecompConfig
