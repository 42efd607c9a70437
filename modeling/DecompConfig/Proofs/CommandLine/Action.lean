import DecompConfig.CommandLine.Execution
import DecompConfig.Proofs.Run

namespace DecompConfig.CommandLine

/-- Lines as the text that they make when they are printed. -/
def textOf (lines : List String) : String := .join (lines.map (· ++ "\n"))

@[simp] theorem textOf_nil : textOf [] = "" := rfl

@[simp] theorem textOf_cons (line : String) (lines : List String) :
    textOf (line :: lines) = line ++ "\n" ++ textOf lines := by
  simp [textOf]

namespace Console

variable {console : Console} {taken line : String} {lines : List String}

/-- Each of some lines is taken behind the ones before it. -/
def TakesAll (console : Console) (taken : String) (lines : List String) : Prop :=
  ∀ before line after, lines = before ++ line :: after →
    console.takes (taken ++ textOf before) (line ++ "\n") = true

theorem takesAll_nil : console.TakesAll taken [] := by
  intro before line after h
  simp at h

theorem takesAll_cons_iff : console.TakesAll taken (line :: lines) ↔
    console.takes taken (line ++ "\n") = true ∧
      console.TakesAll (taken ++ (line ++ "\n")) lines := by
  constructor
  · intro h
    refine ⟨by simpa using h [] line lines rfl, ?_⟩
    intro before next after heq
    have hnext := h (line :: before) next after (by rw [heq, List.cons_append])
    rwa [textOf_cons, ← String.append_assoc] at hnext
  · rintro ⟨hline, hlines⟩ before next after heq
    cases before with
    | nil =>
      obtain ⟨rfl, rfl⟩ := List.cons.inj heq
      simpa using hline
    | cons first before =>
      obtain ⟨rfl, hrest⟩ := List.cons.inj heq
      rw [textOf_cons, ← String.append_assoc]
      exact hlines before next after hrest

/-- A standard output that does not take all of some lines takes the ones before the first that it
refuses. -/
theorem takesAll_or_refuses (console : Console) (taken : String) (lines : List String) :
    console.TakesAll taken lines ∨ ∃ before line after, lines = before ++ line :: after ∧
      console.TakesAll taken before ∧
      console.takes (taken ++ textOf before) (line ++ "\n") = false := by
  induction lines generalizing taken with
  | nil => exact .inl takesAll_nil
  | cons line lines ih =>
    cases hline : console.takes taken (line ++ "\n") with
    | false => exact .inr ⟨[], line, lines, rfl, takesAll_nil, by simpa using hline⟩
    | true =>
      rcases ih (taken ++ (line ++ "\n")) with hall | ⟨before, next, after, heq, hbefore, hnext⟩
      · exact .inl (takesAll_cons_iff.mpr ⟨hline, hall⟩)
      · refine .inr ⟨line :: before, next, after, by rw [heq, List.cons_append],
          takesAll_cons_iff.mpr ⟨hline, hbefore⟩, ?_⟩
        rwa [textOf_cons, ← String.append_assoc]

end Console

namespace Action

variable {ε α β : Type} {w : World} {f : α → Action β}

theorem consult_bind_of_ok {find : Files → Except Report α} {a : α} (h : find w.files = .ok a) :
    (consult find >>= f) w = f a w := by
  have hresult : (consult find w).result = .ok a := by
    show (find w.files).mapError Failure.reported = _
    rw [h]
    rfl
  rw [Run.bind_of_ok hresult]
  rfl

theorem consult_bind_of_error {find : Files → Except Report α} {report : Report}
    (h : find w.files = .error report) :
    (consult find >>= f) w = ⟨.error (.reported report), w, []⟩ := by
  have hresult : (consult find w).result = .error (.reported report) := by
    show (find w.files).mapError Failure.reported = _
    rw [h]
    rfl
  rw [Run.bind_of_error hresult]
  rfl

theorem compute_bind_of_ok {x : Run Unit ε α} {report : ε → Report} {a : α}
    (h : (x ()).result = .ok a) :
    (compute x report >>= f) w = (f a w).after (x ()).events := by
  have hresult : (compute x report w).result = .ok a := by
    show (x ()).result.mapError _ = _
    rw [h]
    rfl
  rw [Run.bind_of_ok hresult]
  rfl

theorem compute_bind_of_error {x : Run Unit ε α} {report : ε → Report} {e : ε}
    (h : (x ()).result = .error e) :
    (compute x report >>= f) w = ⟨.error (.reported (report e)), w, (x ()).events⟩ := by
  have hresult : (compute x report w).result = .error (.reported (report e)) := by
    show (x ()).result.mapError _ = _
    rw [h]
    rfl
  rw [Run.bind_of_error hresult]
  rfl

theorem print_of_takes {text : String} (h : w.console.takes w.stdout text = true) (failure : Failure) :
    print text failure w = ⟨.ok (), { w with stdout := w.stdout ++ text }, []⟩ :=
  if_pos h

theorem print_of_refuses {text : String} (h : w.console.takes w.stdout text = false)
    (failure : Failure) : print text failure w = ⟨.error failure, w, []⟩ :=
  if_neg (by rw [h]; decide)

theorem printLines_singleton (line : String) : printLines [line] = printLine line := by
  simp [printLines]

theorem printLines_of_takes {lines : List String} (h : w.console.TakesAll w.stdout lines) :
    printLines lines w = ⟨.ok (), { w with stdout := w.stdout ++ textOf lines }, []⟩ := by
  induction lines generalizing w with
  | nil => simp [printLines, Run.pure_apply]
  | cons line lines ih =>
    obtain ⟨hline, hlines⟩ := Console.takesAll_cons_iff.mp h
    have hfirst := print_of_takes hline .refused
    have hok : (printLine line w).result = .ok () := by rw [printLine, hfirst]
    rw [printLines, Run.bind_of_ok hok, printLine, hfirst, ih hlines]
    simp [Outcome.after, String.append_assoc]

/-- The lines before the first one that is refused have been printed. -/
theorem printLines_of_refuses {before : List String} {line : String} (after : List String)
    (hbefore : w.console.TakesAll w.stdout before)
    (hline : w.console.takes (w.stdout ++ textOf before) (line ++ "\n") = false) :
    printLines (before ++ line :: after) w =
      ⟨.error .refused, { w with stdout := w.stdout ++ textOf before }, []⟩ := by
  induction before generalizing w with
  | nil =>
    rw [textOf_nil, String.append_empty] at hline
    have hfirst := print_of_refuses hline .refused
    have hrefused : (printLine line w).result = .error .refused := by rw [printLine, hfirst]
    rw [List.nil_append, printLines, Run.bind_of_error hrefused, printLine, hfirst]
    simp
  | cons first before ih =>
    obtain ⟨htaken, hrest⟩ := Console.takesAll_cons_iff.mp hbefore
    have hfirst := print_of_takes htaken .refused
    have hok : (printLine first w).result = .ok () := by rw [printLine, hfirst]
    rw [textOf_cons, ← String.append_assoc] at hline
    rw [List.cons_append, printLines, Run.bind_of_ok hok, printLine, hfirst, ih hrest hline]
    simp [Outcome.after, String.append_assoc]

theorem writeFile_of_isAt {path content : String} (h : w.console.isAt path = true) :
    writeFile path content w =
      print content (.reported ⟨"Failed to write config: " ++ path, []⟩) w :=
  if_pos h

theorem writeFile_of_not_isAt {path content : String} (h : ¬w.console.isAt path = true) :
    writeFile path content w = if w.files.canWrite path
      then ⟨.ok (), { w with written := w.written ++ [(path, content)] }, []⟩
      else ⟨.error (.reported ⟨"Failed to write config: " ++ path, []⟩), w, []⟩ :=
  if_neg h

end Action

end DecompConfig.CommandLine
