import DecompConfig.Proofs.Lowering.Machine

namespace DecompConfig.Lowering

variable {σ α β : Type} {oracle : Oracle σ} {depth : Nat}

open Machine

/-- The machine comes to the outcome `o`: it reaches `next a` where `o` has the value `a`, and halts
with the error of `o` where it has none. -/
structure Comes (oracle : Oracle σ) (depth : Nat) (m : Machine σ) (o : Outcome σ LoweringError α)
    (next : α → Control) : Prop where
  ok : ∀ a, o.result = .ok a →
    ∃ n, run oracle depth n m = .running ⟨next a, o.state, m.events ++ o.events⟩
  error : ∀ e, o.result = .error e →
    ∃ n, run oracle depth n m = .halted ⟨.error e, o.state, m.events ++ o.events⟩

namespace Comes

variable {m m' : Machine σ} {events : List Event} {o : Outcome σ LoweringError α}

theorem of_halted {e : LoweringError} {t : σ} {next : α → Control}
    (h : m.step oracle depth = .halted ⟨.error e, t, m.events ++ events⟩) :
    Comes oracle depth m ⟨.error e, t, events⟩ next where
  ok a ha := by cases ha
  error e he := by
    cases he
    exact ⟨1, run_one_of_halted h⟩

theorem of_running {next : α → Control} (h : m.step oracle depth = .running m')
    (hevents : m'.events = m.events ++ events) (ho : Comes oracle depth m' o next) :
    Comes oracle depth m (o.after events) next where
  ok a ha := by
    obtain ⟨n, hn⟩ := ho.ok a ha
    exact ⟨n + 1, by rw [run_succ_of_running h, hn, hevents, List.append_assoc]; rfl⟩
  error e he := by
    obtain ⟨n, hn⟩ := ho.error e he
    exact ⟨n + 1, by rw [run_succ_of_running h, hn, hevents, List.append_assoc]; rfl⟩

theorem map {f : α → β} {next : β → Control} (h : Comes oracle depth m o fun a => next (f a)) :
    Comes oracle depth m (o.map f) next where
  ok b hb := by
    obtain ⟨a, ha, rfl⟩ := Outcome.result_map_eq_ok_iff.mp hb
    exact h.ok a ha
  error e he := h.error e (Outcome.result_map_eq_error_iff.mp he)

end Comes

/-- Started from `c`, the machine does what `x` does. -/
def Delivers (oracle : Oracle σ) (depth : Nat) (c : Control) (x : Run σ LoweringError α)
    (next : α → Control) : Prop :=
  ∀ s events, Comes oracle depth ⟨c, s, events⟩ (x s) next

namespace Delivers

theorem pure (next : α → Control) (a : α) :
    Delivers oracle depth (next a) (Pure.pure a) next := by
  intro s events
  refine ⟨?_, ?_⟩
  · intro b hb
    cases hb
    exact ⟨0, by simp [run, Run.pure_apply]⟩
  · intro e he
    cases he

theorem silent {c c' : Control} {x : Run σ LoweringError α} {next : α → Control}
    (hstep : ∀ s events, step oracle depth ⟨c, s, events⟩ = .running ⟨c', s, events⟩)
    (h : Delivers oracle depth c' x next) : Delivers oracle depth c x next := fun s events =>
  .of_running (hstep s events) (List.append_nil events).symm (h s events)

theorem map {c : Control} {x : Run σ LoweringError α} {f : α → β} {next : β → Control}
    (h : Delivers oracle depth c x fun a => next (f a)) :
    Delivers oracle depth c (x >>= fun a => Pure.pure (f a)) next := by
  intro s events
  rw [Run.bind_pure_apply]
  exact (h s events).map

theorem bind {c : Control} {x : Run σ LoweringError α} {f : α → Run σ LoweringError β}
    {mid : α → Control} {next : β → Control} (hx : Delivers oracle depth c x mid)
    (hf : ∀ a, Delivers oracle depth (mid a) (f a) next) :
    Delivers oracle depth c (x >>= f) next := by
  intro s events
  cases hresult : (x s).result with
  | error e =>
    rw [Run.bind_of_error hresult]
    refine ⟨?_, ?_⟩
    · intro b hb
      cases hb
    · intro e' he
      cases he
      exact (hx s events).error e hresult
  | ok a =>
    obtain ⟨n, hn⟩ := (hx s events).ok a hresult
    obtain ⟨hok, herror⟩ := hf a (x s).state (events ++ (x s).events)
    rw [Run.bind_of_ok hresult]
    refine ⟨fun b hb => ?_, fun e he => ?_⟩
    · obtain ⟨k, hk⟩ := hok b hb
      exact ⟨n + k, by rw [run_add hn, hk, List.append_assoc]; rfl⟩
    · obtain ⟨k, hk⟩ := herror e he
      exact ⟨n + k, by rw [run_add hn, hk, List.append_assoc]; rfl⟩

end Delivers

/-- The machine expands names inside the aggregates of `path` as `expand` does. -/
def DeliversNames (oracle : Oracle σ) (depth : Nat) (path : List String)
    (expand : String → Run σ LoweringError String) : Prop :=
  ∀ name rest pendingSign levels out, Primitive.ofWord? name = none →
    Delivers oracle depth ⟨.name name :: rest, pendingSign, path, levels, out⟩ (expand name)
      fun text => ⟨rest, false, path, levels, out ++ text⟩

section Types

variable {path : List String} {expand : String → Run σ LoweringError String}

theorem delivers_text {c c' : Control} {p : Part} {text : String} {ps : List Part}
    {next : String → Control} (hp : lowerPart expand p = pure text)
    (hstep : ∀ s events, step oracle depth ⟨c, s, events⟩ = .running ⟨c', s, events⟩)
    (h : Delivers oracle depth c' (lowerParts expand ps) fun more => next (text ++ more)) :
    Delivers oracle depth c (lowerParts expand (p :: ps)) next := by
  rw [lowerParts_cons, hp, pure_bind]
  exact .silent hstep (.map h)

/-- A token that stands for itself is written behind the text of a waiting sign keyword. -/
theorem delivers_token {t : Token} {ts : List Token} {p : Part} {ps : List Part}
    {pendingSign : Bool} {levels : List Level} {out : String}
    (hp : lowerPart expand p = pure t.text)
    (hstep : ∀ s events, step oracle depth ⟨⟨t :: ts, pendingSign, path, levels, out⟩, s, events⟩ =
      .running ⟨⟨ts, false, path, levels, out ++ signText pendingSign ++ t.text⟩, s, events⟩)
    (hrest : ∀ out, Delivers oracle depth ⟨ts, false, path, levels, out⟩ (lowerParts expand ps)
      fun text => ⟨[], false, path, levels, out ++ text⟩) :
    Delivers oracle depth ⟨t :: ts, pendingSign, path, levels, out⟩
      (lowerParts expand (signPart pendingSign ++ p :: ps))
      fun text => ⟨[], false, path, levels, out ++ text⟩ := by
  have h := hrest (out ++ signText pendingSign ++ t.text)
  cases pendingSign with
  | false =>
    apply delivers_text hp hstep
    simpa [signText, String.append_assoc] using h
  | true =>
    show Delivers oracle depth _ (lowerParts expand (.primitive .i32 :: p :: ps)) _
    rw [lowerParts_cons, lowerParts_cons, hp]
    simp only [lowerPart, pure_bind, bind_assoc]
    refine .silent hstep (.map ?_)
    simpa [signText, String.append_assoc] using h

theorem delivers_lowerParts (hexpand : DeliversNames oracle depth path expand)
    (pendingSign : Bool) (ts : List Token) (levels : List Level) (out : String) :
    Delivers oracle depth ⟨ts, pendingSign, path, levels, out⟩
      (lowerParts expand (parts pendingSign ts))
      fun text => ⟨[], false, path, levels, out ++ text⟩ := by
  have hempty (out : String) : Delivers oracle depth ⟨[], false, path, levels, out⟩
      (lowerParts expand []) fun text => ⟨[], false, path, levels, out ++ text⟩ := by
    rw [lowerParts_nil]
    simpa using Delivers.pure (fun text => ⟨[], false, path, levels, out ++ text⟩) ""
  fun_induction parts pendingSign ts generalizing out with
  | case1 b =>
    cases b with
    | false => exact hempty out
    | true =>
      have h := hempty (out ++ signText true)
      exact delivers_text rfl (fun _ _ => rfl) (by simpa [signText, String.append_assoc] using h)
  | case2 b q ts ih => exact .silent (fun _ _ => rfl) (ih out)
  | case3 b word ts p hword ih =>
    have h := ih (out ++ (p.munch ts).1.code)
    refine delivers_text rfl (fun _ _ => ?_) (by simpa [String.append_assoc] using h)
    simp [step, hword]
  | case4 b word ts hword ih =>
    rw [lowerParts_cons]
    refine .bind (hexpand word ts b levels out hword) fun text => .map ?_
    simpa [String.append_assoc] using ih (out ++ text)
  | case5 b count ts ih => exact delivers_token rfl (fun _ _ => rfl) ih
  | case6 b ts ih => exact delivers_token rfl (fun _ _ => rfl) ih
  | case7 b ts ih => exact delivers_token rfl (fun _ _ => rfl) ih
  | case8 b ts ih => exact delivers_token rfl (fun _ _ => rfl) ih

/-- The members of an aggregate behind its first, up to the closing brace. -/
theorem delivers_members (hexpand : DeliversNames oracle depth path expand) (members : List String)
    (rest : List Token) (levels : List Level) (out : String) :
    Delivers oracle depth ⟨[], false, path, ⟨members, rest⟩ :: levels, out⟩
      (lowerMembers expand members)
      fun texts => ⟨rest, false, path.dropLast, levels, out ++ commaPrefixed texts ++ "\x7d"⟩ := by
  induction members generalizing out with
  | nil =>
    rw [lowerMembers_nil]
    apply Delivers.silent (step_last_member oracle depth path rest levels out)
    simpa [commaPrefixed] using Delivers.pure
      (fun texts => ⟨rest, false, path.dropLast, levels, out ++ commaPrefixed texts ++ "\x7d"⟩) []
  | cons member members ih =>
    rw [lowerMembers_cons]
    refine .silent (fun s events => step_next_member oracle depth path rest levels out s events
      member members) ?_
    refine .bind (delivers_lowerParts hexpand false _ _ _) fun text => .map ?_
    simpa [commaPrefixed, String.append_assoc] using ih (out ++ "," ++ text)

/-- All members of an aggregate that has just been entered, up to the closing brace. -/
theorem delivers_aggregate (hexpand : DeliversNames oracle depth path expand)
    (members : List String) (rest : List Token) (levels : List Level) (out : String) :
    Delivers oracle depth
      ⟨members.head?.elim [] memberTokens, false, path, ⟨members.tail, rest⟩ :: levels, out⟩
      (lowerMembers expand members)
      fun texts => ⟨rest, false, path.dropLast, levels, out ++ commaSeparated texts ++ "\x7d"⟩ := by
  cases members with
  | nil =>
    rw [lowerMembers_nil]
    apply Delivers.silent (step_last_member oracle depth path rest levels out)
    simpa [commaSeparated] using Delivers.pure
      (fun texts => ⟨rest, false, path.dropLast, levels, out ++ commaSeparated texts ++ "\x7d"⟩) []
  | cons member members =>
    rw [lowerMembers_cons]
    refine .bind (delivers_lowerParts hexpand false _ _ _) fun text => .map ?_
    simpa only [commaSeparated_cons, String.append_assoc, List.tail_cons] using
      delivers_members hexpand members rest levels (out ++ text)

end Types

theorem delivers_expand (oracle : Oracle σ) {depth room : Nat} {path : List String}
    (hdepth : path.length + room = depth) :
    DeliversNames oracle depth path (expand oracle depth room path) := by
  induction room using Nat.strongRecOn generalizing path with
  | ind room ih =>
    intro name rest pendingSign levels out hname s events
    have hstep : step oracle depth ⟨⟨.name name :: rest, pendingSign, path, levels, out⟩, s, events⟩ =
        enter oracle depth _ name rest := step_name hname rest pendingSign path levels out s events
    cases expansion oracle depth room path name s with
    | cyclic hmem heq =>
      rw [heq]
      apply Comes.of_halted
      simp [hstep, enter, hmem]
    | tooDeep hmem hroom heq =>
      have hfull : depth ≤ path.length := by omega
      rw [heq]
      apply Comes.of_halted
      simp [hstep, enter, hmem, hfull]
    | refused hmem hroom hanswer heq =>
      have hfree : ¬depth ≤ path.length := by omega
      rw [heq]
      apply Comes.of_halted
      simp [hstep, enter, hmem, hfree, hanswer]
    | unresolved hmem hroom hanswer heq =>
      have hfree : ¬depth ≤ path.length := by omega
      rw [heq]
      apply Comes.of_halted
      simp [hstep, enter, hmem, hfree, hanswer]
    | @opened inner aggregate hmem hroom hanswer heq =>
      have hfree : ¬depth ≤ path.length := by omega
      have hnames : DeliversNames oracle depth (path ++ [name])
          (expand oracle depth inner (path ++ [name])) :=
        ih inner (by omega) (by rw [List.length_append, List.length_singleton]; omega)
      have hinside := delivers_aggregate hnames aggregate.members rest levels (out ++ "\x7b")
        (oracle name s).2 (events ++ oracle.events name s)
      rw [heq]
      refine .of_running ?_ rfl (.map (?_ : Comes oracle depth ⟨⟨aggregate.members.head?.elim []
        memberTokens, false, path ++ [name], ⟨aggregate.members.tail, rest⟩ :: levels,
        out ++ "\x7b"⟩, (oracle name s).2, events ++ oracle.events name s⟩ _ _))
      · simp [hstep, enter, hmem, hfree, hanswer]
      · simpa only [inside, braced, List.dropLast_concat, String.append_assoc] using hinside

/-- The machine halts, with the outcome of the recursive definition. -/
theorem Machine.exists_run_start_eq (oracle : Oracle σ) (depth : Nat) (tokens : List Token) (s : σ) :
    ∃ n, run oracle depth n (start tokens s) = .halted (lowerTokens oracle depth tokens s) := by
  have hnames : DeliversNames oracle depth [] (expand oracle depth depth []) :=
    delivers_expand oracle (Nat.zero_add depth)
  have hcomes := delivers_lowerParts hnames false tokens [] "" s []
  cases hresult : (lowerTokens oracle depth tokens s).result with
  | error e =>
    obtain ⟨n, hn⟩ := hcomes.error e hresult
    refine ⟨n, hn.trans ?_⟩
    rw [List.nil_append, ← hresult]
    rfl
  | ok text =>
    obtain ⟨n, hn⟩ := hcomes.ok text hresult
    refine ⟨n + 1, (run_add hn 1).trans (run_one_of_halted ?_)⟩
    show Next.halted ⟨.ok ("" ++ text), _, _⟩ = _
    rw [String.empty_append, List.nil_append, ← hresult]
    rfl

end DecompConfig.Lowering
