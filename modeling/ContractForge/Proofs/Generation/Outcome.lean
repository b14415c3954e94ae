import ContractForge.Generation.Pass

/-!
# Outcomes of a pass

What `runAll` does, said without its three loops.

* `Makes` : the artifacts that generators make, one generator after another.
* `Accepts` : artifacts that a sink takes one after another.
* `Sink.recording` : a sink that also keeps what it is handed.
* `Outcome` : the four ways in which a pass can end. It stops at the first generator that fails, at
  the first name made twice, at the first artifact that the sink refuses, or not at all.

`runAll_iff_outcome` : a pass ends with a result, a state and a record of what the sink was handed
exactly when these are such an outcome. Each loop of the pass has one lemma for its success and one
for its failure.
-/

namespace ContractForge

variable {σ : Type}

/-- The artifacts that generators make from what is declared, in the order of the generators. -/
inductive Makes (context : PassContext) : List Generator → List Artifact → Prop
  | nil : Makes context [] []
  | cons {g : Generator} {rest : List Generator} {made further : List Artifact}
      (hmade : g.generate context (discover context.declarations g.marker) = .ok made)
      (hfurther : Makes context rest further) : Makes context (g :: rest) (made ++ further)

/-- Artifacts that a sink takes in order, each once and under its own name. -/
inductive Accepts (sink : Sink σ) : σ → List Artifact → σ → Prop
  | nil (state : σ) : Accepts sink state [] state
  | cons {state next final : σ} {a : Artifact} {rest : List Artifact}
      (hwrite : sink.write state a.qualifiedName a = (.ok (), next))
      (hrest : Accepts sink next rest final) : Accepts sink state (a :: rest) final

/-- The sink with a record of what it is handed, whether or not it takes it. -/
def Sink.recording (sink : Sink σ) : Sink (σ × List Artifact) where
  write state name a :=
    match sink.write state.1 name a with
    | (result, next) => (result, next, state.2 ++ [a])

/-- How a pass ends: its result, the state that the sink is left in, and what the sink was handed. -/
inductive Outcome (context : PassContext) (generators : List Generator) (sink : Sink σ) (state : σ) :
    Except GenerationError (List String) → σ → List Artifact → Prop
  /-- The first generator to fail ends the pass before anything is written. -/
  | aborted {before after : List Generator} {g : Generator} {made : List Artifact}
      {cause : GenerationError} (hsplit : generators = before ++ g :: after)
      (hbefore : Makes context before made)
      (hfail : g.generate context (discover context.declarations g.marker) = .error cause) :
      Outcome context generators sink state (.error (.aborted g.name cause)) state []
  /-- The first name that was made before ends the pass before anything is written. -/
  | repeated {before after : List Artifact} {a : Artifact}
      (hmakes : Makes context generators (before ++ a :: after))
      (hnew : (before.map (·.qualifiedName)).Nodup)
      (hold : a.qualifiedName ∈ before.map (·.qualifiedName)) :
      Outcome context generators sink state (.error (.repeatedArtifact a.qualifiedName)) state []
  /-- The first artifact that the sink refuses ends the pass; those before it are written. -/
  | refused {before after : List Artifact} {a : Artifact} {mid final : σ} {cause : GenerationError}
      (hmakes : Makes context generators (before ++ a :: after))
      (hnew : ((before ++ a :: after).map (·.qualifiedName)).Nodup)
      (hbefore : Accepts sink state before mid)
      (hrefused : sink.write mid a.qualifiedName a = (.error cause, final)) :
      Outcome context generators sink state (.error cause) final (before ++ [a])
  /-- Everything is written, and the result lists the names in the order of the writes. -/
  | complete {artifacts : List Artifact} {final : σ} (hmakes : Makes context generators artifacts)
      (hnew : (artifacts.map (·.qualifiedName)).Nodup)
      (haccepts : Accepts sink state artifacts final) :
      Outcome context generators sink state (.ok (artifacts.map (·.qualifiedName))) final artifacts

/-! ### The loop over the generators -/

theorem run_eq_ok_iff {g : Generator} {context : PassContext} {made : List Artifact} :
    g.run context = .ok made ↔
      g.generate context (discover context.declarations g.marker) = .ok made := by
  unfold Generator.run
  cases g.generate context (discover context.declarations g.marker) with
  | ok made => simp
  | error cause => simp

theorem run_eq_error_iff {g : Generator} {context : PassContext} {e : GenerationError} :
    g.run context = .error e ↔
      ∃ cause, g.generate context (discover context.declarations g.marker) = .error cause ∧
        e = .aborted g.name cause := by
  unfold Generator.run
  cases g.generate context (discover context.declarations g.marker) with
  | ok made => simp
  | error cause => simp [eq_comm]

theorem collect_eq_ok_iff {context : PassContext} {generators : List Generator}
    {artifacts : List Artifact} :
    collect context generators = .ok artifacts ↔ Makes context generators artifacts := by
  induction generators generalizing artifacts with
  | nil =>
    constructor
    · intro h
      cases h
      exact .nil
    · rintro ⟨⟩
      rfl
  | cons g rest ih =>
    constructor
    · intro h
      rw [collect] at h
      split at h
      next => cases h
      next made hrun =>
        split at h
        next => cases h
        next further hcollect =>
          cases h
          exact .cons (run_eq_ok_iff.mp hrun) (ih.mp hcollect)
    · intro h
      cases h with
      | cons hmade hfurther =>
        have hrun := run_eq_ok_iff.mpr hmade
        have hcollect := ih.mpr hfurther
        simp only [collect, hrun, hcollect]

/-- Every generator of a pass has made artifacts, and none of them is left out. -/
theorem Makes.exists_of_mem {context : PassContext} {generators : List Generator}
    {artifacts : List Artifact} (h : Makes context generators artifacts) {g : Generator}
    (hg : g ∈ generators) :
    ∃ made, g.generate context (discover context.declarations g.marker) = .ok made ∧
      ∀ a ∈ made, a ∈ artifacts := by
  induction h with
  | nil => cases hg
  | cons hmade hfurther ih =>
    rcases List.mem_cons.mp hg with rfl | hrest
    · exact ⟨_, hmade, fun a ha => List.mem_append_left _ ha⟩
    · obtain ⟨made, hmade', hsub⟩ := ih hrest
      exact ⟨made, hmade', fun a ha => List.mem_append_right _ (hsub a ha)⟩

/-- Collecting fails with the first generator that fails, and names it. -/
theorem collect_eq_error_iff {context : PassContext} {generators : List Generator}
    {e : GenerationError} :
    collect context generators = .error e ↔
      ∃ before g after made cause, generators = before ++ g :: after ∧ Makes context before made ∧
        g.generate context (discover context.declarations g.marker) = .error cause ∧
        e = .aborted g.name cause := by
  induction generators with
  | nil =>
    constructor
    · intro h
      cases h
    · rintro ⟨before, g, after, made, cause, hsplit, -⟩
      simp at hsplit
  | cons g rest ih =>
    constructor
    · intro h
      rw [collect] at h
      split at h
      next e' hrun =>
        cases h
        obtain ⟨cause, hfail, rfl⟩ := run_eq_error_iff.mp hrun
        exact ⟨[], g, rest, [], cause, rfl, .nil, hfail, rfl⟩
      next made hrun =>
        split at h
        next e' hcollect =>
          cases h
          obtain ⟨before, g', after, further, cause, rfl, hbefore, hfail, rfl⟩ := ih.mp hcollect
          exact ⟨g :: before, g', after, made ++ further, cause, rfl,
            .cons (run_eq_ok_iff.mp hrun) hbefore, hfail, rfl⟩
        next => cases h
    · rintro ⟨before, g', after, made, cause, hsplit, hbefore, hfail, rfl⟩
      cases hbefore with
      | nil =>
        obtain ⟨rfl, rfl⟩ := List.cons.inj hsplit
        have hrun : g.run context = .error (.aborted g.name cause) :=
          run_eq_error_iff.mpr ⟨cause, hfail, rfl⟩
        simp only [collect, hrun]
      | cons hmade hfurther =>
        obtain ⟨rfl, rfl⟩ := List.cons.inj hsplit
        have hrun := run_eq_ok_iff.mpr hmade
        have hcollect := ih.mpr ⟨_, g', after, _, cause, rfl, hfurther, hfail, rfl⟩
        simp only [collect, hrun, hcollect]

/-! ### The search for a repeated name -/

/-- A name that is new may stand before the others or among those seen. -/
theorem nodup_cons_fresh_iff {name : String} {names seen : List String} (hseen : name ∉ seen) :
    ((name :: names).Nodup ∧ ∀ other ∈ name :: names, other ∉ seen) ↔
      names.Nodup ∧ ∀ other ∈ names, other ∉ name :: seen := by
  rw [List.nodup_cons]
  constructor
  · rintro ⟨⟨hnew, hnodup⟩, hfresh⟩
    refine ⟨hnodup, fun other hmem hold => ?_⟩
    rcases List.mem_cons.mp hold with rfl | hold
    · exact hnew hmem
    · exact hfresh other (List.mem_cons_of_mem _ hmem) hold
  · rintro ⟨hnodup, hfresh⟩
    have hnew : name ∉ names := fun hmem => hfresh name hmem List.mem_cons_self
    refine ⟨⟨hnew, hnodup⟩, fun other hmem => ?_⟩
    rcases List.mem_cons.mp hmem with rfl | hmem
    · exact hseen
    · exact fun hold => hfresh other hmem (List.mem_cons_of_mem _ hold)

theorem firstRepeated?_eq_none_iff {seen names : List String} :
    firstRepeated? seen names = none ↔ names.Nodup ∧ ∀ name ∈ names, name ∉ seen := by
  induction names generalizing seen with
  | nil => simp [firstRepeated?]
  | cons name rest ih =>
    rw [firstRepeated?]
    split
    next hseen => simp [hseen]
    next hseen => rw [ih, nodup_cons_fresh_iff hseen]

theorem firstRepeated?_nil_eq_none_iff {names : List String} :
    firstRepeated? [] names = none ↔ names.Nodup := by
  simp [firstRepeated?_eq_none_iff]

/-- The name found is one that was there before, and no name before it was. -/
theorem firstRepeated?_eq_some_iff {seen names : List String} {found : String} :
    firstRepeated? seen names = some found ↔
      ∃ before after, names = before ++ found :: after ∧ before.Nodup ∧
        (∀ name ∈ before, name ∉ seen) ∧ (found ∈ before ∨ found ∈ seen) := by
  induction names generalizing seen with
  | nil => simp [firstRepeated?]
  | cons name rest ih =>
    rw [firstRepeated?]
    split
    next hseen =>
      constructor
      · intro h
        obtain rfl := Option.some.inj h
        exact ⟨[], rest, rfl, List.nodup_nil, by simp, .inr hseen⟩
      · rintro ⟨before, after, hsplit, -, hfresh, -⟩
        cases before with
        | nil => rw [(List.cons.inj hsplit).1]
        | cons first before =>
          obtain ⟨rfl, -⟩ := List.cons.inj hsplit
          exact absurd hseen (hfresh name List.mem_cons_self)
    next hseen =>
      have hmove : ∀ before : List String,
          (found ∈ before ∨ found ∈ name :: seen) ↔ (found ∈ name :: before ∨ found ∈ seen) := by
        intro before
        rw [List.mem_cons, List.mem_cons, or_left_comm, or_assoc]
      rw [ih]
      constructor
      · rintro ⟨before, after, rfl, hnodup, hfresh, hold⟩
        obtain ⟨hnodup, hfresh⟩ := (nodup_cons_fresh_iff hseen).mpr ⟨hnodup, hfresh⟩
        exact ⟨name :: before, after, rfl, hnodup, hfresh, (hmove before).mp hold⟩
      · rintro ⟨before, after, hsplit, hnodup, hfresh, hold⟩
        cases before with
        | nil =>
          obtain ⟨rfl, -⟩ := List.cons.inj hsplit
          rcases hold with hold | hold
          · simp at hold
          · exact absurd hold hseen
        | cons first before =>
          obtain ⟨rfl, rfl⟩ := List.cons.inj hsplit
          obtain ⟨hnodup, hfresh⟩ := (nodup_cons_fresh_iff hseen).mp ⟨hnodup, hfresh⟩
          exact ⟨before, after, rfl, hnodup, hfresh, (hmove before).mpr hold⟩

/-! ### The loop over the writes -/

theorem writeAll_eq_ok_iff {sink : Sink σ} {state final : σ} {artifacts : List Artifact} :
    writeAll sink state artifacts = (.ok (), final) ↔ Accepts sink state artifacts final := by
  induction artifacts generalizing state with
  | nil =>
    constructor
    · intro h
      cases h
      exact .nil _
    · rintro ⟨⟩
      rfl
  | cons a rest ih =>
    constructor
    · intro h
      rw [writeAll] at h
      split at h
      next next hwrite => exact .cons hwrite (ih.mp h)
      next => cases h
    · intro h
      cases h with
      | cons hwrite hrest =>
        have hall := ih.mpr hrest
        simp only [writeAll, hwrite, hall]

/-- Writing fails with the first artifact that is refused, after those before it are taken. -/
theorem writeAll_eq_error_iff {sink : Sink σ} {state final : σ} {artifacts : List Artifact}
    {cause : GenerationError} :
    writeAll sink state artifacts = (.error cause, final) ↔
      ∃ before a after mid, artifacts = before ++ a :: after ∧ Accepts sink state before mid ∧
        sink.write mid a.qualifiedName a = (.error cause, final) := by
  induction artifacts generalizing state with
  | nil =>
    constructor
    · intro h
      cases h
    · rintro ⟨before, a, after, mid, hsplit, -⟩
      simp at hsplit
  | cons a rest ih =>
    constructor
    · intro h
      rw [writeAll] at h
      split at h
      next next hwrite =>
        obtain ⟨before, b, after, mid, rfl, hbefore, hrefused⟩ := ih.mp h
        exact ⟨a :: before, b, after, mid, rfl, .cons hwrite hbefore, hrefused⟩
      next e next hwrite =>
        cases h
        exact ⟨[], a, rest, _, rfl, .nil _, hwrite⟩
    · rintro ⟨before, b, after, mid, hsplit, hbefore, hrefused⟩
      cases hbefore with
      | nil =>
        obtain ⟨rfl, rfl⟩ := List.cons.inj hsplit
        simp only [writeAll, hrefused]
      | cons hwrite hrest =>
        obtain ⟨rfl, rfl⟩ := List.cons.inj hsplit
        have hall := ih.mpr ⟨_, b, after, mid, rfl, hrest, hrefused⟩
        simp only [writeAll, hwrite, hall]

/-! ### The whole pass -/

theorem map_eq_append_cons {before after : List String} {name : String} {artifacts : List Artifact}
    (h : artifacts.map (·.qualifiedName) = before ++ name :: after) :
    ∃ first a last, artifacts = first ++ a :: last ∧ first.map (·.qualifiedName) = before ∧
      a.qualifiedName = name := by
  obtain ⟨first, rest, rfl, hfirst, hrest⟩ := List.map_eq_append_iff.mp h
  obtain ⟨a, last, rfl, hname, -⟩ := List.map_eq_cons_iff.mp hrest
  exact ⟨first, a, last, rfl, hfirst, hname⟩

theorem outcome_of_runAll {context : PassContext} {generators : List Generator} {sink : Sink σ}
    {state final : σ} {result : Except GenerationError (List String)}
    (h : runAll context generators sink state = (result, final)) :
    ∃ received, Outcome context generators sink state result final received := by
  unfold runAll at h
  split at h
  next e hcollect =>
    obtain ⟨before, g, after, made, cause, hsplit, hbefore, hfail, rfl⟩ :=
      collect_eq_error_iff.mp hcollect
    cases h
    exact ⟨[], .aborted hsplit hbefore hfail⟩
  next artifacts hcollect =>
    have hmakes := collect_eq_ok_iff.mp hcollect
    dsimp only at h
    split at h
    next name hrepeated =>
      obtain ⟨before, after, hsplit, hnodup, -, hold⟩ := firstRepeated?_eq_some_iff.mp hrepeated
      obtain ⟨first, a, last, rfl, rfl, rfl⟩ := map_eq_append_cons hsplit
      cases h
      exact ⟨[], .repeated hmakes hnodup (by simpa using hold)⟩
    next hnone =>
      have hnew := firstRepeated?_nil_eq_none_iff.mp hnone
      split at h
      next cause next hwrite =>
        obtain ⟨before, a, after, mid, rfl, hbefore, hrefused⟩ := writeAll_eq_error_iff.mp hwrite
        cases h
        exact ⟨before ++ [a], .refused hmakes hnew hbefore hrefused⟩
      next next hwrite =>
        cases h
        exact ⟨artifacts, .complete hmakes hnew (writeAll_eq_ok_iff.mp hwrite)⟩

/-- A pass that succeeds has written all that was made. -/
theorem complete_of_runAll {context : PassContext} {generators : List Generator} {sink : Sink σ}
    {state final : σ} {names : List String}
    (h : runAll context generators sink state = (.ok names, final)) :
    ∃ artifacts, Makes context generators artifacts ∧ Accepts sink state artifacts final ∧
      names = artifacts.map (·.qualifiedName) ∧ names.Nodup := by
  obtain ⟨received, houtcome⟩ := outcome_of_runAll h
  cases houtcome with
  | complete hmakes hnew haccepts => exact ⟨received, hmakes, haccepts, rfl, hnew⟩

/-- The artifact is one of those that the generators make. -/
def Made (context : PassContext) (generators : List Generator) (a : Artifact) : Prop :=
  ∃ artifacts, Makes context generators artifacts ∧ a ∈ artifacts

/-- A made artifact is that of one of the generators. -/
theorem Made.exists_generator {context : PassContext} {generators : List Generator} {a : Artifact}
    (h : Made context generators a) :
    ∃ g ∈ generators, ∃ made,
      g.generate context (discover context.declarations g.marker) = .ok made ∧ a ∈ made := by
  obtain ⟨artifacts, hmakes, ha⟩ := h
  induction hmakes with
  | nil => cases ha
  | cons hmade hfurther ih =>
    rcases List.mem_append.mp ha with hfirst | hlater
    · exact ⟨_, List.mem_cons_self, _, hmade, hfirst⟩
    · obtain ⟨g, hg, hgenerates⟩ := ih hlater
      exact ⟨g, List.mem_cons_of_mem _ hg, hgenerates⟩

/-- What every write of an artifact keeps, all of them keep, up to one that is refused. -/
theorem writeAll_keeps {sink : Sink σ} {I : σ → Prop} {artifacts : List Artifact}
    (hstep : ∀ state, ∀ a ∈ artifacts, I state → I (sink.write state a.qualifiedName a).2)
    {state : σ} (h : I state) : I (writeAll sink state artifacts).2 := by
  induction artifacts generalizing state with
  | nil => exact h
  | cons a rest ih =>
    have hnext := hstep state a List.mem_cons_self h
    rw [writeAll]
    split
    next next hwrite =>
      rw [hwrite] at hnext
      exact ih (fun state b hb => hstep state b (List.mem_cons_of_mem _ hb)) hnext
    next e next hwrite =>
      rw [hwrite] at hnext
      exact hnext

/-- What every write of a made artifact keeps, a pass keeps, however it ends. -/
theorem runAll_keeps {context : PassContext} {generators : List Generator} {sink : Sink σ}
    {I : σ → Prop}
    (hstep : ∀ state a, Made context generators a → I state →
      I (sink.write state a.qualifiedName a).2)
    {state : σ} (h : I state) : I (runAll context generators sink state).2 := by
  unfold runAll
  split
  next => exact h
  next artifacts hcollect =>
    have hmakes := collect_eq_ok_iff.mp hcollect
    have hall : I (writeAll sink state artifacts).2 :=
      writeAll_keeps (fun state a ha => hstep state a ⟨artifacts, hmakes, ha⟩) h
    dsimp only
    split
    next => exact h
    next =>
      split
      next hwrite =>
        rw [hwrite] at hall
        exact hall
      next hwrite =>
        rw [hwrite] at hall
        exact hall

theorem runAll_of_toOption {context : PassContext} {generators : List Generator} {sink : Sink σ}
    {state : σ} {names : List String}
    (h : (runAll context generators sink state).1.toOption = some names) :
    runAll context generators sink state = (.ok names, (runAll context generators sink state).2) := by
  revert h
  rcases runAll context generators sink state with ⟨cause | made, final⟩
  · intro h
    cases h
  · intro h
    obtain rfl := Option.some.inj h
    rfl

theorem exists_names_of_isOk {context : PassContext} {generators : List Generator} {sink : Sink σ}
    {state : σ} (h : (runAll context generators sink state).1.isOk = true) :
    ∃ names, runAll context generators sink state =
      (.ok names, (runAll context generators sink state).2) := by
  revert h
  rcases runAll context generators sink state with ⟨cause | names, final⟩
  · intro h
    cases h
  · exact fun _ => ⟨names, rfl⟩

/-- A pass that makes a name twice writes nothing. -/
theorem runAll_of_repeated {context : PassContext} {generators : List Generator}
    {artifacts : List Artifact} (hcollect : collect context generators = .ok artifacts)
    (h : ¬(artifacts.map (·.qualifiedName)).Nodup) (sink : Sink σ) (state : σ) :
    ∃ name, runAll context generators sink state = (.error (.repeatedArtifact name), state) := by
  cases hfirst : firstRepeated? [] (artifacts.map (·.qualifiedName)) with
  | none => exact absurd (firstRepeated?_nil_eq_none_iff.mp hfirst) h
  | some name => exact ⟨name, by simp only [runAll, hcollect, hfirst]⟩

theorem runAll_of_outcome {context : PassContext} {generators : List Generator} {sink : Sink σ}
    {state final : σ} {result : Except GenerationError (List String)} {received : List Artifact}
    (h : Outcome context generators sink state result final received) :
    runAll context generators sink state = (result, final) := by
  unfold runAll
  cases h with
  | aborted hsplit hbefore hfail =>
    have hcollect := collect_eq_error_iff.mpr ⟨_, _, _, _, _, hsplit, hbefore, hfail, rfl⟩
    simp only [hcollect]
  | @repeated before after a hmakes hnew hold =>
    have hcollect := collect_eq_ok_iff.mpr hmakes
    have hfound : firstRepeated? [] ((before ++ a :: after).map (·.qualifiedName)) =
        some a.qualifiedName :=
      firstRepeated?_eq_some_iff.mpr ⟨_, after.map (·.qualifiedName), by simp, hnew, by simp, .inl hold⟩
    simp only [hcollect, hfound]
  | @refused before after a mid _ cause hmakes hnew hbefore hrefused =>
    have hcollect := collect_eq_ok_iff.mpr hmakes
    have hnone := firstRepeated?_nil_eq_none_iff.mpr hnew
    have hwrite : writeAll sink state (before ++ a :: after) = (.error cause, final) :=
      writeAll_eq_error_iff.mpr ⟨before, a, after, mid, rfl, hbefore, hrefused⟩
    simp only [hcollect, hnone, hwrite]
  | complete hmakes hnew haccepts =>
    have hcollect := collect_eq_ok_iff.mpr hmakes
    have hnone := firstRepeated?_nil_eq_none_iff.mpr hnew
    have hwrite := writeAll_eq_ok_iff.mpr haccepts
    simp only [hcollect, hnone, hwrite]

/-! ### The record of a pass -/

theorem accepts_recording_iff {sink : Sink σ} {state final : σ} {log log' artifacts : List Artifact} :
    Accepts sink.recording (state, log) artifacts (final, log') ↔
      Accepts sink state artifacts final ∧ log' = log ++ artifacts := by
  induction artifacts generalizing state log with
  | nil =>
    constructor
    · rintro ⟨⟩
      exact ⟨.nil _, by simp⟩
    · rintro ⟨⟨⟩, rfl⟩
      rw [List.append_nil]
      exact .nil _
  | cons a rest ih =>
    constructor
    · rintro (_ | ⟨hwrite, hrest⟩)
      obtain ⟨hstep, hnext⟩ := Prod.mk.inj hwrite
      subst hnext
      obtain ⟨haccepts, rfl⟩ := ih.mp hrest
      exact ⟨.cons (Prod.ext hstep rfl) haccepts, by simp⟩
    · rintro ⟨h, rfl⟩
      cases h with
      | @cons _ next _ _ _ hwrite hrest =>
        have hstep : sink.recording.write (state, log) a.qualifiedName a =
            (.ok (), next, log ++ [a]) := by
          simp only [Sink.recording, hwrite]
        exact .cons hstep (ih.mpr ⟨hrest, by simp⟩)

/-- A recording sink ends a pass as the sink itself does, and its record is what was handed over. -/
theorem outcome_recording_iff {context : PassContext} {generators : List Generator} {sink : Sink σ}
    {state final : σ} {result : Except GenerationError (List String)}
    {log received : List Artifact} :
    Outcome context generators sink.recording (state, []) result (final, log) received ↔
      Outcome context generators sink state result final received ∧ log = received := by
  constructor
  · intro h
    cases h with
    | aborted hsplit hbefore hfail => exact ⟨.aborted hsplit hbefore hfail, rfl⟩
    | repeated hmakes hnew hold => exact ⟨.repeated hmakes hnew hold, rfl⟩
    | @refused before after a mid _ cause hmakes hnew hbefore hrefused =>
      obtain ⟨hbefore, hlog⟩ := accepts_recording_iff.mp hbefore
      obtain ⟨hstep, hnext⟩ := Prod.mk.inj hrefused
      obtain ⟨rfl, rfl⟩ := Prod.mk.inj hnext
      exact ⟨.refused hmakes hnew hbefore (Prod.ext hstep rfl), by rw [hlog, List.nil_append]⟩
    | complete hmakes hnew haccepts =>
      obtain ⟨haccepts, rfl⟩ := accepts_recording_iff.mp haccepts
      exact ⟨.complete hmakes hnew haccepts, rfl⟩
  · rintro ⟨h, rfl⟩
    cases h with
    | aborted hsplit hbefore hfail => exact .aborted hsplit hbefore hfail
    | repeated hmakes hnew hold => exact .repeated hmakes hnew hold
    | @refused before after a mid _ cause hmakes hnew hbefore hrefused =>
      refine .refused hmakes hnew (accepts_recording_iff.mpr ⟨hbefore, rfl⟩) ?_
      simp only [Sink.recording, hrefused, List.nil_append]
    | complete hmakes hnew haccepts =>
      exact .complete hmakes hnew (accepts_recording_iff.mpr ⟨haccepts, rfl⟩)

/-- **A pass is all or nothing.** With any generators, any sink and any state of it, a pass ends
exactly as an `Outcome` says, and what the sink was handed is the record of that outcome: nothing at
all unless every generator succeeds and all names are different. The root cause of an abort is the
root cause of the failure that the generator gave. -/
theorem runAll_iff_outcome (context : PassContext) (generators : List Generator) (sink : Sink σ)
    (state final : σ) (result : Except GenerationError (List String)) (received : List Artifact) :
    (runAll context generators sink.recording (state, []) = (result, final, received) ↔
      Outcome context generators sink state result final received) ∧
    (runAll context generators sink state = (result, final) ↔
      ∃ handed, Outcome context generators sink state result final handed) ∧
    ∀ name cause, (GenerationError.aborted name cause).rootCause = cause.rootCause := by
  refine ⟨⟨fun h => ?_, fun h => ?_⟩, ⟨outcome_of_runAll, ?_⟩, fun _ _ => rfl⟩
  · obtain ⟨handed, houtcome⟩ := outcome_of_runAll h
    obtain ⟨houtcome, rfl⟩ := outcome_recording_iff.mp houtcome
    exact houtcome
  · exact runAll_of_outcome (outcome_recording_iff.mpr ⟨h, rfl⟩)
  · rintro ⟨handed, houtcome⟩
    exact runAll_of_outcome houtcome

end ContractForge
