import ContractForge.CommandLine.Arguments
import Mathlib.Data.List.TakeDrop

/-!
# Arguments and the dry run

* `Reads` : the options that arguments give, one constructor for each kind of argument.
* `Given.Alike` : the same options are given, but for the flag that asks for a dry run.
* `withoutDryRun`, `withDryRun` : the same arguments without that flag and with it.

A command line that asks to generate does so without the flag and with it, and nothing else that it
asks for depends on the flag (`parse_withoutDryRun`, `parse_withDryRun`).
-/

namespace ContractForge.CommandLine

/-! ### Arguments that are taken -/

/-- The argument names a long option. -/
def IsLong (arg name : String) (attached : Option String) : Prop :=
  ∃ long, arg.toList = '-' :: '-' :: long ∧ long ≠ [] ∧ splitLong long = (name, attached)

/-- The option asks for help or for the version. -/
def Options.Asks (o : Options) (name : String) : Prop :=
  name = "help" ∨ name = "version" ∧ o.hasVersion = true

/-- The options that arguments give, on top of those that are given. -/
inductive Reads (o : Options) : Given → List String → Given → Prop
  | nil (g : Given) : Reads o g [] g
  | ends {g g' : Given} {rest : List String}
      (hrest : rest.foldlM (Given.addPositional? o) g = some g') : Reads o g ("--" :: rest) g'
  | flag {g mid g' : Given} {arg name : String} {rest : List String}
      (hlong : IsLong arg name none) (hasks : ¬o.Asks name) (hflag : name ∈ o.flags)
      (hadd : g.addFlag? name = some mid) (hrest : Reads o mid rest g') :
      Reads o g (arg :: rest) g'
  | attached {g mid g' : Given} {arg name value : String} {rest : List String}
      (hlong : IsLong arg name (some value)) (hflag : name ∉ o.flags)
      (hvalued : o.valued.any (·.1 == name)) (hadd : g.addValue? o name value = some mid)
      (hrest : Reads o mid rest g') : Reads o g (arg :: rest) g'
  | separate {g mid g' : Given} {arg name value : String} {rest : List String}
      (hlong : IsLong arg name none) (hasks : ¬o.Asks name) (hflag : name ∉ o.flags)
      (hvalued : o.valued.any (·.1 == name)) (hvalue : ¬looksLikeOption value)
      (hadd : g.addValue? o name value = some mid) (hrest : Reads o mid rest g') :
      Reads o g (arg :: value :: rest) g'
  | short {g mid g' : Given} {arg : String} {c : Char} {letters : List Char} {rest : List String}
      (harg : arg.toList = '-' :: c :: letters) (hc : c ≠ '-')
      (hshort : readShort o g (c :: letters) = .given mid) (hrest : Reads o mid rest g') :
      Reads o g (arg :: rest) g'
  | positional {g mid g' : Given} {arg : String} {rest : List String}
      (harg : ¬looksLikeOption arg) (hadd : g.addPositional? o arg = some mid)
      (hrest : Reads o mid rest g') : Reads o g (arg :: rest) g'

variable {o : Options} {g g' : Given} {args : List String}

theorem not_asks_iff {name : String} :
    ¬o.Asks name ↔ ¬(decide (name = "help") && (none : Option String).isNone) = true ∧
      ¬(decide (name = "version") && (none : Option String).isNone && o.hasVersion) = true := by
  simp [Options.Asks]

theorem looksLikeOption_iff {arg : String} :
    looksLikeOption arg = true ↔ ∃ c letters, arg.toList = '-' :: c :: letters := by
  unfold looksLikeOption
  split
  next c letters harg => simp [harg]
  next hnone => simpa using hnone

theorem reads_of_readOptions (hread : readOptions o g args = .given g') : Reads o g args g' := by
  fun_induction readOptions o g args with
  | case1 g =>
    obtain rfl := Reading.given.inj hread
    exact .nil g
  | case2 g arg rest harg next hrest =>
    obtain rfl := Reading.given.inj hread
    obtain rfl : arg = "--" := String.toList_inj.mp harg
    exact .ends hrest
  | case6 g arg rest long hlong harg name hflag mid hadd hsplit hhelp hversion ih =>
    exact .flag ⟨long, harg, hlong, hsplit⟩ (not_asks_iff.mpr ⟨hhelp, hversion⟩) hflag hadd
      (ih hread)
  | case8 g arg long hlong harg name hflag hvalued value rest mid hadd hsplit _ _ ih =>
    exact .attached ⟨long, harg, hlong, hsplit⟩ hflag hvalued hadd (ih hread)
  | case11 g arg long hlong harg name hflag hvalued value rest hvalue mid hadd hsplit hhelp hversion
      ih =>
    exact .separate ⟨long, harg, hlong, hsplit⟩ (not_asks_iff.mpr ⟨hhelp, hversion⟩) hflag hvalued
      hvalue hadd (ih hread)
  | case15 g arg rest c letters _ hc harg mid hshort ih =>
    exact .short harg hc hshort (ih hread)
  | case17 g arg rest mid hadd _ _ harg ih =>
    refine .positional (fun hlooks => ?_) hadd (ih hread)
    obtain ⟨c, letters, hletters⟩ := looksLikeOption_iff.mp hlooks
    exact harg c letters hletters
  | case16 g arg rest c letters _ hc harg hshort =>
    exact absurd hread (hshort g')
  | _ => cases hread

theorem readOptions_of_reads (hreads : Reads o g args g') : readOptions o g args = .given g' := by
  induction hreads with
  | nil g => rfl
  | ends hrest =>
    have harg : "--".toList = ['-', '-'] := by decide
    simp only [readOptions, harg, hrest]
  | @flag g mid g' arg name rest hlong hasks hflag hadd _ ih =>
    obtain ⟨_ | ⟨c, long⟩, harg, hne, hsplit⟩ := hlong
    · exact absurd rfl hne
    obtain ⟨hhelp, hversion⟩ := not_asks_iff.mp hasks
    simp only [readOptions, harg, hsplit, if_neg hhelp, if_neg hversion, if_pos hflag, hadd, ih]
  | @attached g mid g' arg name value rest hlong hflag hvalued hadd _ ih =>
    obtain ⟨_ | ⟨c, long⟩, harg, hne, hsplit⟩ := hlong
    · exact absurd rfl hne
    simp [readOptions, harg, hsplit, hflag, hvalued, hadd, ih]
  | @separate g mid g' arg name value rest hlong hasks hflag hvalued hvalue hadd _ ih =>
    obtain ⟨_ | ⟨c, long⟩, harg, hne, hsplit⟩ := hlong
    · exact absurd rfl hne
    obtain ⟨hhelp, hversion⟩ := not_asks_iff.mp hasks
    simp only [readOptions, harg, hsplit, if_neg hhelp, if_neg hversion, if_neg hflag, if_pos hvalued,
      if_neg hvalue, hadd, ih]
  | @short g mid g' arg c letters rest harg hc hshort _ ih =>
    simp [readOptions, harg, hc, hshort, ih]
  | @positional g mid g' arg rest harg hadd _ ih =>
    rw [readOptions]
    split
    next hends => exact absurd (looksLikeOption_iff.mpr ⟨_, _, hends⟩) harg
    next hlong => exact absurd (looksLikeOption_iff.mpr ⟨_, _, hlong⟩) harg
    next hshort => exact absurd (looksLikeOption_iff.mpr ⟨_, _, hshort⟩) harg
    next => simp only [hadd, ih]

/-! ### The flag for a dry run -/

/-- The arguments without the flag for a dry run. -/
def withoutDryRun (args : List String) : List String :=
  args.filter (· ≠ "--dry-run")

/-- The arguments with the flag for a dry run behind the name of the subcommand. -/
def insertDryRun : List String → List String
  | [] => []
  | arg :: rest =>
    if arg = "generate" then arg :: "--dry-run" :: rest else arg :: insertDryRun rest

/-- The arguments with the flag for a dry run, which is put in if it is not there. -/
def withDryRun (args : List String) : List String :=
  if "--dry-run" ∈ args then args else insertDryRun args

/-- The same options are given, but the flag for a dry run only if it is `asked` for. -/
structure Given.Alike (g : Given) (asked : Bool) (k : Given) : Prop where
  values : k.values = g.values
  positionals : k.positionals = g.positionals
  flags : ∀ name, name ≠ "dry-run" → (name ∈ k.flags ↔ name ∈ g.flags)
  dryRun : "dry-run" ∈ k.flags ↔ asked = true

namespace Given.Alike

variable {g g' k : Given} {asked : Bool}

theorem value? (h : g.Alike asked k) (name : String) : k.value? name = g.value? name := by
  rw [Given.value?, Given.value?, h.values]

theorem addFlag? {name : String} (h : g.Alike asked k) (hname : name ≠ "dry-run")
    (hadd : g.addFlag? name = some g') : ∃ k', k.addFlag? name = some k' ∧ g'.Alike asked k' := by
  unfold Given.addFlag? at hadd ⊢
  split at hadd
  next => cases hadd
  next hnew =>
    obtain rfl := Option.some.inj hadd
    rw [if_neg fun hmem => hnew ((h.flags name hname).mp hmem)]
    refine ⟨_, rfl, h.values, h.positionals, fun other hother => ?_, ?_⟩
    · rw [List.mem_cons, List.mem_cons, h.flags other hother]
    · rw [List.mem_cons, or_iff_right hname.symm, h.dryRun]

/-- The flag for a dry run itself makes no difference. -/
theorem addFlag?_dryRun (h : g.Alike asked k) (hadd : g.addFlag? "dry-run" = some g') :
    g'.Alike asked k := by
  unfold Given.addFlag? at hadd
  split at hadd
  next => cases hadd
  next =>
    obtain rfl := Option.some.inj hadd
    refine ⟨h.values, h.positionals, fun name hname => ?_, h.dryRun⟩
    rw [List.mem_cons, or_iff_right hname, h.flags name hname]

theorem addValue? {o : Options} {name value : String} (h : g.Alike asked k)
    (hadd : g.addValue? o name value = some g') :
    ∃ k', k.addValue? o name value = some k' ∧ g'.Alike asked k' := by
  unfold Given.addValue? at hadd ⊢
  rw [h.value?]
  split at hadd
  next => cases hadd
  next hnew =>
    obtain rfl := Option.some.inj hadd
    rw [if_neg hnew]
    exact ⟨_, rfl, congrArg (_ :: ·) h.values, h.positionals, h.flags, h.dryRun⟩

theorem readShort {o : Options} {letters : List Char} (h : g.Alike asked k)
    (hread : readShort o g letters = .given g') :
    ∃ k', CommandLine.readShort o k letters = .given k' ∧ g'.Alike asked k' := by
  fun_induction CommandLine.readShort o g letters generalizing k with
  | case1 g =>
    obtain rfl := Reading.given.inj hread
    exact ⟨k, rfl, h⟩
  | case5 g rest mid hadd ih =>
    obtain ⟨next, hnext, halike⟩ := h.addFlag? (by decide) hadd
    rw [CommandLine.readShort, hnext]
    exact ih halike hread
  | _ => cases hread

end Given.Alike

theorem toList_of_splitLong {long : List Char} {name : String} (h : splitLong long = (name, none)) :
    long = name.toList := by
  unfold splitLong at h
  split at h
  next => cases h
  next front hspan =>
    obtain rfl := (Prod.mk.inj h).1
    rw [List.span_eq_takeWhile_dropWhile, Prod.mk.injEq] at hspan
    have happend := List.takeWhile_append_dropWhile (p := fun c => decide (c ≠ '=')) (l := long)
    rw [hspan.1, hspan.2, List.append_nil] at happend
    rw [← happend, String.toList_ofList]

/-- The flag for a dry run is written in one way. -/
theorem isLong_dryRun_iff {arg : String} : IsLong arg "dry-run" none ↔ arg = "--dry-run" := by
  constructor
  · rintro ⟨long, harg, -, hsplit⟩
    rw [toList_of_splitLong hsplit] at harg
    exact String.toList_inj.mp harg
  · rintro rfl
    exact ⟨"dry-run".toList, by decide, by decide, by decide⟩

theorem IsLong.ne_dryRun {arg name : String} {attached : Option String}
    (h : IsLong arg name attached) (hother : name = "dry-run" → attached ≠ none) :
    arg ≠ "--dry-run" := by
  rintro rfl
  obtain ⟨long, harg, -, hsplit⟩ := h
  obtain rfl : "dry-run".toList = long := (List.cons.inj (List.cons.inj harg).2).2
  have hdry : splitLong "dry-run".toList = ("dry-run", none) := by decide
  obtain ⟨rfl, rfl⟩ := Prod.mk.inj (hsplit.symm.trans hdry)
  exact hother rfl rfl

theorem withoutDryRun_cons_of_ne {arg : String} (h : arg ≠ "--dry-run") (rest : List String) :
    withoutDryRun (arg :: rest) = arg :: withoutDryRun rest :=
  List.filter_cons_of_pos (by simp [h])

theorem addPositional?_generate (g : Given) (arg : String) :
    g.addPositional? generateOptions arg = none :=
  if_neg (Nat.not_lt_zero _)

/-- No other argument of `generate` is taken for the flag. -/
theorem ne_dryRun_of_toList {arg : String} {c : Char} {letters : List Char}
    (harg : arg.toList = '-' :: c :: letters) (hc : c ≠ '-') : arg ≠ "--dry-run" := by
  rintro rfl
  have hdash : '-' :: '-' :: "dry-run".toList = '-' :: c :: letters := harg
  exact hc (List.cons.inj (List.cons.inj hdash).2).1.symm

theorem ne_dryRun_of_not_looksLikeOption {arg : String} (h : ¬looksLikeOption arg) :
    arg ≠ "--dry-run" := by
  rintro rfl
  exact h (by decide)

/-- What arguments without the flag give is what they give with it, but for the flag. -/
theorem Reads.alike {k : Given} {asked : Bool} (hreads : Reads generateOptions g args g')
    (h : g.Alike asked k) :
    ∃ k', Reads generateOptions k (withoutDryRun args) k' ∧ g'.Alike asked k' := by
  induction hreads generalizing k with
  | nil g => exact ⟨k, .nil k, h⟩
  | @ends g g' rest hrest =>
    rw [withoutDryRun_cons_of_ne (by decide)]
    cases rest with
    | nil =>
      obtain rfl := Option.some.inj hrest
      exact ⟨k, .ends rfl, h⟩
    | cons arg rest =>
      rw [List.foldlM_cons, addPositional?_generate] at hrest
      cases hrest
  | @flag g mid g' arg name rest hlong hasks hflag hadd _ ih =>
    by_cases hname : name = "dry-run"
    · subst hname
      obtain rfl := isLong_dryRun_iff.mp hlong
      exact ih (h.addFlag?_dryRun hadd)
    · obtain ⟨mid', hadd', hmid⟩ := h.addFlag? hname hadd
      obtain ⟨k', hrest, hk⟩ := ih hmid
      rw [withoutDryRun_cons_of_ne (hlong.ne_dryRun fun hdry => absurd hdry hname)]
      exact ⟨k', .flag hlong hasks hflag hadd' hrest, hk⟩
  | @attached g mid g' arg name value rest hlong hflag hvalued hadd _ ih =>
    obtain ⟨mid', hadd', hmid⟩ := h.addValue? hadd
    obtain ⟨k', hrest, hk⟩ := ih hmid
    rw [withoutDryRun_cons_of_ne (hlong.ne_dryRun fun _ => Option.some_ne_none value)]
    exact ⟨k', .attached hlong hflag hvalued hadd' hrest, hk⟩
  | @separate g mid g' arg name value rest hlong hasks hflag hvalued hvalue hadd _ ih =>
    obtain ⟨mid', hadd', hmid⟩ := h.addValue? hadd
    obtain ⟨k', hrest, hk⟩ := ih hmid
    have hname : name ≠ "dry-run" := by
      rintro rfl
      exact hflag (by decide)
    rw [withoutDryRun_cons_of_ne (hlong.ne_dryRun fun hdry => absurd hdry hname),
      withoutDryRun_cons_of_ne (ne_dryRun_of_not_looksLikeOption hvalue)]
    exact ⟨k', .separate hlong hasks hflag hvalued hvalue hadd' hrest, hk⟩
  | @short g mid g' arg c letters rest harg hc hshort _ ih =>
    obtain ⟨mid', hshort', hmid⟩ := h.readShort hshort
    obtain ⟨k', hrest, hk⟩ := ih hmid
    rw [withoutDryRun_cons_of_ne (ne_dryRun_of_toList harg hc)]
    exact ⟨k', .short harg hc hshort' hrest, hk⟩
  | positional harg hadd =>
    rw [addPositional?_generate] at hadd
    cases hadd

theorem flags_of_addFlag? {name : String} (hadd : g.addFlag? name = some g') :
    g'.flags = name :: g.flags := by
  unfold Given.addFlag? at hadd
  split at hadd
  next => cases hadd
  next => rw [← Option.some.inj hadd]

theorem flags_of_addValue? {name value : String} (hadd : g.addValue? o name value = some g') :
    g'.flags = g.flags := by
  unfold Given.addValue? at hadd
  split at hadd
  next => cases hadd
  next => rw [← Option.some.inj hadd]

theorem flags_subset_of_readShort {letters : List Char} (hread : readShort o g letters = .given g') :
    g.flags ⊆ g'.flags := by
  fun_induction readShort o g letters with
  | case1 g =>
    obtain rfl := Reading.given.inj hread
    exact List.Subset.refl _
  | case5 g rest mid hadd ih =>
    intro name hname
    apply ih hread
    rw [flags_of_addFlag? hadd]
    exact List.mem_cons_of_mem _ hname
  | _ => cases hread

/-- The flag is given if it is among the arguments. -/
theorem Reads.mem_flags (hreads : Reads generateOptions g args g')
    (h : "dry-run" ∈ g.flags ∨ "--dry-run" ∈ args) : "dry-run" ∈ g'.flags := by
  induction hreads with
  | nil g => simpa using h
  | @ends g g' rest hrest =>
    cases rest with
    | nil =>
      obtain rfl := Option.some.inj hrest
      simpa using h
    | cons arg rest =>
      rw [List.foldlM_cons, addPositional?_generate] at hrest
      cases hrest
  | @flag g mid g' arg name rest hlong _ _ hadd _ ih =>
    apply ih
    rw [flags_of_addFlag? hadd]
    by_cases hname : name = "dry-run"
    · exact .inl (List.mem_cons.mpr (.inl hname.symm))
    · have hne := hlong.ne_dryRun fun hdry => absurd hdry hname
      rw [List.mem_cons, or_iff_right hne.symm] at h
      exact h.imp_left (List.mem_cons_of_mem _)
  | @attached g mid g' arg name value rest hlong _ _ hadd _ ih =>
    apply ih
    have hne := hlong.ne_dryRun fun _ => Option.some_ne_none value
    rwa [List.mem_cons, or_iff_right hne.symm, ← flags_of_addValue? hadd] at h
  | @separate g mid g' arg name value rest hlong _ hflag _ hvalue hadd _ ih =>
    apply ih
    have hname : name ≠ "dry-run" := by
      rintro rfl
      exact hflag (by decide)
    have hne := hlong.ne_dryRun fun hdry => absurd hdry hname
    have hlooks := ne_dryRun_of_not_looksLikeOption hvalue
    rwa [List.mem_cons, or_iff_right hne.symm, List.mem_cons, or_iff_right hlooks.symm,
      ← flags_of_addValue? hadd] at h
  | @short g mid g' arg c letters rest harg hc hshort _ ih =>
    apply ih
    have hne := ne_dryRun_of_toList harg hc
    rw [List.mem_cons, or_iff_right hne.symm] at h
    exact h.imp_left fun hmem => flags_subset_of_readShort hshort hmem
  | positional harg hadd =>
    rw [addPositional?_generate] at hadd
    cases hadd

/-! ### Requests to generate -/

theorem ofSubcommand_generate_iff {r : GenerateRequest} :
    Request.ofSubcommand generateOptions generateRequest? args = .ok (.generate r) ↔
      ∃ g, Reads generateOptions {} args g ∧ generateRequest? g = some (.generate r) := by
  constructor
  · intro h
    unfold Request.ofSubcommand at h
    split at h
    next => cases h
    next => cases h
    next => cases h
    next g hread =>
      split at h
      next request hrequest =>
        obtain rfl := Except.ok.inj h
        exact ⟨g, reads_of_readOptions hread, hrequest⟩
      next => cases h
  · rintro ⟨g, hreads, hrequest⟩
    simp only [Request.ofSubcommand, readOptions_of_reads hreads, hrequest]

theorem generateRequest?_alike {k : Given} {asked : Bool} {r : GenerateRequest}
    (h : g.Alike asked k) (hrequest : generateRequest? g = some (.generate r)) :
    generateRequest? k = some (.generate { r with dryRun := asked }) := by
  obtain ⟨declarations, hdeclarations, hmade⟩ := Option.bind_eq_some_iff.mp hrequest
  obtain rfl := Request.generate.inj (Option.some.inj hmade)
  have hasked : k.flags.contains "dry-run" = asked := by
    rw [Bool.eq_iff_iff, List.contains_iff_mem, h.dryRun]
  refine Option.bind_eq_some_iff.mpr ⟨declarations, (h.value? _).trans hdeclarations, ?_⟩
  simp only [h.value?, hasked]
  rfl

theorem eq_generate_of_ofNamed {name : String} {r : GenerateRequest}
    (h : Request.ofNamed name args = .ok (.generate r)) : name = "generate" := by
  unfold Request.ofNamed at h
  split at h
  next => rfl
  next =>
    -- what `resolve` asks for is not to generate
    unfold Request.ofSubcommand at h
    split at h
    next => cases h
    next => cases h
    next => cases h
    next g _ =>
      split at h
      next request hrequest =>
        obtain ⟨path, -, hmade⟩ := Option.bind_eq_some_iff.mp hrequest
        rw [← Option.some.inj hmade] at h
        cases h
      next => cases h
  next => cases h
  next =>
    split at h
    next => cases h
    next => cases h
  next => cases h

theorem readOptions_common_dryRun (g : Given) :
    readOptions commonOptions g ["--dry-run"] = .refused := by
  have harg : "--dry-run".toList = ['-', '-', 'd', 'r', 'y', '-', 'r', 'u', 'n'] := by decide
  have hsplit : splitLong ['d', 'r', 'y', '-', 'r', 'u', 'n'] = ("dry-run", none) := by decide
  simp [readOptions, harg, hsplit, commonOptions]

/-- A request to generate is made behind flags that do not matter to it. -/
theorem exists_of_parseFrom {r : GenerateRequest}
    (hparse : Request.parseFrom g args = .ok (.generate r)) :
    ∃ before rest, args = before ++ "generate" :: rest ∧ "generate" ∉ before ∧
      "--dry-run" ∉ before ∧ ∀ rest', Request.parseFrom g (before ++ "generate" :: rest') =
        Request.ofSubcommand generateOptions generateRequest? rest' := by
  fun_induction Request.parseFrom g args with
  | case3 g arg rest hends hlooks mid hread ih =>
    obtain ⟨before, rest, rfl, hgenerate, hdry, hall⟩ := ih hparse
    have hname : "generate" ≠ arg := by
      rintro rfl
      exact absurd hlooks (by decide)
    have hflag : "--dry-run" ≠ arg := by
      rintro rfl
      rw [readOptions_common_dryRun] at hread
      cases hread
    refine ⟨arg :: before, rest, rfl, by simp [hname, hgenerate], by simp [hflag, hdry],
      fun rest' => ?_⟩
    rw [← hall rest', List.cons_append, Request.parseFrom, if_pos hlooks, hread]
    exact hends
  | case7 g arg rest hends hlooks =>
    obtain rfl := eq_generate_of_ofNamed hparse
    refine ⟨[], rest, rfl, by simp, by simp, fun rest' => ?_⟩
    rw [List.nil_append, Request.parseFrom, if_neg hlooks, Request.ofNamed]
    exact hends
  | _ => cases hparse

theorem withoutDryRun_of_not_mem (h : "--dry-run" ∉ args) : withoutDryRun args = args :=
  List.filter_eq_self.mpr fun arg harg => by simpa using ne_of_mem_of_not_mem harg h

theorem insertDryRun_append {before : List String} (h : "generate" ∉ before) (rest : List String) :
    insertDryRun (before ++ "generate" :: rest) = before ++ "generate" :: "--dry-run" :: rest := by
  induction before with
  | nil => exact if_pos rfl
  | cons arg before ih =>
    obtain ⟨harg, hbefore⟩ := not_or.mp (mt List.mem_cons.mpr h)
    rw [List.cons_append, insertDryRun, if_neg (Ne.symm harg), ih hbefore, List.cons_append]

theorem parse_withoutDryRun {r : GenerateRequest}
    (hparse : Request.parse args = .ok (.generate r)) :
    Request.parse (withoutDryRun args) = .ok (.generate { r with dryRun := false }) := by
  obtain ⟨before, rest, rfl, -, hdry, hall⟩ := exists_of_parseFrom hparse
  rw [Request.parse, hall] at hparse
  obtain ⟨g, hreads, hrequest⟩ := ofSubcommand_generate_iff.mp hparse
  have halike : Given.Alike {} false {} := ⟨rfl, rfl, fun _ _ => Iff.rfl, by simp⟩
  obtain ⟨k, hreads', hk⟩ := hreads.alike halike
  have hargs : withoutDryRun (before ++ "generate" :: rest) =
      before ++ "generate" :: withoutDryRun rest := by
    rw [withoutDryRun, List.filter_append, ← withoutDryRun, withoutDryRun_of_not_mem hdry]
    exact congrArg (before ++ ·) (withoutDryRun_cons_of_ne (by decide) rest)
  rw [hargs, Request.parse, hall]
  exact ofSubcommand_generate_iff.mpr ⟨k, hreads', generateRequest?_alike hk hrequest⟩

theorem parse_withDryRun {r : GenerateRequest} (hparse : Request.parse args = .ok (.generate r)) :
    Request.parse (withDryRun args) = .ok (.generate { r with dryRun := true }) := by
  obtain ⟨before, rest, rfl, hgenerate, hdry, hall⟩ := exists_of_parseFrom hparse
  rw [Request.parse, hall] at hparse
  obtain ⟨g, hreads, hrequest⟩ := ofSubcommand_generate_iff.mp hparse
  unfold withDryRun
  split
  next hmem =>
    have hrest : "--dry-run" ∈ rest := by simpa [hdry] using hmem
    have hflag := hreads.mem_flags (.inr hrest)
    have halike : g.Alike true g := ⟨rfl, rfl, fun _ _ => Iff.rfl, by simpa using hflag⟩
    rw [Request.parse, hall]
    exact ofSubcommand_generate_iff.mpr ⟨g, hreads, generateRequest?_alike halike hrequest⟩
  next hnew =>
    have hrest : "--dry-run" ∉ rest := fun hmem => hnew (by simp [hmem])
    have halike : Given.Alike {} true { flags := ["dry-run"] } :=
      ⟨rfl, rfl, fun name hname => by simpa using hname, by simp⟩
    obtain ⟨k, hreads', hk⟩ := hreads.alike halike
    rw [withoutDryRun_of_not_mem hrest] at hreads'
    have hflag : Reads generateOptions {} ("--dry-run" :: rest) k :=
      .flag (isLong_dryRun_iff.mpr rfl) (by simp [Options.Asks]) (by decide)
        (if_neg List.not_mem_nil) hreads'
    rw [insertDryRun_append hgenerate, Request.parse, hall]
    exact ofSubcommand_generate_iff.mpr ⟨k, hflag, generateRequest?_alike hk hrequest⟩

end ContractForge.CommandLine
