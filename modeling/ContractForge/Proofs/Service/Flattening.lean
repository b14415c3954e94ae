import ContractForge.Service.Query
import Mathlib.Data.List.Basic
import Mathlib.Data.List.Induction

/-!
# What an argument is flattened to

* `MemberMethod.Gets` : a method is a getter for a name.
* `GetterNames` : the names that the getters among methods stand for.
* `TypeDecl.LastGetter` : the last getter for a name among the methods of a type.
* `Flattens argument d query` : the parameters are the public fields of a type and what its getters
  add, the last getter for a name in the place where the name first stands.

`flattened_of_declared` : these are the query parameters of an argument whose type is declared and is
not scalar. A declaration under a scalar name is not looked at (`scalarName_not_flattened`).
-/

namespace ContractForge

/-- The method is public and without parameters, and its name is `get` and the name, which begins with
a small letter where the method has a capital. -/
def MemberMethod.Gets (m : MemberMethod) (name : String) : Prop :=
  m.isPublic = true ∧ m.params = [] ∧ ∃ first rest,
    m.name = "get" ++ String.ofList (first :: rest) ∧
      name = String.ofList (Text.lowercase first ++ rest)

/-- The names that the getters among methods stand for, in the order of the methods. -/
inductive GetterNames : List MemberMethod → List String → Prop
  | nil : GetterNames [] []
  | getter {m : MemberMethod} {methods : List MemberMethod} {name : String} {names : List String}
      (hgets : m.Gets name) (h : GetterNames methods names) :
      GetterNames (m :: methods) (name :: names)
  | other {m : MemberMethod} {methods : List MemberMethod} {names : List String}
      (hother : ∀ name, ¬m.Gets name) (h : GetterNames methods names) :
      GetterNames (m :: methods) names

namespace TypeDecl

def publicFields (d : TypeDecl) : List Field :=
  d.fields.filter (·.isPublic)

/-- The method is the last getter for the name. -/
def LastGetter (d : TypeDecl) (name : String) (m : MemberMethod) : Prop :=
  ∃ before after, d.methods = before ++ m :: after ∧ m.Gets name ∧ ∀ later ∈ after, ¬later.Gets name

end TypeDecl

/-- The type is that of texts. -/
def TypeRef.IsText (type : TypeRef) : Prop :=
  type = .plain "String" ∨ type = .plain "java.lang.String"

/-- A value passes an access on as a text: as it is if it has the type of texts, converted otherwise. -/
def Passes (access : String) (type : TypeRef) (value : String) : Prop :=
  (value = access ↔ type.IsText) ∧ (value = "String.valueOf(" ++ access ++ ")" ↔ ¬type.IsText)

/-- The parameters that an argument of a declared type becomes. -/
structure Flattens (argument : String) (d : TypeDecl) (query : List QueryParam) : Prop where
  /-- The public fields come first, and then every other name when a getter first stands for it. -/
  names : ∃ names, GetterNames d.methods names ∧ query.map (·.name) = d.publicFields.map (·.name) ++
    (names.filter (· ∉ d.publicFields.map (·.name))).eraseDups
  /-- Where a name first stands, the value is that of the last getter for it, if there is one. Any other
  value is that of the field in its place. -/
  value : ∀ i q, query[i]? = some q →
    (query.map (·.name)).idxOf q.name = i ∧
        (∃ m, d.LastGetter q.name m ∧ Passes (argument ++ "." ++ m.name ++ "()") m.returns q.value) ∨
      ((query.map (·.name)).idxOf q.name ≠ i ∨ ∀ m ∈ d.methods, ¬m.Gets q.name) ∧
        ∃ f, d.publicFields[i]? = some f ∧ Passes (argument ++ "." ++ f.name) f.type q.value

/-! ### Members and their values -/

theorem getterName?_eq_some_iff {m : MemberMethod} {name : String} :
    getterName? m = some name ↔ m.Gets name := by
  have hname : ∀ first rest,
      Text.stripStart? getterStart.toList m.name.toList = some (first :: rest) ↔
        m.name = "get" ++ String.ofList (first :: rest) := by
    intro first rest
    have hlist : ("get" ++ String.ofList (first :: rest)).toList =
        getterStart.toList ++ first :: rest := by
      rw [String.toList_append]
      exact congrArg (getterStart.toList ++ ·) String.toList_ofList
    rw [Text.stripStart?_eq_some_iff, ← String.toList_inj, hlist]
  have hlowercase : ∀ first rest, Text.lowercaseFirst (String.ofList (first :: rest)) =
      String.ofList (Text.lowercase first ++ rest) := by
    intro first rest
    rw [Text.lowercaseFirst, String.toList_ofList]
  unfold getterName? MemberMethod.Gets
  by_cases hmember : (m.isPublic && m.params.isEmpty) = true
  · rw [if_pos hmember]
    obtain ⟨hpublic, hparams⟩ : m.isPublic = true ∧ m.params = [] := by simpa using hmember
    constructor
    · intro h
      split at h
      next first rest hstrip =>
        refine ⟨hpublic, hparams, first, rest, (hname first rest).mp hstrip, ?_⟩
        rw [← hlowercase]
        exact (Option.some.inj h).symm
      next => cases h
    · rintro ⟨-, -, first, rest, hget, rfl⟩
      rw [(hname first rest).mpr hget, ← hlowercase]
  · rw [if_neg hmember]
    constructor
    · intro h
      cases h
    · rintro ⟨hpublic, hparams, -⟩
      simp [hpublic, hparams] at hmember

theorem getterName?_eq_none_iff {m : MemberMethod} :
    getterName? m = none ↔ ∀ name, ¬m.Gets name := by
  simp only [← getterName?_eq_some_iff, Option.eq_none_iff_forall_ne_some, ne_eq]

theorem getterNames_iff {methods : List MemberMethod} {names : List String} :
    GetterNames methods names ↔ names = methods.filterMap getterName? := by
  constructor
  · intro h
    induction h with
    | nil => rfl
    | getter hgets _ ih => rw [List.filterMap_cons_some (getterName?_eq_some_iff.mpr hgets), ih]
    | other hother _ ih => rw [List.filterMap_cons_none (getterName?_eq_none_iff.mpr hother), ih]
  · rintro rfl
    induction methods with
    | nil => exact .nil
    | cons m methods ih =>
      cases hname : getterName? m with
      | none =>
        rw [List.filterMap_cons_none hname]
        exact .other (getterName?_eq_none_iff.mp hname) ih
      | some name =>
        rw [List.filterMap_cons_some hname]
        exact .getter (getterName?_eq_some_iff.mp hname) ih

theorem TypeRef.isString_iff {type : TypeRef} : type.isString = true ↔ type.IsText := by
  obtain ⟨name, args⟩ := type
  simp [isString, isGeneric, TypeRef.args, TypeRef.name, IsText, plain, and_comm, or_and_right]

theorem passes_stringExpression (access : String) (type : TypeRef) :
    Passes access type (stringExpression access type) := by
  have hne : access ≠ "String.valueOf(" ++ access ++ ")" := by
    intro h
    have hlength := congrArg String.length h
    have hcall : "String.valueOf(".length = 15 := by decide
    simp only [String.length_append, hcall] at hlength
    omega
  unfold stringExpression
  by_cases htext : type.isString = true
  · rw [if_pos htext]
    have htext := TypeRef.isString_iff.mp htext
    exact ⟨by simp [htext], by simp [htext, hne]⟩
  · rw [if_neg htext]
    have htext := mt TypeRef.isString_iff.mpr htext
    exact ⟨by simp [htext, hne.symm], by simp [htext]⟩

theorem Passes.eq {access : String} {type : TypeRef} {value value' : String}
    (h : Passes access type value) (h' : Passes access type value') : value = value' := by
  by_cases htext : type.IsText
  · rw [h.1.mpr htext, h'.1.mpr htext]
  · rw [h.2.mpr htext, h'.2.mpr htext]

/-! ### Overriding -/

variable {fields getters : List QueryParam}

/-- A parameter goes to the first place of its name, or to the end. -/
theorem getElem?_override (q : QueryParam) (params : List QueryParam) (i : Nat) :
    (override q params)[i]? =
      if i = (params.map (·.name)).idxOf q.name then some q else params[i]? := by
  induction params generalizing i with
  | nil => cases i <;> simp [override]
  | cons x xs ih =>
    rw [override, List.map_cons, List.idxOf_cons]
    by_cases hname : x.name = q.name
    · cases i <;> simp [hname]
    · have hbeq : (x.name == q.name) = false := by simpa using hname
      cases i <;> simp [hname, hbeq, ih]

theorem map_name_override (q : QueryParam) (params : List QueryParam) :
    (override q params).map (·.name) =
      if q.name ∈ params.map (·.name) then params.map (·.name)
      else params.map (·.name) ++ [q.name] := by
  induction params with
  | nil => rfl
  | cons x xs ih =>
    rw [override]
    by_cases hname : x.name = q.name
    · simp [hname]
    · rw [if_neg hname, List.map_cons, ih]
      simp only [List.map_cons, List.mem_cons, Ne.symm hname, false_or]
      split <;> rfl

/-- The parameters after all getters have been gone through. -/
def overrideAll (fields getters : List QueryParam) : List QueryParam :=
  getters.foldl (fun params q => override q params) fields

theorem overrideAll_concat (fields getters : List QueryParam) (q : QueryParam) :
    overrideAll fields (getters ++ [q]) = override q (overrideAll fields getters) :=
  List.foldl_append

theorem eraseDups_concat (names : List String) (name : String) :
    (names ++ [name]).eraseDups =
      if name ∈ names then names.eraseDups else names.eraseDups ++ [name] := by
  rw [List.eraseDups_append]
  by_cases hmem : name ∈ names
  · simp [List.removeAll, hmem]
  · simp [List.removeAll, hmem, List.eraseDups_cons]

/-- The names are those of the fields, and the others of getters in the order in which they are first
seen. -/
theorem map_name_overrideAll (fields getters : List QueryParam) :
    (overrideAll fields getters).map (·.name) = fields.map (·.name) ++
      ((getters.map (·.name)).filter (· ∉ fields.map (·.name))).eraseDups := by
  induction getters using List.reverseRecOn with
  | nil => simp [overrideAll]
  | append_singleton getters q ih =>
    rw [overrideAll_concat, map_name_override, ih, List.map_append, List.map_singleton,
      List.filter_append]
    by_cases hfield : q.name ∈ fields.map (·.name)
    · rw [if_pos (List.mem_append_left _ hfield), List.filter_cons_of_neg (by simpa using hfield),
        List.filter_nil, List.append_nil]
    · have hmem : q.name ∈ fields.map (·.name) ++
          ((getters.map (·.name)).filter (· ∉ fields.map (·.name))).eraseDups ↔
            q.name ∈ (getters.map (·.name)).filter (· ∉ fields.map (·.name)) := by
        rw [List.mem_append, or_iff_right hfield, List.mem_eraseDups]
      rw [List.filter_cons_of_pos (by simpa using hfield), List.filter_nil, eraseDups_concat]
      simp only [hmem]
      split
      · rfl
      · exact List.append_assoc _ _ _

/-- No later parameter has the name. -/
def LastNamed (params : List QueryParam) (q : QueryParam) : Prop :=
  ∃ before after, params = before ++ q :: after ∧ q.name ∉ after.map (·.name)

/-- Each parameter is the last getter of its name, if it stands where the name is first, and otherwise
the field in its place. -/
theorem getElem?_overrideAll {i : Nat} {q : QueryParam}
    (h : (overrideAll fields getters)[i]? = some q) :
    ((overrideAll fields getters).map (·.name)).idxOf q.name = i ∧ LastNamed getters q ∨
      (((overrideAll fields getters).map (·.name)).idxOf q.name ≠ i ∨
        q.name ∉ getters.map (·.name)) ∧ fields[i]? = some q := by
  induction getters using List.reverseRecOn generalizing i q with
  | nil => exact .inr ⟨.inr List.not_mem_nil, h⟩
  | append_singleton getters x ih =>
    rw [overrideAll_concat] at h ⊢
    rw [getElem?_override] at h
    have hnames := map_name_override x (overrideAll fields getters)
    -- the first place of a name is kept, and a new name gets the last place
    have hfirst : ((override x (overrideAll fields getters)).map (·.name)).idxOf x.name =
        ((overrideAll fields getters).map (·.name)).idxOf x.name := by
      rw [hnames]
      split
      next => rfl
      next hnew =>
        rw [List.idxOf_append_of_notMem hnew, List.idxOf_cons_self, List.idxOf_eq_length hnew]
        rfl
    have hkept : ∀ p : QueryParam, (overrideAll fields getters)[i]? = some p →
        ((override x (overrideAll fields getters)).map (·.name)).idxOf p.name =
          ((overrideAll fields getters).map (·.name)).idxOf p.name := by
      intro p hp
      have hmem : p.name ∈ (overrideAll fields getters).map (·.name) :=
        List.mem_map_of_mem (List.mem_of_getElem? hp)
      rw [hnames]
      split
      next => rfl
      next => exact List.idxOf_append_of_mem hmem
    by_cases hplace : i = ((overrideAll fields getters).map (·.name)).idxOf x.name
    · rw [if_pos hplace] at h
      obtain rfl := Option.some.inj h
      exact .inl ⟨hfirst.trans hplace.symm, getters, [], rfl, List.not_mem_nil⟩
    · rw [if_neg hplace] at h
      rw [hkept q h]
      rcases ih h with ⟨hidx, before, after, rfl, hlast⟩ | ⟨hother, hfield⟩
      · have hne : q.name ≠ x.name := fun hname => hplace (by rw [← hname, hidx])
        refine .inl ⟨hidx, before, after ++ [x], by simp, ?_⟩
        rw [List.map_append, List.mem_append, not_or]
        exact ⟨hlast, by simpa using hne⟩
      · refine .inr ⟨?_, hfield⟩
        by_cases hname : q.name = x.name
        · rw [hname]
          exact .inl (Ne.symm hplace)
        · simpa [hname] using hother

/-! ### The members of a declared type -/

variable {argument : String} {d : TypeDecl}

theorem name_of_ofGetter? {m : MemberMethod} {q : QueryParam}
    (h : QueryParam.ofGetter? argument m = some q) :
    m.Gets q.name ∧ q.value = stringExpression (argument ++ "." ++ m.name ++ "()") m.returns := by
  obtain ⟨name, hname, rfl⟩ := Option.map_eq_some_iff.mp h
  exact ⟨getterName?_eq_some_iff.mp hname, rfl⟩

theorem map_name_filterMap_ofGetter? (argument : String) (methods : List MemberMethod) :
    (methods.filterMap (QueryParam.ofGetter? argument)).map (·.name) =
      methods.filterMap getterName? := by
  rw [List.map_filterMap]
  refine List.filterMap_congr fun m _ => ?_
  rw [QueryParam.ofGetter?, Option.map_map]
  exact Option.map_id'

theorem mem_filterMap_getterName? {methods : List MemberMethod} {name : String} :
    name ∈ methods.filterMap getterName? ↔ ∃ m ∈ methods, m.Gets name := by
  simp only [List.mem_filterMap, getterName?_eq_some_iff]

/-- The last parameter of a name among those of getters belongs to the last getter for the name. -/
theorem lastGetter_of_lastNamed {q : QueryParam}
    (h : LastNamed (d.methods.filterMap (QueryParam.ofGetter? argument)) q) :
    ∃ m, d.LastGetter q.name m ∧
      q.value = stringExpression (argument ++ "." ++ m.name ++ "()") m.returns := by
  obtain ⟨before, after, hsplit, hlast⟩ := h
  obtain ⟨front, back, hmethods, -, hback⟩ := List.filterMap_eq_append_iff.mp hsplit
  obtain ⟨others, m, later, rfl, -, hm, rfl⟩ := List.filterMap_eq_cons_iff.mp hback
  rw [map_name_filterMap_ofGetter?, mem_filterMap_getterName?] at hlast
  obtain ⟨hgets, hvalue⟩ := name_of_ofGetter? hm
  refine ⟨m, ⟨front ++ others, later, by rw [hmethods, List.append_assoc], hgets, ?_⟩, hvalue⟩
  exact fun x hx hname => hlast ⟨x, hx, hname⟩

theorem flatten_eq_overrideAll (argument : String) (d : TypeDecl) :
    flatten argument d = overrideAll (d.publicFields.map (QueryParam.ofField argument))
      (d.methods.filterMap (QueryParam.ofGetter? argument)) :=
  rfl

theorem flattens_flatten (argument : String) (d : TypeDecl) :
    Flattens argument d (flatten argument d) := by
  have hfields : (d.publicFields.map (QueryParam.ofField argument)).map (·.name) =
      d.publicFields.map (·.name) := by
    rw [List.map_map]
    rfl
  rw [flatten_eq_overrideAll]
  constructor
  case names =>
    refine ⟨_, getterNames_iff.mpr rfl, ?_⟩
    rw [map_name_overrideAll, hfields, map_name_filterMap_ofGetter?]
  case value =>
    intro i q hq
    rcases getElem?_overrideAll hq with ⟨hfirst, hlast⟩ | ⟨hother, hfield⟩
    · obtain ⟨m, hm, hvalue⟩ := lastGetter_of_lastNamed hlast
      exact .inl ⟨hfirst, m, hm, hvalue ▸ passes_stringExpression _ _⟩
    · rw [map_name_filterMap_ofGetter?, mem_filterMap_getterName?] at hother
      rw [List.getElem?_map] at hfield
      obtain ⟨f, hf, rfl⟩ := Option.map_eq_some_iff.mp hfield
      refine .inr ⟨hother.imp_right fun hnone m hm hgets => hnone ⟨m, hm, hgets⟩, f, hf, ?_⟩
      exact passes_stringExpression _ _

/-! ### What the description determines -/

theorem TypeDecl.LastGetter.eq {name : String} {m m' : MemberMethod} (h : d.LastGetter name m)
    (h' : d.LastGetter name m') : m = m' := by
  obtain ⟨before, after, hsplit, hgets, hlast⟩ := h
  obtain ⟨before', after', hsplit', hgets', hlast'⟩ := h'
  rw [hsplit] at hsplit'
  -- were one of them further on, it would be a later getter for the name
  rcases List.append_eq_append_iff.mp hsplit' with ⟨gap, -, hgap⟩ | ⟨gap, -, hgap⟩
  · cases gap with
    | nil => exact (List.cons.inj hgap).1
    | cons x gap =>
      obtain ⟨-, rfl⟩ := List.cons.inj hgap
      exact absurd hgets' (hlast m' (by simp))
  · cases gap with
    | nil => exact (List.cons.inj hgap).1.symm
    | cons x gap =>
      obtain ⟨-, rfl⟩ := List.cons.inj hgap
      exact absurd hgets (hlast' m (by simp))

theorem TypeDecl.LastGetter.exists_mem {name : String} {m : MemberMethod}
    (h : d.LastGetter name m) : ∃ m ∈ d.methods, m.Gets name := by
  obtain ⟨before, after, hsplit, hgets, -⟩ := h
  exact ⟨m, by rw [hsplit]; simp, hgets⟩

theorem Flattens.map_name {query : List QueryParam} (h : Flattens argument d query) :
    query.map (·.name) = d.publicFields.map (·.name) ++
      ((d.methods.filterMap getterName?).filter (· ∉ d.publicFields.map (·.name))).eraseDups := by
  obtain ⟨names, hgetters, hnames⟩ := h.names
  rw [hnames, getterNames_iff.mp hgetters]

theorem Flattens.eq {query query' : List QueryParam} (h : Flattens argument d query)
    (h' : Flattens argument d query') : query = query' := by
  have hnames : query.map (·.name) = query'.map (·.name) := h.map_name.trans h'.map_name.symm
  refine List.ext_getElem? fun i => ?_
  have hname : (query[i]?).map (·.name) = (query'[i]?).map (·.name) := by
    rw [← List.getElem?_map, ← List.getElem?_map, hnames]
  cases hq : query[i]? with
  | none =>
    rw [hq, Option.map_none] at hname
    exact (Option.map_eq_none_iff.mp hname.symm).symm
  | some q =>
    rw [hq, Option.map_some] at hname
    obtain ⟨q', hq', hsame⟩ := Option.map_eq_some_iff.mp hname.symm
    have hvalue := h.value i q hq
    have hvalue' := h'.value i q' hq'
    rw [← hnames, hsame] at hvalue'
    rw [hq']
    obtain ⟨name, value⟩ := q
    obtain ⟨name', value'⟩ := q'
    obtain rfl : name' = name := hsame
    refine congrArg (fun value => some (QueryParam.mk name' value)) ?_
    rcases hvalue with ⟨hfirst, m, hm, hpasses⟩ | ⟨hother, f, hf, hpasses⟩
    · rcases hvalue' with ⟨-, m', hm', hpasses'⟩ | ⟨hother', -⟩
      · rw [hm.eq hm'] at hpasses
        exact hpasses.eq hpasses'
      · obtain ⟨x, hx, hgets⟩ := hm.exists_mem
        exact absurd hgets ((hother'.resolve_left (not_not_intro hfirst)) x hx)
    · rcases hvalue' with ⟨hfirst', m', hm', -⟩ | ⟨-, f', hf', hpasses'⟩
      · obtain ⟨x, hx, hgets⟩ := hm'.exists_mem
        exact absurd hgets ((hother.resolve_left (not_not_intro hfirst')) x hx)
      · rw [hf] at hf'
        obtain rfl := Option.some.inj hf'
        exact hpasses.eq hpasses'

theorem nodup_eraseDups (names : List String) : names.eraseDups.Nodup := by
  match names with
  | [] => exact List.nodup_nil
  | name :: rest =>
    rw [List.eraseDups_cons, List.nodup_cons, List.mem_eraseDups]
    exact ⟨by simp, nodup_eraseDups (rest.filter fun other => !other == name)⟩
termination_by names.length
decreasing_by exact Nat.lt_succ_of_le (List.length_filter_le _ _)

/-- Getters make no name stand twice. -/
theorem Flattens.nodup_iff {query : List QueryParam} (h : Flattens argument d query) :
    (query.map (·.name)).Nodup ↔ (d.publicFields.map (·.name)).Nodup := by
  rw [h.map_name, List.nodup_append]
  refine ⟨And.left, fun hfields => ⟨hfields, nodup_eraseDups _, ?_⟩⟩
  rintro name hfield other hother rfl
  have hnew := (List.mem_filter.mp (List.mem_eraseDups.mp hother)).2
  exact absurd hfield (by simpa using hnew)

theorem flatten_without_field {before after : List Field} {f : Field}
    (hfields : d.fields = before ++ f :: after) (hf : f.isPublic = false) :
    flatten argument d = flatten argument { d with fields := before ++ after } := by
  simp [flatten, hfields, hf]

theorem flatten_without_method {before after : List MemberMethod} {m : MemberMethod}
    (hmethods : d.methods = before ++ m :: after) (hm : ∀ name, ¬m.Gets name) :
    flatten argument d = flatten argument { d with methods := before ++ after } := by
  have hnone : QueryParam.ofGetter? argument m = none := by
    rw [QueryParam.ofGetter?, getterName?_eq_none_iff.mpr hm, Option.map_none]
  simp [flatten, hmethods, hnone]

theorem not_gets {m : MemberMethod} (h : m.isPublic = false ∨ m.params ≠ [] ∨ m.name = "get")
    (name : String) : ¬m.Gets name := by
  rintro ⟨hpublic, hparams, first, rest, hname, -⟩
  rcases h with hprivate | hsome | hbare
  · rw [hpublic] at hprivate
    cases hprivate
  · exact hsome hparams
  · have hlength := congrArg String.length (hname.symm.trans hbare)
    simp only [String.length_append, String.length_ofList, List.length_cons] at hlength
    omega

/-- **An argument is flattened to its public fields, overridden by its getters.** If the type of an
argument is not scalar and is declared, its query parameters are the one list that the declaration is
flattened to. No name in it stands twice unless two public fields have one name. Fields that are not
public and methods that are not getters might as well not be declared. -/
theorem flattened_of_declared {set : DeclarationSet} {p : Parameter} {d : TypeDecl}
    (hscalar : p.type.isScalar = false) (hd : set.findType? p.type.name = some d) :
    ∃ query, queryParams? set p = some query ∧
      (∀ other, Flattens p.name d other ↔ other = query) ∧
      ((query.map (·.name)).Nodup ↔ (d.publicFields.map (·.name)).Nodup) ∧
      (∀ before f after, d.fields = before ++ f :: after → f.isPublic = false →
        Flattens p.name { d with fields := before ++ after } query) ∧
      (∀ before m after, d.methods = before ++ m :: after →
        (m.isPublic = false ∨ m.params ≠ [] ∨ m.name = "get") →
        Flattens p.name { d with methods := before ++ after } query) := by
  have hflattens : Flattens p.name d (flatten p.name d) := flattens_flatten p.name d
  refine ⟨flatten p.name d, ?_, ?_, hflattens.nodup_iff, ?_, ?_⟩
  · rw [queryParams?, if_neg (by simp [hscalar]), hd]
    rfl
  · exact fun other => ⟨fun hother => hother.eq hflattens, fun heq => heq ▸ hflattens⟩
  · intro before f after hfields hf
    rw [flatten_without_field hfields hf]
    exact flattens_flatten p.name _
  · intro before m after hmethods hm
    rw [flatten_without_method hmethods (not_gets hm)]
    exact flattens_flatten p.name _

/-- A type with two fields of one name and two getters for another. -/
def searchType : TypeDecl where
  name := "Search"
  fields :=
    [{ name := "id", type := .plain "long" },
      { name := "key", type := .plain "String", isPublic := false },
      { name := "id", type := .plain "String" }]
  methods :=
    [{ name := "getUrl", returns := .plain "String" },
      { name := "get", returns := .plain "String" },
      { name := "getId", returns := .plain "Long" },
      { name := "geturl", returns := .mk "List" [.plain "String"] },
      { name := "getPage", params := [⟨"size", .plain "int"⟩], returns := .plain "int" }]

/-- The parameters of an argument of that type: only the first `id` is overridden, and the last getter
for `url` stands where the first one was. -/
def searchParams : List QueryParam :=
  [⟨"id", "String.valueOf(q.getId())"⟩, ⟨"id", "q.id"⟩, ⟨"url", "String.valueOf(q.geturl())"⟩]

theorem flattened_of_declared_search :
    (TypeRef.plain "Search").isScalar = false ∧
    ({ types := [searchType] } : DeclarationSet).findType? "Search" = some searchType ∧
    queryParams? { types := [searchType] } ⟨"q", .plain "Search"⟩ = some searchParams ∧
    Flattens "q" searchType searchParams ∧ ¬(searchType.publicFields.map (·.name)).Nodup := by
  have hscalar : (TypeRef.plain "Search").isScalar = false := by decide
  have hd : ({ types := [searchType] } : DeclarationSet).findType? "Search" = some searchType := rfl
  have hread : queryParams? { types := [searchType] } ⟨"q", .plain "Search"⟩ = some searchParams := by
    decide +kernel
  obtain ⟨query, hquery, hflattens, hnodup, -⟩ :=
    flattened_of_declared (p := ⟨"q", .plain "Search"⟩) hscalar hd
  obtain rfl : query = searchParams := Option.some.inj (hquery.symm.trans hread)
  refine ⟨hscalar, hd, hread, (hflattens searchParams).mpr rfl, fun hfields => ?_⟩
  exact absurd (hnodup.mpr hfields) (by decide)

/-- A type that is declared under the name of texts. -/
def textType : TypeDecl where
  name := "String"
  fields := [{ name := "id", type := .plain "int" }]

/-- An argument of a scalar type is one parameter, whatever is declared under the name of the type. -/
theorem scalarName_not_flattened :
    ({ types := [textType] } : DeclarationSet).findType? "String" = some textType ∧
    queryParams? { types := [textType] } ⟨"q", .plain "String"⟩ = some [⟨"q", "q"⟩] ∧
    ¬Flattens "q" textType [⟨"q", "q"⟩] := by
  refine ⟨rfl, by decide +kernel, fun h => ?_⟩
  have hnames := congrArg List.head? h.map_name
  revert hnames
  decide +kernel

end ContractForge
