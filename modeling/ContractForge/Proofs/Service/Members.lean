import ContractForge.Service.Query

/-!
# The members that are sent

* `SentMember` : what is sent of an argument under a name: the argument itself, a field or a getter.
* `membersOf` : the members of a declared type, fields before getters, each name once.
* `sentMembers?` : the members of an argument. Query parameters are these members, each as a string
  (`queryParams?_eq`).
-/

namespace ContractForge

/-- A member of an argument. -/
structure SentMember where
  /-- The name under which it is sent. -/
  name : String
  /-- What is written after the argument. -/
  access : String
  type : TypeRef

namespace SentMember

/-- The query parameter that the member of an argument becomes. -/
def sent (argument : String) (x : SentMember) : QueryParam :=
  ⟨x.name, stringExpression (argument ++ x.access) x.type⟩

def ofField (f : Field) : SentMember :=
  ⟨f.name, "." ++ f.name, f.type⟩

def ofGetter? (m : MemberMethod) : Option SentMember :=
  (getterName? m).map fun name => ⟨name, "." ++ m.name ++ "()", m.returns⟩

/-- Members with one more: in place of the first of its name, or else at the end. -/
def override (x : SentMember) : List SentMember → List SentMember
  | [] => [x]
  | y :: ys => if y.name = x.name then x :: ys else y :: override x ys

end SentMember

/-- The members of a declared type. -/
def membersOf (d : TypeDecl) : List SentMember :=
  (d.methods.filterMap SentMember.ofGetter?).foldl (fun members x => x.override members)
    ((d.fields.filter (·.isPublic)).map SentMember.ofField)

/-- The members of an argument, if its type is scalar or declared. -/
def sentMembers? (set : DeclarationSet) (p : Parameter) : Option (List SentMember) :=
  if p.type.isScalar then some [⟨p.name, "", p.type⟩]
  else (set.findType? p.type.name).map membersOf

theorem map_sent_override (argument : String) (x : SentMember) (members : List SentMember) :
    (x.override members).map (SentMember.sent argument) =
      override (x.sent argument) (members.map (SentMember.sent argument)) := by
  induction members with
  | nil => rfl
  | cons y ys ih =>
    rw [SentMember.override, List.map_cons, override]
    by_cases hname : y.name = x.name
    · rw [if_pos hname, if_pos (show (y.sent argument).name = (x.sent argument).name from hname)]
      rfl
    · rw [if_neg hname, if_neg (show (y.sent argument).name ≠ (x.sent argument).name from hname),
        List.map_cons, ih]

theorem map_sent_foldl (argument : String) (getters fields : List SentMember) :
    (getters.foldl (fun members x => x.override members) fields).map (SentMember.sent argument) =
      (getters.map (SentMember.sent argument)).foldl (fun params q => override q params)
        (fields.map (SentMember.sent argument)) := by
  induction getters generalizing fields with
  | nil => rfl
  | cons x rest ih =>
    rw [List.foldl_cons, ih, map_sent_override]
    rfl

theorem sent_ofField (argument : String) (f : Field) :
    (SentMember.ofField f).sent argument = QueryParam.ofField argument f := by
  simp only [SentMember.sent, SentMember.ofField, QueryParam.ofField, String.append_assoc]

theorem map_sent_ofGetter? (argument : String) (m : MemberMethod) :
    (SentMember.ofGetter? m).map (SentMember.sent argument) = QueryParam.ofGetter? argument m := by
  rw [SentMember.ofGetter?, QueryParam.ofGetter?, Option.map_map]
  congr 1
  funext name
  simp only [Function.comp_apply, SentMember.sent, String.append_assoc]

/-- The query parameters of an argument of a declared type are its members. -/
theorem flatten_eq (argument : String) (d : TypeDecl) :
    flatten argument d = (membersOf d).map (SentMember.sent argument) := by
  rw [membersOf, map_sent_foldl, flatten, List.map_filterMap, List.map_map]
  simp only [map_sent_ofGetter?]
  congr 1
  exact List.map_congr_left fun f _ => (sent_ofField argument f).symm

/-- The query parameters of an argument are its members. -/
theorem queryParams?_eq (set : DeclarationSet) (p : Parameter) :
    queryParams? set p = (sentMembers? set p).map (·.map (SentMember.sent p.name)) := by
  unfold queryParams? sentMembers?
  split
  next =>
    simp [SentMember.sent, QueryParam.ofScalar]
  next =>
    rw [Option.map_map]
    congr 1
    funext d
    exact flatten_eq p.name d

end ContractForge
