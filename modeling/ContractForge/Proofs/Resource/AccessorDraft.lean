import ContractForge.Proofs.Java.Scope
import ContractForge.Resource.Accessors

/-!
# The names in an accessor

* `accessorDraft` : an accessor by its parts.
* `SparesAccess` : a name that hides nothing which the accessor of a resource needs.

An accessor hides nothing exactly if all its parameters are spared (`asMeant_accessorDraft_iff`). Where
there is no resource it needs nothing.
-/

namespace ContractForge

open Java (Part Draft firstPart ownNames argumentNames lineSource lineSource_nil lineSource_cons)

/-- The statement of an accessor. A class that is constructed is named as a type, which no parameter
hides. -/
def accessorParts : Option EmbeddedResource → List Part
  | none => [.text "return null;"]
  | some r =>
    match r.encoding with
    | .raw => [.text "return ", .own r.qualifiedName, .text ".data;"]
    | .text =>
      [.text "return new String(", .own "java.util.Base64", .text ".getDecoder().decode(",
        .own r.qualifiedName, .text ".data.toString()), ",
        .own "java.nio.charset.StandardCharsets", .text ".UTF_8);"]

theorem lineSource_accessorParts (r : Option EmbeddedResource) :
    lineSource (accessorParts r) = accessorStatement r := by
  cases r with
  | none => rfl
  | some r =>
    have hdata : ".data;" = ".data" ++ ";" := by decide
    have hnew : "return new String(" = "return " ++ "new String(" := by decide
    have hdecoder : "new String(java.util.Base64.getDecoder().decode(" =
        "new String(" ++ ("java.util.Base64" ++ ".getDecoder().decode(") := by decide
    have hstring : ".data.toString()), " = ".data" ++ ".toString()), " := by decide
    have hcharset : ".toString()), java.nio.charset.StandardCharsets.UTF_8)" =
        ".toString()), " ++ ("java.nio.charset.StandardCharsets" ++ ".UTF_8)") := by decide
    have hclose : ".UTF_8);" = ".UTF_8)" ++ ";" := by decide
    unfold accessorStatement EmbeddedResource.accessor accessorParts
    dsimp only
    cases r.encoding with
    | raw =>
      simp only [lineSource_cons, lineSource_nil, Part.source, String.append_empty,
        String.append_assoc, hdata]
    | text =>
      simp only [lineSource_cons, lineSource_nil, Part.source, String.append_empty,
        String.append_assoc, hnew, hdecoder, hstring, hcharset, hclose]

theorem argumentNames_accessorParts (r : Option EmbeddedResource) :
    argumentNames [accessorParts r] = [] := by
  cases r with
  | none => rfl
  | some r =>
    unfold accessorParts
    dsimp only
    split <;> rfl

/-- The names of its own with which an accessor begins an expression. -/
theorem mem_ownNames_accessorParts {r : EmbeddedResource} {name : String} :
    name ∈ ownNames [accessorParts (some r)] ↔
      name = r.qualifiedName ∨
        r.encoding = .text ∧ (name = "java.util.Base64" ∨
          name = "java.nio.charset.StandardCharsets") := by
  unfold accessorParts
  dsimp only
  split
  next henc => simp [henc, List.filterMap_cons, Part.own?]
  next henc => simp [henc, List.filterMap_cons, Part.own?, or_left_comm]

/-- The implementation of a method that gives a resource back. -/
def accessorDraft (m : Method) (r : Option EmbeddedResource) : Draft :=
  Draft.overriding m [accessorParts r] (by
    rw [argumentNames_accessorParts]
    exact List.nil_subset _)

/-- A parameter of this name hides nothing that the accessor of a resource needs. -/
structure SparesAccess (r : EmbeddedResource) (name : String) : Prop where
  data : name ≠ firstPart r.qualifiedName
  /-- Text is decoded. -/
  decoder : r.encoding = .text → name ≠ "java"

theorem asMeant_accessorDraft_iff {m : Method} {r : Option EmbeddedResource} :
    (accessorDraft m r).AsMeant ↔ ∀ x, r = some x → ∀ p ∈ m.params, SparesAccess x p.name := by
  have hdecoder : firstPart "java.util.Base64" = "java" := by decide
  have hcharset : firstPart "java.nio.charset.StandardCharsets" = "java" := by decide
  rw [accessorDraft, Draft.asMeant_overriding_iff]
  cases r with
  | none =>
    constructor
    · intro _ x hx
      cases hx
    · intro _ p _ name hname
      cases hname
  | some r =>
    constructor
    · intro h x hx p hp
      obtain rfl := Option.some.inj hx
      refine ⟨h p hp _ (mem_ownNames_accessorParts.mpr (.inl rfl)), fun htext => ?_⟩
      rw [← hdecoder]
      exact h p hp _ (mem_ownNames_accessorParts.mpr (.inr ⟨htext, .inl rfl⟩))
    · intro h p hp name hname
      have hspares := h r rfl p hp
      rcases mem_ownNames_accessorParts.mp hname with rfl | ⟨htext, rfl | rfl⟩
      · exact hspares.data
      · rw [hdecoder]
        exact hspares.decoder htext
      · rw [hcharset]
        exact hspares.decoder htext

end ContractForge
