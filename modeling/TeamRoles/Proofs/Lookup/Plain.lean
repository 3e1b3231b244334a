import TeamRoles.Proofs.Lawful.References

/-!
The types that are written, in a unit or in a signature, are never anchored as they are read: anchors are resolved
later.
-/

namespace TeamRoles

theorem Env.isPlain_instantiate {e : Env} {b : BindingId} {args : List Ty} {enclosing : Option Ty} :
    (e.instantiate b args enclosing).IsPlain := by
  unfold Env.instantiate
  split_ifs <;> exact trivial

namespace Resolve

variable {α β : Type} {p : α → Prop} {q : β → Prop} {x y : Resolve α} {ℓ : Nat}

def Yields (p : α → Prop) (x : Resolve α) : Prop := ∀ o e a e', x o e = (.ok a, e') → p a

namespace Yields

theorem pure {a : α} (h : p a) : Yields p (pure a) := by
  intro _ _ b _ answered
  obtain ⟨same, -⟩ := Prod.mk.inj answered
  exact Except.ok.inj same ▸ h

theorem throw {cause : Abort} : Yields p (throw cause : Resolve α) :=
  fun _ _ _ _ answered => nomatch (Prod.mk.inj answered).1

theorem bind {f : α → Resolve β} (hx : Yields p x) (hf : ∀ a, p a → Yields q (f a)) : Yields q (x >>= f) := by
  intro o e b e' answered
  obtain ⟨a, d, first, rest⟩ := bind_eq_ok answered
  exact hf a (hx o e a d first) o d b e' rest

theorem after {f : α → Resolve β} (hf : ∀ a, Yields q (f a)) : Yields q (x >>= f) :=
  bind (p := fun _ => True) (fun _ _ _ _ _ => trivial) fun a _ => hf a

theorem ite {c : Prop} [Decidable c] (hx : Yields p x) (hy : Yields p y) : Yields p (if c then x else y) := by
  split
  · exact hx
  · exact hy

theorem triple {P : Env → Prop} (h : Yields p x) (lawful : Lawful ℓ x) : Triple ℓ P x fun a _ => p a :=
  fun o ho e _ => ⟨lawful o ho e, fun a answered => h o e a (x o e).2 (Prod.ext answered rfl)⟩

end Yields

variable {site : Site} {b : BindingId} {name display : String} {reason : ProblemReason}

theorem plain_problemType : Yields Ty.IsPlain (problemType name reason) := .after fun _ => .pure trivial

theorem plain_undefined : Yields Ty.IsPlain (undefined site name) := .after fun _ => plain_problemType

theorem plain_invisible : Yields Ty.IsPlain (invisible site b) := .after fun _ => .after fun _ => plain_problemType

theorem plain_applyArgs {segment : SegmentRef} {enclosing : Option Ty} :
    Yields Ty.IsPlain (applyArgs site b segment enclosing) := by
  refine .after fun e => .ite (.pure Env.isPlain_instantiate) (.ite (.after fun vars => .ite ?_ ?_) ?_)
  · exact .after fun _ => .after fun _ => .after fun _ => .pure Env.isPlain_instantiate
  · exact .after fun _ => .after fun _ => .pure Env.isPlain_instantiate
  · exact .after fun _ => .pure trivial

theorem plain_typeOfMembers {t : Ty} {segments : List SegmentRef} (plain : t.IsPlain) :
    Yields Ty.IsPlain (typeOfMembers site display b t segments) := by
  induction segments generalizing b t with
  | nil => exact .after fun _ => .after fun _ => .pure plain
  | cons segment segments ih =>
    refine .after fun member => ?_
    cases member with
    | none => exact plain_undefined
    | some member => exact .after fun e => .ite plain_invisible (plain_applyArgs.bind fun _ => ih)

theorem plain_typeOfHead {segments : List SegmentRef} : Yields Ty.IsPlain (typeOfHead site display b segments) := by
  cases segments with
  | nil => exact .pure trivial
  | cons segment segments => exact plain_applyArgs.bind fun _ => plain_typeOfMembers

theorem plain_typeOfQualified {segments : List SegmentRef} :
    Yields Ty.IsPlain (typeOfQualified site display segments) := by
  refine .after fun found => ?_
  cases found with
  | none => exact plain_undefined
  | some found => exact .after fun _ => .ite plain_invisible plain_typeOfHead

theorem plain_typeOfName {segments : List SegmentRef} : Yields Ty.IsPlain (typeOfName site segments) := by
  refine .after fun _ => ?_
  split
  · exact .after fun _ => plain_problemType
  · extract_lets meant
    have plain_meant (var : Option TypeVarId) : Yields Ty.IsPlain (meant var) := by
      cases var with
      | some v => exact .pure trivial
      | none =>
        refine .after fun meaning => ?_
        cases meaning with
        | found b => exact plain_typeOfHead
        | notVisible b => exact .ite plain_invisible plain_typeOfQualified
        | ambiguous candidates => exact .after fun _ => .after fun _ => plain_problemType
        | notFound => exact plain_typeOfQualified
    exact .ite (.after plain_meant) (.after plain_meant)

theorem plain_typeOfSpec (t : TypeSpec) : Yields Ty.IsPlain (typeOfSpec site t) := by
  cases t with
  | primitive keyword =>
    rw [typeOfSpec]
    split
    · exact .pure trivial
    · exact .after fun _ => plain_problemType
  | named segments =>
    rw [typeOfSpec]
    exact plain_typeOfName
  | «variable» name =>
    rw [typeOfSpec]
    refine .after fun found => ?_
    cases found with
    | some v => exact .pure trivial
    | none => exact .after fun _ => plain_undefined
  | array component =>
    rw [typeOfSpec]
    exact .after fun _ => .pure trivial
  | anchored role anchor =>
    rw [typeOfSpec]
    refine .after fun meaning => ?_
    split
    · exact .pure trivial
    · exact plain_problemType

variable {scope : SignatureScope}

theorem plain_typeOfVar : Yields Ty.IsPlain (typeOfVar scope name) := by
  refine .after fun e => ?_
  split
  · exact .pure trivial
  · refine .after fun found => ?_
    cases found with
    | some v => exact .pure trivial
    | none => exact plain_problemType

theorem plain_typeOfSegments {outer : String} {enclosing : Option Ty} (segments : List Signature.Segment)
    (plain : ∀ t ∈ enclosing, t.IsPlain) : Yields Ty.IsPlain (typeOfSegments scope outer enclosing segments) := by
  induction segments generalizing outer enclosing with
  | nil =>
    cases enclosing with
    | some t =>
      rw [typeOfSegments]
      exact .pure (plain t rfl)
    | none =>
      rw [typeOfSegments]
      exact .throw
  | cons segment segments ih =>
    obtain ⟨name, args⟩ := segment
    rw [typeOfSegments]
    refine .after fun _ => .after fun _ => .after fun e => ih ?_
    rintro t ⟨⟩
    exact Env.isPlain_instantiate

theorem plain_typeOfSig (t : Signature.TypeSig) : Yields Ty.IsPlain (typeOfSig scope t) := by
  cases t with
  | base b =>
    rw [typeOfSig]
    exact .pure trivial
  | cls segments =>
    rw [typeOfSig]
    exact plain_typeOfSegments segments nofun
  | var name =>
    rw [typeOfSig]
    exact plain_typeOfVar
  | array component =>
    rw [typeOfSig]
    exact .after fun _ => .pure trivial

end Resolve

end TeamRoles
