import TeamRoles.Proofs.Lawful.Members
import TeamRoles.Proofs.Scoped.References

/-!
Type variables are there before they have bounds. While they get them no methods are resolved, so nothing that
was compared before depends on them.
-/

namespace TeamRoles

theorem Runs.methods_of_resolved {ℓ : Nat} {e e' : Env} {r : Option Abort} {b : BindingId} {list : List MethodId}
    (h : Runs ℓ e r e') (low : ℓ < 5) (resolved : e'.slot (.methods b) = .resolved list) :
    e.slot (.methods b) = .resolved list ∨ list = [] := by
  have other {p : Part} {ℓ : Nat} (level : p.level ≤ ℓ) (low : ℓ < 5) : Part.methods b ≠ p := by
    rintro rfl
    exact absurd (Nat.lt_of_le_of_lt level low) (Nat.lt_irrefl 5)
  induction h with
  | done | stop | reentrant => exact .inl resolved
  | step h => exact h.methods_of_resolved resolved
  | seq _ _ ih ih' =>
    rcases ih' low resolved with known | none
    · exact ih low known
    · exact .inr none
  | cleanup _ same ih => exact ih low (by rwa [← same.slots])
  | @resolve ℓ e e' p v level has fresh run allows ih =>
    have inner := Nat.lt_of_le_of_lt (Nat.le_trans p.inner_le_level level) low
    rw [Env.slot_setSlot_of_ne (other level low)] at resolved
    rw [← Env.slot_setSlot_of_ne (e := e) (s := .inProgress) (other level low)]
    exact ih inner resolved
  | @abort ℓ e e' p cause level has fresh run ih =>
    have inner := Nat.lt_of_le_of_lt (Nat.le_trans p.inner_le_level level) low
    rw [← Env.slot_setSlot_of_ne (e := e) (s := .inProgress) (other level low)]
    exact ih inner resolved

namespace Resolve

variable {α β : Type} {e : Env}

structure Ripens (e d : Env) : Prop extends e.Develops d where
  methods : ∀ b list, (d.binding b).methods = .resolved list →
    (e.binding b).methods = .resolved list ∨ list = []

/-- What the resolution leaves while variables that were not there at the start get their bounds. -/
def Within (e : Env) (P : Env → Prop) (x : Resolve α) (Q : α → Env → Prop) : Prop :=
  ∀ o : Oracle, o.Sound → ∀ d, Ripens e d → P d → Ripens e (x o d).2 ∧ ∀ a, (x o d).1 = .ok a → Q a (x o d).2

section Rules

variable {P : Env → Prop} {Q : α → Env → Prop} {R : β → Env → Prop} {x : Resolve α} {f : α → Resolve β}

theorem Within.pure {a : α} (h : ∀ d, P d → Q a d) : Within e P (pure a) Q := by
  refine fun o _ d hd hp => ⟨hd, ?_⟩
  rintro _ ⟨⟩
  exact h d hp

theorem Within.bind (hx : Within e P x Q) (hf : ∀ a, Within e (Q a) (f a) R) : Within e P (x >>= f) R :=
  fun o ho d hd hp => ends_bind (S := fun _ => Ripens e) (hx o ho d hd hp) fun a d' => hf a o ho d'

theorem Within.of_from (lawful : Lawful 1 x) (h : ∀ d, e.Develops d → P d → From d x Q) : Within e P x Q := by
  intro o ho d hd hp
  obtain ⟨develops, holds⟩ := h d hd.toDevelops hp o ho d (.refl hd.closed)
  refine ⟨⟨hd.toDevelops.trans develops, fun b list resolved => ?_⟩, holds⟩
  rcases (lawful o ho.toLawful d).runs.methods_of_resolved (by decide) resolved with known | none
  · exact hd.methods b list known
  · exact .inr none

theorem From.of_within (h : ∀ d, e.Develops d → Within d (fun _ => True) x Q) : From e x Q := by
  intro o ho d hd
  obtain ⟨ripens, holds⟩ := h d hd o ho d ⟨.refl hd.closed, fun _ _ => .inl⟩ trivial
  exact ⟨ripens.toDevelops, holds⟩

end Rules

theorem addTypeVars_from {owner : TypeVarOwner} {names : List String} :
    From e (addTypeVars owner names) fun vars d => ∀ v ∈ vars, e.typeVars.size ≤ v.index ∧ d.HasVar v :=
  .mapM (fun _ _ => addTypeVar_from rfl) fun _ _ _ le h => ⟨h.1, le.hasVar h.2⟩

/-- The bounds of variables refer to what is in scope when the variables are there. -/
structure Bounding (e : Env) (vars : List TypeVarId) (bounds : List (Resolve (List Ty))) : Prop where
  lawful : ∀ x ∈ bounds, Lawful 1 x
  rooted : ∀ x ∈ bounds, ∀ d, e.Develops d → (∀ v ∈ vars, d.HasVar v) →
    From d x fun ts d => ∀ t ∈ ts, d.Rooted t

theorem setBounds_within {all vars : List TypeVarId} {bounds : List (Resolve (List Ty))}
    (new : ∀ v ∈ vars, e.typeVars.size ≤ v.index) (h : Bounding e all bounds) :
    Within e (fun d => ∀ v ∈ all, d.HasVar v) (setBounds vars bounds) fun _ d => ∀ v ∈ all, d.HasVar v := by
  rw [setBounds]
  induction vars generalizing bounds with
  | nil => exact .pure fun _ => id
  | cons v vars ih =>
    cases bounds with
    | nil => exact .pure fun _ => id
    | cons x bounds =>
      obtain ⟨here, later⟩ := List.forall_mem_cons.1 new
      have lawful := List.forall_mem_cons.1 h.lawful
      have rooted := List.forall_mem_cons.1 h.rooted
      refine .bind (.bind (Q := fun ts d => (∀ t ∈ ts, d.Rooted t) ∧ ∀ v ∈ all, d.HasVar v) ?_ fun ts => ?_)
        fun _ => ih later ⟨lawful.2, rooted.2⟩
      · refine .of_from lawful.1 fun d hd known => (rooted.1 d hd known).post fun ts c le rooted => ?_
        exact ⟨rooted, fun v hv => le.hasVar (known v hv)⟩
      · rintro o ho d hd ⟨rooted, known⟩
        refine ⟨⟨hd.toDevelops.updateTypeVar hd.methods here rooted, hd.methods⟩, fun _ _ w hw => ?_⟩
        have size : d.typeVars.size ≤ (d.updateTypeVar v ({ · with bounds := ts })).typeVars.size := by
          simp [Env.updateTypeVar]
        exact Nat.lt_of_lt_of_le (known w hw) size

theorem From.bounded {owner : TypeVarOwner} {names : List String}
    {g : List TypeVarId → List (Resolve (List Ty))} {f : List TypeVarId → Resolve α} {Q : α → Env → Prop}
    (h : ∀ vars d, e.Develops d → Bounding d vars (g vars))
    (hf : ∀ vars d, e.Develops d → (∀ v ∈ vars, d.HasVar v) → From d (f vars) Q) :
    From e (do
      let vars ← addTypeVars owner names
      setBounds vars (g vars)
      f vars) Q := by
  have made : From e (do
      let vars ← addTypeVars owner names
      setBounds vars (g vars)
      return vars) fun vars d => ∀ v ∈ vars, d.HasVar v := by
    refine .of_within fun d hd => .bind (Q := fun vars c => ∀ v ∈ vars, d.typeVars.size ≤ v.index ∧ c.HasVar v) ?_
      fun vars => ?_
    · exact .of_from lawful_addTypeVars fun c hc _ => addTypeVars_from.post fun vars c' _ known v hv =>
        ⟨Nat.le_trans hc.vars (known v hv).1, (known v hv).2⟩
    · intro o ho c hc known
      have bounded : Within d (fun c => ∀ v ∈ vars, c.HasVar v) (do setBounds vars (g vars); return vars)
          fun vars c => ∀ v ∈ vars, c.HasVar v :=
        .bind (setBounds_within (fun v hv => (known v hv).1) (h vars d hd)) fun _ => .pure fun _ => id
      exact bounded o ho c hc fun v hv => (known v hv).2
  have split : (do
      let vars ← addTypeVars owner names
      setBounds vars (g vars)
      f vars) = (do
      let vars ← addTypeVars owner names
      setBounds vars (g vars)
      return vars) >>= f := by
    simp only [bind_assoc, LawfulMonad.pure_bind]
  rw [split]
  exact made.bind fun vars d le known => hf vars d le known

theorem declaredBounds_bounding {vars : List TypeVarId} {site : Site} {params : List TypeParamDecl}
    (fits : ∀ d, e.Develops d → (∀ v ∈ vars, d.HasVar v) → site.Fits d) :
    Bounding e vars (declaredBounds site params) := by
  refine ⟨lawful_declaredBounds, fun x hx d hd known => ?_⟩
  obtain ⟨p, -, rfl⟩ := List.mem_map.1 hx
  exact typesOfSpecs_from (fits d hd known)

theorem signatureBounds_bounding {vars : List TypeVarId} {scope : SignatureScope} {formals : List Signature.Formal}
    (fits : ∀ d, e.Develops d → (∀ v ∈ vars, d.HasVar v) → scope.Fits d) :
    Bounding e vars (signatureBounds scope formals) := by
  refine ⟨lawful_signatureBounds, fun x hx d hd known => ?_⟩
  obtain ⟨p, -, rfl⟩ := List.mem_map.1 hx
  exact typesOfSigs_from (fits d hd known)

theorem updateBinding_within {b : BindingId} {f : Binding → Binding} {P : Env → Prop}
    (modest : ∀ d, e.Develops d → P d → Modest d f) (kept : ∀ d, P d → P (d.update b f)) :
    Within e P (updateBinding b f) fun _ => P := by
  refine fun o ho d hd hp => ⟨⟨hd.toDevelops.trans ?_, fun c list resolved => ?_⟩, fun _ _ => kept d hp⟩
  · exact (updateBinding_from (modest d hd.toDevelops hp) o ho d (.refl hd.closed)).1
  · have known : ((d.update b f).binding c).methods = .resolved list := resolved
    rw [Env.binding_update] at known
    split at known
    · exact hd.methods c list ((modest d hd.toDevelops hp).methods _ list known)
    · exact hd.methods c list known

theorem publishTypeVars_from {b : BindingId} {names : List String} {bounds : List (Resolve (List Ty))}
    (h : ∀ vars d, e.Develops d → Bounding d vars bounds) :
    From e (publishTypeVars b names bounds) fun _ _ => True := by
  refine .of_within fun d hd => .bind (Q := fun vars c => ∀ v ∈ vars, d.typeVars.size ≤ v.index ∧ c.HasVar v) ?_
    fun vars => ?_
  · exact .of_from lawful_addTypeVars fun c hc _ => addTypeVars_from.post fun vars c' _ known v hv =>
      ⟨Nat.le_trans hc.vars (known v hv).1, (known v hv).2⟩
  · intro o ho c hc known
    have published : Within d (fun c => ∀ v ∈ vars, c.HasVar v) (do
        updateBinding b ({ · with typeVariables := .resolved vars })
        setBounds vars bounds
        return vars) fun _ _ => True := by
      refine .bind (updateBinding_within (fun c hc known => ?_) fun _ => id) fun _ =>
        .bind (setBounds_within (fun v hv => (known v hv).1) (h vars d hd)) fun _ => .pure fun _ _ => trivial
      refine ⟨fun _ => rfl, fun c' x le fits => { fits with typeVariables := ?_ }, fun _ _ => id⟩
      rintro _ ⟨⟩ v hv
      exact le.hasVar (known v hv)
    exact published o ho c hc fun v hv => (known v hv).2

theorem calm_typeVariables {b : BindingId} : Calm (typeVariables b) := by
  refine From.calm (Q := fun _ _ => True) fun e => known_from.bind fun x d _ ⟨inside, _⟩ => ?_
  split
  · exact Calm.pure d
  · exact reentrant_from
  · refine (updateBinding_from ?_).bind fun _ c hc _ => ?_
    · exact ⟨fun _ => rfl, fun _ _ _ fits => { fits with typeVariables := nofun }, fun _ _ => id⟩
    · split
      · refine .get_bind fun c' hc' => publishTypeVars_from fun vars d' hd' =>
          declaredBounds_bounding fun last le known => ⟨fun outer given => ?_, nofun⟩
        exact (hd'.trans le).hasType ((hc'.closed.bindings b).enclosing outer given)
      · exact publishTypeVars_from fun vars d' _ => signatureBounds_bounding fun _ _ _ => SignatureScope.fits_of_owner
      · exact publishTypeVars_from fun vars d' _ => ⟨nofun, nofun⟩

end Resolve

end TeamRoles
