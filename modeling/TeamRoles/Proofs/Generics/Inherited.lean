import TeamRoles.Proofs.Generics.Ascent
import TeamRoles.Proofs.Scoped.Advance

/-!
The methods that a type inherits from its superclasses. Each is a method of a class above the type, or what has
become of one in an instantiation of that class.
-/

namespace TeamRoles

open Relation (TransGen)

theorem Env.bindingOf?_of_genericOf? {t : Ty} {c : BindingId} (generic : Resolve.genericOf? t = some c) :
    bindingOf? t = some c := by
  fun_induction Resolve.genericOf? t with
  | case1 | case2 => exact generic
  | case3 role path ih => exact ih generic
  | case4 => cases generic

namespace Env

variable {e d : Env} {b c : BindingId} {g s : MethodId} {t : Ty} {supers : Supertypes} {list : List MethodId}

/-- The method is one of the class, as the class itself or an instantiation of it has it. -/
def Version (e : Env) (c : BindingId) (g s : MethodId) : Prop :=
  e.Carries c g ∧ (s = g ∨ e.Specializes c g s)

/-- The method is a version of one of a class above the type. -/
def Inherits (e : Env) (b : BindingId) (g s : MethodId) : Prop :=
  ∃ c, TransGen e.Above b c ∧ e.Version c g s

def Tops (e : Env) (b : BindingId) (t : Ty) : Prop := ∃ c, bindingOf? t = some c ∧ TransGen e.Above b c

theorem Lasts.above (lasts : e.Lasts d) (edge : e.Above b c) : d.Above b c := by
  obtain ⟨s, resolved, mem⟩ := edge
  exact ⟨s, lasts.resolved (p := .supertypes b) resolved, mem⟩

theorem Tops.of_lasts (h : e.Tops b t) (lasts : e.Lasts d) : d.Tops b t := by
  obtain ⟨c, named, path⟩ := h
  exact ⟨c, named, path.lift id fun _ _ => lasts.above⟩

theorem Version.of_lasts (h : e.Version c g s) (lasts : e.Lasts d) : d.Version c g s := by
  obtain ⟨⟨list, resolved, mem⟩, same | specializes⟩ := h
  · exact ⟨⟨list, lasts.resolved (p := .methods c) resolved, mem⟩, .inl same⟩
  · exact ⟨⟨list, lasts.resolved (p := .methods c) resolved, mem⟩, .inr (specializes.of_lasts lasts.methods resolved)⟩

theorem Inherits.of_lasts (h : e.Inherits b g s) (lasts : e.Lasts d) : d.Inherits b g s := by
  obtain ⟨c, path, version⟩ := h
  exact ⟨c, path.lift id (fun _ _ => lasts.above), version.of_lasts lasts⟩

namespace Stored

variable (stored : e.Stored)
include stored

theorem above_of_shows (shown : e.Shows c supers) : ∀ u ∈ supers.all, ∃ d, bindingOf? u = some d ∧ e.Above c d := by
  intro u hu
  cases shown with
  | resolved known =>
    obtain ⟨d, named⟩ := stored.typed (.supertypes c) supers known u hu
    exact ⟨d, named, supers, known, List.mem_filterMap.2 ⟨u, hu, named⟩⟩
  | inProgress => cases hu

theorem above_of_cache (generic : Resolve.genericOf? t = some c) (filled : e.cache (.supertypes t) = some supers) :
    ∀ u ∈ supers.all, ∃ d, bindingOf? u = some d ∧ e.Above c d := by
  obtain ⟨_, declared, generic', shown, related⟩ := stored.caches (.supertypes t) supers filled
  cases generic.symm.trans generic'
  intro u hu
  obtain ⟨i, inside, rfl⟩ := List.getElem_of_mem hu
  obtain ⟨σ, same, -⟩ := related.get (related.length_eq ▸ inside) inside
  obtain ⟨d, named, edge⟩ := stored.above_of_shows shown _ (List.getElem_mem (related.length_eq ▸ inside))
  exact ⟨d, (congrArg bindingOf? same).trans (Ty.bindingOf?_subst named), edge⟩

theorem versions_of_cache (generic : Resolve.genericOf? t = some c) (filled : e.cache (.methods t) = some list) :
    ∀ s ∈ list, ∃ g, e.Version c g s := by
  obtain ⟨_, originals, generic', known, related⟩ := stored.caches (.methods t) list filled
  cases generic.symm.trans generic'
  intro s hs
  obtain ⟨i, inside, rfl⟩ := List.getElem_of_mem hs
  have before : i < originals.length := related.length_eq ▸ inside
  exact ⟨originals[i], ⟨originals, known, List.getElem_mem before⟩, .inr (related.get before inside)⟩

end Stored

end Env

namespace Resolve

variable {ℓ : Nat} {b c : BindingId} {t : Ty}

theorem stable_stored : Stable ℓ Env.Stored := fun _ _ _ runs h => h.of_runs runs.runs

theorem typeSupertypes_climbs (t : Ty) (named : Env.bindingOf? t = some c) :
    Triple (ℓ + 2) Env.Stored (typeSupertypes t) fun supers e =>
      ∀ u ∈ supers.all, ∃ d, Env.bindingOf? u = some d ∧ e.Above c d := by
  match t with
  | .declared _ =>
    cases named
    exact ((Triple.ask (.supertypes c) (by simp)).framed stable_stored fun _ _ => trivial).post
      fun _ _ h => h.2.above_of_shows h.1
  | .parameterized generic args enclosing =>
    cases named
    have given := instanceSupertypes_triple (ℓ := ℓ) (t := .parameterized c args enclosing) rfl fun _ _ => nofun
    exact (given.framed stable_stored fun _ _ => trivial).post fun _ _ h => h.2.above_of_cache rfl h.1
  | .raw generic enclosing =>
    cases named
    have given := instanceSupertypes_triple (ℓ := ℓ) (t := .raw c enclosing) rfl fun _ _ => nofun
    exact (given.framed stable_stored fun _ _ => trivial).post fun _ _ h => h.2.above_of_cache rfl h.1
  | .anchored role path => exact typeSupertypes_climbs role named
  | .primitive _ | .null | .variable _ | .wildcard _ _ | .captured _ | .array _ => cases named

theorem typeMethods_versions (named : Env.bindingOf? t = some c) :
    Triple (ℓ + 6) Env.Stored (typeMethods t) fun list e => ∀ s ∈ list, ∃ g, e.Version c g s := by
  cases instantiated : genericOf? t with
  | some generic =>
    cases (Env.bindingOf?_of_genericOf? instantiated).symm.trans named
    exact ((instanceMethods_triple instantiated).framed stable_stored fun _ _ => trivial).post
      fun _ _ h => h.2.versions_of_cache instantiated h.1
  | none =>
    unfold typeMethods
    simp only [instantiated, named]
    exact ((Triple.ask (.methods c) (by simp)).pre fun _ _ => trivial).post
      fun list _ known s hs => ⟨s, ⟨list, known, hs⟩, .inl rfl⟩

theorem stable_above_stored : Stable ℓ fun e => TransGen e.Above b c ∧ e.Stored :=
  fun _ _ _ runs h => ⟨h.1.lift id fun _ _ => runs.lasts.above, h.2.of_runs runs.runs⟩

theorem stable_tops : Stable ℓ fun e => e.Tops b t ∧ e.Stored :=
  fun _ _ _ runs h => ⟨h.1.of_lasts runs.lasts, h.2.of_runs runs.runs⟩

theorem stable_inherits {list : List MethodId} : Stable ℓ fun e => ∀ s ∈ list, ∃ g, e.Inherits b g s :=
  fun _ _ _ runs h s hs => (h s hs).imp fun _ inherits => inherits.of_lasts runs.lasts

theorem tops_triple {α : Type} {x : Resolve α} {Q : α → Env → Prop}
    (h : ∀ c, Env.bindingOf? t = some c → Triple ℓ (fun e => TransGen e.Above b c ∧ e.Stored) x Q) :
    Triple ℓ (fun e => e.Tops b t ∧ e.Stored) x Q := by
  refine (Triple.of_exists fun c => .assume (h c)).pre ?_
  rintro e ⟨⟨c, named, path⟩, stored⟩
  exact ⟨c, named, path, stored⟩

theorem superclass_triple : Triple (ℓ + 6) (fun e => e.Tops b t ∧ e.Stored)
    (do return (← typeSupertypes t).superclass.toList) fun next e => ∀ u ∈ next, e.Tops b u ∧ e.Stored := by
  refine tops_triple fun c named => ?_
  have climbs := typeSupertypes_climbs (ℓ := ℓ + 4) t named
  refine .bind (climbs.framed stable_above_stored fun _ h => h.2) fun supers => .pure ?_
  rintro e ⟨above, path, stored⟩ u hu
  obtain ⟨d, named, edge⟩ := above u (List.mem_append_left _ hu)
  exact ⟨⟨d, named, path.tail edge⟩, stored⟩

theorem classMethods_triple : Triple (ℓ + 6) (fun e => e.Tops b t ∧ e.Stored) (typeMethods t)
    fun list e => ∀ s ∈ list, ∃ g, e.Inherits b g s := by
  refine tops_triple fun c named => ?_
  refine ((typeMethods_versions named).framed stable_above_stored fun _ h => h.2).post ?_
  rintro list e ⟨versions, path, -⟩ s hs
  exact (versions s hs).imp fun _ version => ⟨c, path, version⟩

theorem inheritedMethods_triple : Triple (ℓ + 6) Env.Stored (inheritedMethods b)
    fun list e => ∀ s ∈ list, ∃ g, e.Inherits b g s := by
  refine .bind ((Triple.ask (.supertypes b) (by simp)).framed stable_stored fun _ _ => trivial) fun supers => ?_
  refine (Triple.walk (D := fun t e => e.Tops b t ∧ e.Stored) (fun t => superclass_triple)
    (fun found => stable_inherits) (fun t => stable_tops) _ _ fun found t => ?_).pre ?_
  · refine .bind (((classMethods_triple.frame stable_inherits).pre fun _ h => h.symm)) fun list => .pure ?_
    rintro e ⟨new, old⟩
    exact List.forall_mem_append.2 ⟨old, new⟩
  · rintro e ⟨shown, stored⟩
    refine ⟨List.forall_mem_nil _, fun t ht => ⟨?_, stored⟩⟩
    obtain ⟨c, named, edge⟩ := stored.above_of_shows shown t (List.mem_append_left _ ht)
    exact ⟨c, named, .single edge⟩

end Resolve

end TeamRoles
