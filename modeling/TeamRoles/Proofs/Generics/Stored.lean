import TeamRoles.Proofs.Env.Offers
import TeamRoles.Proofs.Session.Reachable

/-!
What is stored of types in a session. Supertypes are class types, a type without type parameters has no
type variables, and the supertypes of an instantiation are instances of those of the generic type.
-/

namespace TeamRoles

open Env

variable {ℓ : Nat} {e e' : Env} {r : Option Abort}

def Part.Typed (e : Env) : (p : Part) → p.Value → Prop
  | .supertypes _, s => ∀ t ∈ s.all, ∃ c, bindingOf? t = some c
  | .typeVariables b, vars => (e.binding b).isGeneric = false → vars = []
  | _, _ => True

namespace Env

def Typed (e : Env) : Prop := ∀ p v, e.slot p = .resolved v → p.Typed e v

def CachesHold (e : Env) : Prop := ∀ c v, e.cache c = some v → c.Holds v e

/-- What has been stored of types is as it should be. -/
structure Stored (e : Env) : Prop where
  ranged : e.Ranged
  typed : e.Typed
  caches : e.CachesHold

theorem Lasts.isGeneric_eq {b : BindingId} (lasts : e.Lasts e') (inside : b.index < e.bindings.size) :
    (e'.binding b).isGeneric = (e.binding b).isGeneric := by
  rw [Binding.isGeneric, lasts.origin_eq inside, Binding.isGeneric]

end Env

theorem Part.Typed.of_lasts {p : Part} {v : p.Value} (h : p.Typed e v) (lasts : e.Lasts e')
    (known : e.slot p = .resolved v) : p.Typed e' v := by
  cases p with
  | typeVariables b =>
    exact fun plain => h ((lasts.isGeneric_eq (has_of_resolved known (by simp))).symm.trans plain)
  | supertypes b => exact h
  | _ => trivial

theorem Part.Typed.of_sameFrame {p : Part} {v : p.Value} (h : p.Typed e v) (same : e.SameFrame e') :
    p.Typed e' v := by
  cases p with
  | typeVariables b =>
    exact fun plain => h ((same.proj_eq (g := Binding.isGeneric) (fun _ => rfl) b).symm.trans plain)
  | supertypes b => exact h
  | _ => trivial

theorem Part.Allows.typed {begun : Env} {p : Part} {v : p.Value} (h : p.Allows begun v e) :
    p.Typed e v := by
  cases p with
  | supertypes b => exact fun t ht => (h t ht).imp fun _ keeps => keeps.1
  | typeVariables b => exact h
  | _ => trivial

theorem Step.typed (h : Step ℓ e e') (typed : e.Typed) : e'.Typed := by
  intro p v resolved
  have old (known : e.slot p = .resolved v) : p.Typed e' v := (typed p v known).of_lasts h.lasts known
  cases h with
  | quiet same => exact old (same.slots p ▸ resolved)
  | declare _ _ bare | load _ _ _ bare =>
    refine old ((slot_addBinding_of_bare bare.eq).symm.trans ?_)
    cases p <;> exact resolved
  | @standIn name reason =>
    have stored : (e.addBinding (.standIn name reason)).slot p = .resolved v := resolved
    cases p with
    | supertypes b | typeVariables b =>
      by_cases new : b = e.nextBinding
      · subst new
        simp only [slot, binding_addBinding_self] at stored
        cases stored
        simp [Part.Typed, Supertypes.all]
      · simp only [slot, binding_addBinding_of_ne new] at stored
        exact old stored
    | _ => trivial
  | roleFile => exact old (slot_addRoleFile p ▸ resolved)
  | @store c w => exact old (by cases c <;> cases p <;> exact resolved)
  | _ => exact old (by cases p <;> exact resolved)

theorem Runs.typed (h : Runs ℓ e r e') (typed : e.Typed) : e'.Typed := by
  refine h.keeps (I := Env.Typed) Step.typed ?_ ?_ typed
  · intro e p has _ typed q v resolved
    rcases resolved_of_setSlot has resolved with known | ⟨rfl, none⟩
    · exact (typed q v known).of_sameFrame sameFrame_setSlot
    · cases none
  · rintro e p v has - ⟨_, -, allows⟩ typed q w resolved
    rcases resolved_of_setSlot has resolved with known | ⟨rfl, same⟩
    · exact (typed q w known).of_sameFrame sameFrame_setSlot
    · cases same
      exact Part.Typed.of_sameFrame allows.typed sameFrame_setSlot

theorem Env.Instance.mono {generics : List BindingId} {t u : Ty} (h : e.Instance generics t u)
    (kept : ∀ p v, e.slot p = .resolved v → e'.slot p = .resolved v) : e'.Instance generics t u := by
  obtain ⟨σ, rfl, moves⟩ := h
  refine ⟨σ, rfl, fun v moved => ?_⟩
  obtain ⟨b, hb, vars, known, hv⟩ := moves v moved
  exact ⟨b, hb, vars, kept (.typeVariables b) vars known, hv⟩

theorem Cache.Holds.mono {c : Cache} {v : c.Value} (h : c.Holds v e) (methods : e.MethodsLast e')
    (shows : c.level = 2 → ∀ b s, e.Shows b s → e'.Shows b s)
    (kept : ∀ p v, e.slot p = .resolved v → e'.slot p = .resolved v) : c.Holds v e' := by
  cases c with
  | supertypes t =>
    obtain ⟨generic, declared, instantiated, shown, related⟩ := h
    exact ⟨generic, declared, instantiated, shows rfl _ _ shown, related.imp fun _ _ h => h.mono kept⟩
  | methods t =>
    obtain ⟨generic, originals, instantiated, known, related⟩ := h
    exact ⟨generic, originals, instantiated, kept (.methods generic) originals known,
      related.imp fun _ _ h => h.of_lasts methods known⟩
  | _ => trivial

theorem Cache.Holds.of_lasts {c : Cache} {v : c.Value} (h : c.Holds v e) (lasts : e.Lasts e') :
    c.Holds v e' :=
  h.mono lasts.methods (fun _ _ _ => lasts.extends.shows) fun _ _ => lasts.resolved

theorem Step.cachesHold (h : Step ℓ e e') (caches : e.CachesHold) : e'.CachesHold := by
  intro c v filled
  refine Cache.Holds.of_lasts ?_ h.lasts
  cases h with
  | quiet same => exact caches c v (by rwa [← same.caches])
  | @store d w _ _ holds =>
    by_cases same : c = d
    · subst same
      cases cache_setCache_self.symm.trans filled
      exact holds
    · rw [cache_setCache_of_ne same] at filled
      exact caches c v filled
  | _ => exact caches c v filled

theorem Env.CachesHold.begin {p : Part} (h : e.CachesHold) (fresh : e.slot p = .unresolved) :
    (e.setSlot p .inProgress).CachesHold := by
  intro c v filled
  rw [sameFrame_setSlot.caches] at filled
  exact (h c v filled).of_lasts (.of_setSlot fresh (.refl _))

theorem Runs.cachesHold (h : Runs ℓ e r e') (caches : e.CachesHold) : e'.CachesHold := by
  induction h with
  | done | stop | reentrant => exact caches
  | step h => exact h.cachesHold caches
  | seq _ _ ih ih' => exact ih' (ih caches)
  | cleanup _ same ih => exact (Step.quiet (ℓ := 0) same).cachesHold (ih caches)
  | @resolve ℓ e e' p v level has fresh run allows ih =>
    have whole : Runs ℓ e none (e'.setSlot p (.resolved v)) := .resolve level has fresh run allows
    have pending : e'.slot p = .inProgress := by
      rw [run.lasts.slots p (by simp [slot_setSlot_self has]), slot_setSlot_self has]
    intro c w filled
    rw [sameFrame_setSlot.caches] at filled
    by_cases above : c.level = 2 ∧ ∃ b, p = .supertypes b
    · -- No cache of supertypes is filled while supertypes are being resolved.
      obtain ⟨two, b, rfl⟩ := above
      rw [run.cache_eq (two ▸ Nat.lt_succ_self 1), sameFrame_setSlot.caches] at filled
      exact (caches c w filled).of_lasts whole.lasts
    · refine (ih (caches.begin fresh) c w filled).mono (.of_eq sameFrame_setSlot.methods) (fun two b s shown => ?_) fun q u known => ?_
      · have same := slot_setSlot_of_ne (e := e') (s := .resolved v) fun same : .supertypes b = p =>
          above ⟨two, b, same.symm⟩
        cases shown with
        | resolved known => exact .resolved (same.trans known)
        | inProgress known => exact .inProgress (same.trans known)
      · rwa [slot_setSlot_of_ne]
        rintro rfl
        cases pending.symm.trans known
  | abort _ _ fresh _ ih => exact ih (caches.begin fresh)

namespace Env

theorem Stored.of_runs (h : e.Stored) (runs : Runs ℓ e r e') : e'.Stored :=
  ⟨runs.ranged h.ranged, runs.typed h.typed, runs.cachesHold h.caches⟩

theorem Reachable.stored {provider : Provider} {options : Options} (h : Reachable provider options e) :
    e.Stored where
  ranged := h.ranged
  typed := h.keeps (fun _ p v => by cases p <;> nofun) Runs.typed
  caches := h.keeps (fun _ c v => by cases c <;> nofun) Runs.cachesHold

end Env

end TeamRoles
