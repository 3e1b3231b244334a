import TeamRoles.Proofs.Env.Tsuper
import TeamRoles.Proofs.Session.Pass

/-!
The tsuper roles of a role in every environment of a session: those members of the super-teams of its team
that are called as the role is. The team of a role is the nearest one around it. Types between the team and
the role have no part in that, so that a role that is nested in another one can refine a role that is not.
-/

namespace TeamRoles

open Env

variable {ℓ : Nat} {e e' : Env} {r : Option Abort} {role : BindingId}

theorem Step.tsuperRoles_eq (h : Step ℓ e e') : e'.slot (.tsuperRoles role) = e.slot (.tsuperRoles role) := by
  cases h with
  | quiet same => exact same.slots _
  | declare _ _ bare | load _ _ _ bare => exact slot_addBinding_of_bare (p := .tsuperRoles role) bare.eq
  | @standIn name reason =>
    change (e.addBinding (.standIn name reason)).slot (.tsuperRoles role) = _
    by_cases new : role = e.nextBinding
    · subst new
      simp only [slot, binding_addBinding_self]
      rw [show e.binding e.nextBinding = default from binding_of_size_le (Nat.le_refl _)]
      rfl
    · rw [slot, slot, binding_addBinding_of_ne new]
  | roleFile => exact slot_addRoleFile _
  | @store c v => cases c <;> rfl
  | _ => rfl

theorem Runs.tsuperRoles_eq (h : Runs ℓ e r e') (low : ℓ < 2) :
    e'.slot (.tsuperRoles role) = e.slot (.tsuperRoles role) := by
  have other {ℓ : Nat} {p : Part} (level : p.level ≤ ℓ) (low : ℓ < 2) : .tsuperRoles role ≠ p := by
    rintro rfl
    exact absurd low (Nat.not_lt_of_le level)
  induction h with
  | done | stop | reentrant => rfl
  | step h => exact h.tsuperRoles_eq
  | seq _ _ ih ih' => exact (ih' low).trans (ih low)
  | cleanup _ same ih => exact (same.slots _).trans (ih low)
  | resolve level _ _ _ _ ih =>
    have inner := ih (Nat.lt_of_le_of_lt (Nat.le_trans (Part.inner_le_level _) level) low)
    rw [slot_setSlot_of_ne (other level low), inner, slot_setSlot_of_ne (other level low)]
  | abort level _ _ _ ih =>
    have inner := ih (Nat.lt_of_le_of_lt (Nat.le_trans (Part.inner_le_level _) level) low)
    rw [inner, slot_setSlot_of_ne (other level low)]

namespace Env

def TsupersHold (e : Env) : Prop := ∀ role list, e.slot (.tsuperRoles role) = .resolved list → e.RefinesAll role list

theorem TsupersHold.begin {p : Part} (h : e.TsupersHold) (ranged : e.Ranged) (has : e.Has p)
    (fresh : e.slot p = .unresolved) : (e.setSlot p .inProgress).TsupersHold := by
  intro role list known
  rw [slot_setSlot_of_ne] at known
  · exact (h role list known).of_resembles ranged (Lasts.of_setSlot fresh (.refl _)).resembles
  · rintro rfl
    cases (slot_setSlot_self has).symm.trans known

end Env

theorem Runs.tsupersHold (h : Runs ℓ e r e') (ranged : e.Ranged) (holds : e.TsupersHold) : e'.TsupersHold := by
  induction h with
  | done | stop | reentrant => exact holds
  | step h =>
    intro role list known
    exact (holds role list (h.tsuperRoles_eq.symm.trans known)).of_resembles ranged h.lasts.resembles
  | seq run _ ih ih' => exact ih' (run.ranged ranged) (ih ranged holds)
  | cleanup run same ih =>
    intro role list known
    refine (ih ranged holds role list ?_).of_resembles (run.ranged ranged) same.lasts.resembles
    rwa [← same.slots]
  | abort _ has fresh _ ih => exact ih (ranged.begin has) (holds.begin ranged has fresh)
  | @resolve ℓ e e' p v level has fresh run allows ih =>
    have whole : Runs ℓ e none (e'.setSlot p (.resolved v)) := .resolve level has fresh run allows
    have pending : e'.slot p = .inProgress := by
      rw [run.lasts.slots p (by simp [slot_setSlot_self has]), slot_setSlot_self has]
    have ranged' := run.ranged (ranged.begin has)
    intro role list known
    by_cases above : ∃ b, p = .supertypes b
    · -- No tsuper roles are found while supertypes are being resolved.
      obtain ⟨b, rfl⟩ := above
      rw [slot_setSlot_of_ne (by simp), run.tsuperRoles_eq (Nat.lt_succ_self 1), slot_setSlot_of_ne (by simp)] at known
      exact (holds role list known).of_resembles ranged whole.lasts.resembles
    · have like : e'.Resembles (e'.setSlot p (.resolved v)) :=
        resembles_setSlot pending fun b same => above ⟨b, same⟩
      by_cases same : p = .tsuperRoles role
      · subst same
        cases (slot_setSlot_self ((run.lasts.of_setSlot fresh).has has)).symm.trans known
        exact (allows ranged).of_resembles ranged' like
      · rw [slot_setSlot_of_ne (Ne.symm same)] at known
        exact (ih (ranged.begin has) (holds.begin ranged has fresh) role list known).of_resembles ranged' like

namespace Env

variable {provider : Provider} {options : Options} {list : List BindingId}

theorem Reachable.tsupersHold (h : Reachable provider options e) : e.TsupersHold := by
  refine (h.keeps (I := fun e => e.Ranged ∧ e.TsupersHold) (fun config => ?_) ?_).2
  · exact ⟨ranged_new provider options config, fun role list known => by cases known⟩
  · exact fun runs holds => ⟨runs.ranged holds.1, runs.tsupersHold holds.1 holds.2⟩

/-- The tsuper roles that are answered for a role are what it refines in the super-teams of its team. -/
theorem tsuperRoles_refine (reachable : Reachable provider options e)
    (answered : (Operation.tsuperRoles role).perform.run e = (.ok list, e')) :
    (e'.binding role).role = none ∧ list = [] ∨ e'.RefinesAll role list := by
  have runs : Reachable provider options e' := by
    have step := Reachable.step (Operation.tsuperRoles role) reachable
    rwa [answered] at step
  have settled := (Resolve.tsuperRoles_triple (ℓ := 6)).run trivial answered
  exact settled.2.imp id (runs.tsupersHold role list)

/-- The role stands below its team where the other one stands below the other team. -/
def SamePlace (e : Env) (role team tsuper superTeam : BindingId) : Prop :=
  ∃ place, (e.binding role).name = (e.binding team).name ++ place ∧
    (e.binding tsuper).name = (e.binding superTeam).name ++ place

/-- A team with a role, and one below it with a role of that name in another role. -/
def nestedNamesake : UnitDecl where
  fileName := "U"
  package := "p"
  types := [
    { name := "A", modifiers := [.team], memberTypes := [{ name := "Q" }] },
    { name := "B", modifiers := [.team], superclass := some (.ofName "A")
      memberTypes := [{ name := "R", memberTypes := [{ name := "Q" }] }] }]

def namesakeNested : Env :=
  ((Operation.addUnits [nestedNamesake]).perform.run { options := {}, provider := .empty }).2

theorem reachable_namesakeNested : Reachable .empty {} namesakeNested :=
  .step (.addUnits [nestedNamesake]) (.new rfl)

theorem tsuperRoles_namesakeNested :
    ((Operation.tsuperRoles ⟨4⟩).perform.run namesakeNested).1 = .ok [⟨1⟩] := by
  decide +kernel

theorem tsuperRoles_refine_namesakeNested :
    ∃ e, (Operation.tsuperRoles ⟨4⟩).perform.run namesakeNested = (.ok [⟨1⟩], e) ∧ e.RefinesAll ⟨4⟩ [⟨1⟩] := by
  have answered := Resolve.run_of_outcome tsuperRoles_namesakeNested
  have refines := (tsuperRoles_refine reachable_namesakeNested answered).resolve_left fun none => by cases none.2
  exact ⟨_, answered, refines⟩

/-- A role that refines one at another place. -/
theorem exists_tsuper_elsewhere :
    ∃ provider e role tsuper team e', Reachable provider {} e ∧
      (Operation.tsuperRoles role).perform.run e = (.ok [tsuper], e') ∧ e'.teamOf? role = some team ∧
      ∀ superTeam, ¬e'.SamePlace role team tsuper superTeam := by
  let e' := ((Operation.tsuperRoles ⟨4⟩).perform.run namesakeNested).2
  have names : (e'.binding ⟨4⟩).name = "p.B$R$Q" ∧ (e'.binding ⟨2⟩).name = "p.B" ∧
      (e'.binding ⟨1⟩).name = "p.A$Q" ∧ e'.teamOf? ⟨4⟩ = some ⟨2⟩ := by
    decide +kernel
  obtain ⟨role, team, tsuper, teamOf⟩ := names
  refine ⟨.empty, namesakeNested, ⟨4⟩, ⟨1⟩, ⟨2⟩, e', reachable_namesakeNested,
    Resolve.run_of_outcome tsuperRoles_namesakeNested, teamOf, ?_⟩
  rintro superTeam ⟨place, below, below'⟩
  rw [role, team] at below
  rw [tsuper] at below'
  have same : place.toList = ['$', 'R', '$', 'Q'] := by
    have split := congrArg String.toList below
    rw [String.toList_append] at split
    have cancelled : ['p', '.', 'B'] ++ ['$', 'R', '$', 'Q'] = ['p', '.', 'B'] ++ place.toList := split
    exact (List.append_cancel_left cancelled).symm
  have ends : place.toList <:+ "p.A$Q".toList := by
    rw [below', String.toList_append]
    exact List.suffix_append _ _
  rw [same] at ends
  exact absurd ends (by decide)

end Env

end TeamRoles
