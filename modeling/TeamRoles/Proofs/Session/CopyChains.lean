import TeamRoles.Proofs.Generics.Erasure
import TeamRoles.Proofs.Session.RoleMethods

/-!
Chains of copies in every environment of a session. What a copy or its surrogate is linked to belongs to a
type whose methods have been resolved, and the links of such methods do not change any more. So no chain comes
back to a method that it has passed, though a link may lead from an older method to a newer one: a surrogate
that the role has declared itself is linked after the methods of its tsuper roles have been made.
-/

namespace TeamRoles

open Relation

namespace Env

variable {e e' : Env}

/-- The first method is a copy of the second one, or the surrogate of a copy of its callin method. -/
def CopiedFrom (e : Env) (m s : MethodId) : Prop := (e.method m).copySource = some s

def CopiesEnd (e : Env) : Prop := WellFounded fun s m => e.CopiedFrom m s

namespace CopiesEnd

theorem irrefl (h : e.CopiesEnd) (m : MethodId) : ¬ TransGen e.CopiedFrom m m := by
  intro way
  have back := transGen_swap.2 way
  exact h.transGen.asymmetric m m back back

theorem of_methods_eq (h : e.CopiesEnd) (same : e'.methods = e.methods) : e'.CopiesEnd := by
  have copied : e'.CopiedFrom = e.CopiedFrom := by
    funext m s
    rw [CopiedFrom, method, same, CopiedFrom, method]
  rwa [CopiesEnd, copied]

theorem of_methodsLast {methods : Array Method} (h : e.CopiesEnd)
    (lasts : e.MethodsLast { e with methods }) (linked : Linked { e with methods }) :
    CopiesEnd { e with methods } := by
  have ends (m : MethodId) (settled : IsSettled { e with methods } m) :
      Acc (fun s m => CopiedFrom { e with methods } m s) m := by
    induction h.apply m with
    | intro m _ ih =>
      refine .intro m fun s copied => ih s ?_ (linked.source m s copied).1
      -- The method was settled before, so the link is an old one.
      obtain ⟨b, list, owns, resolved⟩ := settled
      have before : e.Owns b m := owns.before lasts resolved
      have kept := lasts.settled m list before.inside (by rwa [before.declaring])
      exact (congrArg Method.copySource kept).symm.trans copied
  exact ⟨fun m => .intro m fun s copied => ends s (linked.source m s copied).1⟩

end CopiesEnd

end Env

section Runs

variable {ℓ : Nat} {e e' : Env} {r : Option Abort}

open Env

theorem Step.copiesEnd (h : Step ℓ e e') (linked : e.Linked) (ends : e.CopiesEnd) : e'.CopiesEnd := by
  cases h with
  | methods _ lasts keeps => exact ends.of_methodsLast lasts (keeps linked)
  | quiet same => exact ends.of_methods_eq same.methods
  | @store c v => exact ends.of_methods_eq (by cases c <;> rfl)
  | _ => exact ends.of_methods_eq rfl

theorem Runs.copiesEnd (h : Runs ℓ e r e') (linked : e.Linked) (ends : e.CopiesEnd) : e'.CopiesEnd := by
  induction h with
  | done | stop | reentrant => exact ends
  | step h => exact h.copiesEnd linked ends
  | seq first _ ih ih' => exact ih' (first.linked linked) (ih linked ends)
  | cleanup _ same ih => exact (ih linked ends).of_methods_eq same.methods
  | resolve _ has fresh _ _ ih =>
    have inner := ih (linked.begin has fresh) (ends.of_methods_eq sameFrame_setSlot.methods)
    exact inner.of_methods_eq sameFrame_setSlot.methods
  | abort _ has fresh _ ih =>
    exact ih (linked.begin has fresh) (ends.of_methods_eq sameFrame_setSlot.methods)

end Runs

namespace Env

variable {provider : Provider} {options : Options} {e : Env} {m s : MethodId} {passed : List MethodId}
  {n fuel : Nat}

theorem Reachable.copiesEnd (h : Reachable provider options e) : e.CopiesEnd := by
  induction h with
  | new made =>
    obtain ⟨config, rfl⟩ := eq_of_new made
    exact ⟨fun m => .intro m nofun⟩
  | step op before ih => exact (op.lawful_perform.run _).runs.copiesEnd before.linked ih

theorem lt_size_of_copiedFrom (copied : e.CopiedFrom m s) : m.index < e.methods.size := by
  by_contra outside
  rw [CopiedFrom, method_of_size_le (Nat.le_of_not_lt outside)] at copied
  cases copied

/-- Copies that were passed on the way to a method, each once. -/
structure Trail (e : Env) (m : MethodId) (passed : List MethodId) : Prop where
  nodup : passed.Nodup
  leads : ∀ p ∈ passed, p.index < e.methods.size ∧ TransGen e.CopiedFrom p m

namespace Trail

theorem nil : e.Trail m [] := ⟨.nil, nofun⟩

theorem length_le (h : e.Trail m passed) : passed.length ≤ e.methods.size :=
  length_le_of_nodup MethodId.index (fun ⟨_⟩ ⟨_⟩ => congrArg _) h.nodup fun p hp => (h.leads p hp).1

theorem step (h : e.Trail m passed) (ends : e.CopiesEnd) (copied : e.CopiedFrom m s) :
    e.Trail s (m :: passed) where
  nodup := List.nodup_cons.2 ⟨fun again => ends.irrefl m (h.leads m again).2, h.nodup⟩
  leads := by
    refine List.forall_mem_cons.2 ⟨⟨lt_size_of_copiedFrom copied, .single copied⟩, fun p hp => ?_⟩
    exact (h.leads p hp).imp_right (·.tail copied)

end Trail

theorem copySource_copyOriginFrom (ends : e.CopiesEnd) (trail : e.Trail m passed)
    (enough : e.methods.size ≤ passed.length + fuel) :
    (e.method (e.copyOriginFrom fuel m)).copySource = none := by
  fun_induction copyOriginFrom e fuel m generalizing passed with
  | case1 m fuel source copied ih =>
    refine ih (trail.step ends copied) ?_
    rw [List.length_cons]
    omega
  | case2 fuel m last =>
    by_contra more
    obtain ⟨source, copied⟩ := Option.ne_none_iff_exists'.1 more
    cases fuel with
    | zero =>
      have := (trail.step ends copied).length_le
      rw [List.length_cons] at this
      omega
    | succ fuel => exact last fuel source rfl copied

theorem copiedFrom_copyOriginFrom : ReflTransGen e.CopiedFrom m (e.copyOriginFrom fuel m) := by
  fun_induction copyOriginFrom e fuel m with
  | case1 m fuel source copied ih => exact .head copied ih
  | case2 => exact .refl

theorem copyOriginFrom_of_le (last : (e.method (e.copyOriginFrom n m)).copySource = none) (le : n ≤ fuel) :
    e.copyOriginFrom fuel m = e.copyOriginFrom n m := by
  fun_induction copyOriginFrom e n m generalizing fuel with
  | case1 m n source copied ih =>
    obtain ⟨fuel, rfl⟩ := Nat.exists_eq_add_one.2 (Nat.lt_of_lt_of_le n.succ_pos le)
    have shorter := ih last (Nat.le_of_succ_le_succ le)
    simpa [copyOriginFrom, copied] using shorter
  | case2 n m _ => cases fuel <;> simp [copyOriginFrom, last]

theorem copySource_of_size_le (ends : e.CopiesEnd) (enough : e.methods.size ≤ fuel) :
    (e.method (e.copyOriginFrom fuel m)).copySource = none :=
  copySource_copyOriginFrom ends .nil (by simpa using enough)

/-- Chains of copies are well-founded. None comes back to a method, and following one leads, before the search
would be given up, to a method that is no copy. -/
theorem copies_wellFounded (h : Reachable provider options e) :
    (WellFounded fun s m => e.CopiedFrom m s) ∧
    ∀ m, ¬ TransGen e.CopiedFrom m m ∧ ReflTransGen e.CopiedFrom m (e.copyOrigin m) ∧
      (e.method (e.copyOrigin m)).copySource = none ∧
      ∀ fuel, e.methods.size ≤ fuel → e.copyOriginFrom fuel m = e.copyOrigin m := by
  have ends := h.copiesEnd
  have last (m : MethodId) := copySource_of_size_le (m := m) ends (Nat.le_refl _)
  have origin (m : MethodId) : e.copyOrigin m = e.copyOriginFrom e.methods.size m :=
    copyOriginFrom_of_le (last m) (Nat.le_succ _)
  refine ⟨ends, fun m => ⟨ends.irrefl m, copiedFrom_copyOriginFrom, ?_, fun fuel enough => ?_⟩⟩
  · rw [origin]
    exact last m
  · rw [origin]
    exact copyOriginFrom_of_le (last m) enough

/-- A callin method, a role that declares a method named as its surrogate, and a role that refines both. -/
def ownSurrogate : UnitDecl where
  fileName := "U"
  package := "p"
  types := [
    { name := "A", modifiers := [.team]
      memberTypes := [{ name := "R", methods := [{ name := "m", modifiers := [.callin] }] }] },
    { name := "B", modifiers := [.team], superclass := some (.ofName "A")
      memberTypes := [{ name := "R", methods := [{
        name := "_weave$m$base"
        params := ["a", "b", "c", "d"].map fun name => { name, type := .primitive "int" } }] }] },
    { name := "C", modifiers := [.team], superclass := some (.ofName "B")
      memberTypes := [{ name := "R" }] }]

theorem copies_wellFounded_ownSurrogate :
    (askedFor ownSurrogate ⟨5⟩).CopiedFrom ⟨5⟩ ⟨0⟩ ∧ (askedFor ownSurrogate ⟨5⟩).CopiedFrom ⟨0⟩ ⟨2⟩ ∧
      ((askedFor ownSurrogate ⟨5⟩).method ⟨2⟩).copySource = none ∧
      (askedFor ownSurrogate ⟨5⟩).copyOriginFrom 6 ⟨5⟩ = ⟨2⟩ := by
  have links : (askedFor ownSurrogate ⟨5⟩).methods.size = 6 ∧
      ((askedFor ownSurrogate ⟨5⟩).method ⟨5⟩).copySource = some ⟨0⟩ ∧
      ((askedFor ownSurrogate ⟨5⟩).method ⟨0⟩).copySource = some ⟨2⟩ ∧
      (askedFor ownSurrogate ⟨5⟩).copyOrigin ⟨5⟩ = ⟨2⟩ := by
    decide +kernel
  obtain ⟨size, first, second, origin⟩ := links
  have reachable : Reachable .empty {} (askedFor ownSurrogate ⟨5⟩) := reachable_askedFor
  obtain ⟨-, chains⟩ := copies_wellFounded reachable
  obtain ⟨-, -, last, enough⟩ := chains ⟨5⟩
  rw [origin] at last enough
  exact ⟨first, second, last, enough 6 (Nat.le_of_eq size)⟩

end Env

end TeamRoles
