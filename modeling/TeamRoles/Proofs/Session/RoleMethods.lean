import Mathlib.Data.List.Pairwise
import TeamRoles.Proofs.Env.Offers
import TeamRoles.Proofs.Session.Reachable

/-!
The methods of a role in every environment of a session.

Callin methods of a role have one surrogate exactly if they have the same name and the same number of
parameters, so overloads share it. A method of a tsuper role is inherited once for each list of parameter
types that it comes with: the roles of a team between may have replaced others in them.
-/

namespace TeamRoles.Env

variable {provider : Provider} {options : Options} {e : Env} {role : BindingId}
  {list : List MethodId}

theorem Reachable.linked (h : Reachable provider options e) : e.Linked := by
  refine h.keeps (fun config => ⟨fun b list resolved => ?_, ?_, ?_⟩) Runs.linked
  · cases resolved
  · rintro m s ⟨⟩
  · rintro m s ⟨⟩

theorem Reachable.offers (h : Reachable provider options e)
    (resolved : e.slot (.methods role) = .resolved list) : e.Offers role list := by
  have offering : e.Offering := by
    refine h.keeps (fun config b list resolved => ?_) Runs.offering
    cases resolved
  exact offering role list resolved

def callinMethods (e : Env) (list : List MethodId) : List MethodId :=
  list.filter fun m => (e.method m).isCallin && !(e.method m).isSurrogate

/-- Every callin method of a role has a surrogate among the role's methods, two of them have the same one
exactly if they have the same name and as many parameters, and a surrogate that was made for a callin
method has its parameters and its result. -/
theorem surrogates_of_callins (h : Reachable provider options e)
    (isRole : (e.binding role).isRole = true)
    (resolved : e.slot (.methods role) = .resolved list) :
    (∀ m ∈ e.callinMethods list, ∃ s ∈ list, (e.method m).surrogate = some s ∧
      (e.method s).Serves (e.method m)) ∧
    (∀ m ∈ e.callinMethods list, ∀ n ∈ e.callinMethods list, m ≠ n →
      ((e.method m).surrogate = (e.method n).surrogate ↔ (e.method m).Shares (e.method n))) ∧
    ∀ s ∈ list, ∀ c, (e.method s).origin = .surrogate c →
      c ∈ list ∧ (e.method s).declared = (e.method c).woven := by
  have offers := h.offers resolved
  have callin {m : MethodId} (mem : m ∈ e.callinMethods list) :
      m ∈ list ∧ (e.method m).isCallin = true ∧ (e.method m).isSurrogate = false := by
    simpa [callinMethods] using mem
  refine ⟨fun m mem => ?_, fun m hm n hn differ => ?_, offers.made isRole⟩
  · obtain ⟨mem, isCallin, plain⟩ := callin mem
    exact offers.paired isRole m mem isCallin plain
  · obtain ⟨hm, isCallin, plain⟩ := callin hm
    obtain ⟨hn, isCallin', plain'⟩ := callin hn
    exact offers.shared isRole m hm n hn differ isCallin plain isCallin' plain'

def overloaded : UnitDecl where
  fileName := "U"
  package := "p"
  types := [{
    name := "T"
    modifiers := [.team]
    memberTypes := [{
      name := "R"
      methods := [
        { name := "m", modifiers := [.callin], params := [{ name := "x", type := .primitive "int" }] },
        { name := "m", modifiers := [.callin]
          params := [{ name := "x", type := .primitive "boolean" }] }] }] }]

def askedFor (unit : UnitDecl) (b : BindingId) : Env :=
  ((Operation.ask (.methods b)).perform.run
    ((Operation.addUnits [unit]).perform.run { options := {}, provider := .empty }).2).2

theorem reachable_askedFor {unit : UnitDecl} {b : BindingId} : Reachable .empty {} (askedFor unit b) :=
  .step (.ask (.methods b)) (.step (.addUnits [unit]) (.new rfl))

theorem methods_overloaded :
    ((askedFor overloaded ⟨1⟩).binding ⟨1⟩).isRole = true ∧
      ((askedFor overloaded ⟨1⟩).binding ⟨1⟩).methods.get? = some [⟨0⟩, ⟨1⟩, ⟨2⟩] ∧
      (askedFor overloaded ⟨1⟩).callinMethods [⟨0⟩, ⟨1⟩, ⟨2⟩] = [⟨0⟩, ⟨1⟩] ∧
      ((askedFor overloaded ⟨1⟩).method ⟨0⟩).surrogate = some ⟨2⟩ ∧
      ((askedFor overloaded ⟨1⟩).method ⟨1⟩).surrogate = some ⟨2⟩ := by
  decide +kernel

theorem surrogates_of_callins_overloaded :
    ((askedFor overloaded ⟨1⟩).binding ⟨1⟩).isRole = true ∧
      (askedFor overloaded ⟨1⟩).slot (.methods ⟨1⟩) = .resolved [⟨0⟩, ⟨1⟩, ⟨2⟩] ∧
      ((askedFor overloaded ⟨1⟩).method ⟨2⟩).Serves ((askedFor overloaded ⟨1⟩).method ⟨0⟩) ∧
      ((askedFor overloaded ⟨1⟩).method ⟨0⟩).Shares ((askedFor overloaded ⟨1⟩).method ⟨1⟩) := by
  obtain ⟨isRole, stored, callins, link, link'⟩ := methods_overloaded
  have resolved := slot_of_get? (p := .methods ⟨1⟩) stored
  obtain ⟨paired, shared, -⟩ := surrogates_of_callins reachable_askedFor isRole resolved
  rw [callins] at paired shared
  refine ⟨isRole, resolved, ?_, ?_⟩
  · obtain ⟨s, -, linked, serves⟩ := paired ⟨0⟩ (by decide)
    cases linked.symm.trans link
    exact serves
  · exact (shared ⟨0⟩ (by decide) ⟨1⟩ (by decide) (by decide)).1 (link.trans link'.symm)

/-- Two callin methods of a role with one surrogate. -/
theorem exists_shared_surrogate :
    ∃ e role list m n, Reachable .empty {} e ∧ (e.binding role).isRole = true ∧
      e.slot (.methods role) = .resolved list ∧ m ∈ e.callinMethods list ∧
      n ∈ e.callinMethods list ∧ m ≠ n ∧ (e.method m).surrogate.isSome = true ∧
      (e.method m).surrogate = (e.method n).surrogate := by
  obtain ⟨isRole, stored, callins, link, link'⟩ := methods_overloaded
  refine ⟨_, ⟨1⟩, _, ⟨0⟩, ⟨1⟩, reachable_askedFor, isRole, slot_of_get? (p := .methods ⟨1⟩) stored,
    ?_, ?_, by decide, by rw [link]; rfl, link.trans link'.symm⟩
  all_goals
    rw [callins]
    decide

theorem Linked.name_copyOriginFrom (h : e.Linked) (fuel : Nat) (m : MethodId) :
    (e.method (e.copyOriginFrom fuel m)).name = (e.method m).name := by
  fun_induction copyOriginFrom e fuel m with
  | case1 m fuel source copied ih => rw [ih, (h.source m source copied).2]
  | case2 => rfl

theorem Linked.name_copyOrigin (h : e.Linked) (m : MethodId) :
    (e.method (e.copyOrigin m)).name = (e.method m).name :=
  h.name_copyOriginFrom _ m

/-- Methods of a role that were copied from one method have its name and differ in their parameters,
unless one of them is a surrogate whose name is not recognised. -/
theorem copies_differ {a b : MethodId} (h : Reachable provider options e)
    (source : (e.binding role).isSource = true) (resolved : e.slot (.methods role) = .resolved list)
    (ha : a ∈ list) (hb : b ∈ list) (differ : a ≠ b) (same : e.copyOrigin a = e.copyOrigin b) :
    (e.method a).name = (e.method b).name ∧
      ((e.method a).declared.params ≠ (e.method b).declared.params ∨
        Name.isSurrogate (e.method a).name = false ∧
          ((e.method a).isSurrogate = true ∨ (e.method b).isSurrogate = true)) := by
  have name : (e.method a).name = (e.method b).name := by
    rw [← h.linked.name_copyOrigin a, same, h.linked.name_copyOrigin]
  refine ⟨name, ?_⟩
  have symmetric : Std.Symm fun m n => ¬ (e.method m).Clashes (e.method n) :=
    ⟨fun _ _ distinct clash => distinct clash.symm⟩
  have distinct := ((h.offers resolved).distinct source).forall ha hb differ
  by_cases params : (e.method a).declared.params = (e.method b).declared.params
  · have unrecognised : Name.isSurrogate (e.method a).name = false :=
      Bool.eq_false_iff.2 fun recognised => distinct ⟨⟨name, params⟩, .inl recognised⟩
    refine .inr ⟨unrecognised, ?_⟩
    by_contra plain
    simp only [not_or, Bool.not_eq_true] at plain
    exact distinct ⟨⟨name, params⟩, .inr plain⟩
  · exact .inl params

/-- Three teams, each of which refines a role of the one before. The second one refines another role as
well, which is the type of a parameter of the first role's method. -/
def refinedTwice : UnitDecl where
  fileName := "U"
  package := "p"
  types := [
    { name := "A", modifiers := [.team]
      memberTypes := [
        { name := "R", methods := [{ name := "m", params := [{ name := "x", type := .ofName "Q" }] }] },
        { name := "Q" }] },
    { name := "B", modifiers := [.team], superclass := some (.ofName "A")
      memberTypes := [{ name := "R" }, { name := "Q" }] },
    { name := "C", modifiers := [.team], superclass := some (.ofName "B")
      memberTypes := [{ name := "R" }] }]

theorem methods_refinedTwice :
    ((askedFor refinedTwice ⟨7⟩).binding ⟨7⟩).name = "p.C$R" ∧
      ((askedFor refinedTwice ⟨7⟩).binding ⟨7⟩).isSource = true ∧
      ((askedFor refinedTwice ⟨7⟩).binding ⟨7⟩).isRole = true ∧
      ((askedFor refinedTwice ⟨7⟩).binding ⟨7⟩).methods.get? = some [⟨2⟩, ⟨3⟩] ∧
      (askedFor refinedTwice ⟨7⟩).copyOrigin ⟨2⟩ = ⟨0⟩ ∧
      (askedFor refinedTwice ⟨7⟩).copyOrigin ⟨3⟩ = ⟨0⟩ := by
  decide +kernel

theorem copies_differ_refinedTwice :
    ((askedFor refinedTwice ⟨7⟩).binding ⟨7⟩).isSource = true ∧
      (askedFor refinedTwice ⟨7⟩).slot (.methods ⟨7⟩) = .resolved [⟨2⟩, ⟨3⟩] ∧
      (askedFor refinedTwice ⟨7⟩).copyOrigin ⟨2⟩ = (askedFor refinedTwice ⟨7⟩).copyOrigin ⟨3⟩ ∧
      ((askedFor refinedTwice ⟨7⟩).method ⟨2⟩).name = ((askedFor refinedTwice ⟨7⟩).method ⟨3⟩).name := by
  obtain ⟨-, source, -, stored, first, second⟩ := methods_refinedTwice
  have resolved := slot_of_get? (p := .methods ⟨7⟩) stored
  have same := first.trans second.symm
  refine ⟨source, resolved, same, ?_⟩
  exact (copies_differ reachable_askedFor source resolved (by decide) (by decide) (by decide) same).1

/-- A role with two methods that were copied from one. -/
theorem exists_copied_twice :
    ∃ e role list a b, Reachable .empty {} e ∧ (e.binding role).isSource = true ∧
      (e.binding role).isRole = true ∧ e.slot (.methods role) = .resolved list ∧ a ∈ list ∧
      b ∈ list ∧ a ≠ b ∧ e.copyOrigin a = e.copyOrigin b := by
  obtain ⟨-, source, isRole, stored, first, second⟩ := methods_refinedTwice
  exact ⟨_, ⟨7⟩, _, ⟨2⟩, ⟨3⟩, reachable_askedFor, source, isRole,
    slot_of_get? (p := .methods ⟨7⟩) stored, by decide, by decide, by decide, first.trans second.symm⟩

end TeamRoles.Env
