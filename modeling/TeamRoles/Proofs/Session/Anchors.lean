import TeamRoles.Proofs.Session.Pass

/-!
Anchored types in every environment of a session. The anchor of a field is a path of final fields that leads to a
team. The role is what a search in that team finds, unless the field is a copy: that has the role that stands in the
team of the copy for the role of the copied field, whatever team that is a role of.
-/

namespace TeamRoles

namespace Resolve

variable {o : Oracle} {e : Env} {simple : String} {a b role team c : BindingId} {found : Option BindingId}
  {seen todo : List BindingId}

theorem memberTypes_of_resolved {members : List BindingId} (known : e.slot (.memberTypes b) = .resolved members) :
    memberTypes b o e = (.ok members, e) := by
  refine (known_bind_apply (Env.has_of_resolved known (by simp))).trans ?_
  rw [show (e.binding b).memberTypes = _ from known]
  rfl

theorem roleNamed_of_firstNamed (first : e.FirstNamed team simple found) :
    roleNamed team simple o e = (.ok found, e) := by
  obtain ⟨members, known, rfl⟩ := first
  exact bind_apply_ok (memberTypes_of_resolved known)

theorem rebindRole_of_rebinds (stands : e.Rebinds role team c) : rebindRole role team o e = (.ok c, e) := by
  refine get_bind_apply.trans ?_
  cases stands with
  | own same =>
    cases given : e.teamOf? role with
    | none => rfl
    | some own =>
      obtain rfl := same own given
      simp only [beq_self_eq_true, if_true]
      rfl
  | other given different first =>
    simp only [given, beq_iff_eq, if_neg different]
    exact bind_apply_ok (roleNamed_of_firstNamed first)

theorem memberAt_of_firstNamed (first : e.FirstNamed a simple found) :
    memberAt simple none a o e = (.ok (found.elim (.inner none) fun c => .stop (some c)), e) := by
  obtain ⟨members, known, rfl⟩ := first
  refine (bind_apply_ok (memberTypes_of_resolved known)).trans (get_bind_apply.trans ?_)
  cases members.find? fun m => (e.binding m).simpleName == simple <;> rfl

theorem above_of_shows {s : Supertypes} {depth : Nat} (shown : e.Shows b s) :
    above b (oracle (depth + 1)) e = (.ok s.bindings, e) := by
  refine bind_apply_ok (a := s) ((known_bind_apply shown.lt_size).trans ?_)
  cases shown with
  | resolved known =>
    rw [known]
    rfl
  | inProgress known =>
    rw [known]
    rfl

theorem findFrom_of_searchFinds (h : e.SearchFinds simple seen todo c) :
    ∃ n, ∀ depth fuel, walkFrom .depthFirst above (memberAt simple) fuel seen todo none (oracle (depth + 1)) e =
      if n < fuel then (.ok (some c), e) else (.error .tooDeep, e) := by
  induction h with
  | passed old _ ih =>
    obtain ⟨n, finds⟩ := ih
    refine ⟨n + 1, fun depth fuel => ?_⟩
    cases fuel with
    | zero => rfl
    | succ fuel =>
      rw [walkFrom, if_pos (by simpa using old), finds]
      simp only [Nat.add_lt_add_iff_right]
  | here new first =>
    refine ⟨0, fun depth fuel => ?_⟩
    cases fuel with
    | zero => rfl
    | succ fuel =>
      rw [walkFrom, if_neg (by simpa using new), if_pos (Nat.succ_pos fuel)]
      exact bind_apply_ok (memberAt_of_firstNamed first)
  | above new first shown _ ih =>
    obtain ⟨n, finds⟩ := ih
    refine ⟨n + 1, fun depth fuel => ?_⟩
    cases fuel with
    | zero => rfl
    | succ fuel =>
      rw [walkFrom, if_neg (by simpa using new)]
      refine (bind_apply_ok (memberAt_of_firstNamed first)).trans ((bind_apply_ok (above_of_shows shown)).trans ?_)
      refine (finds depth fuel).trans ?_
      simp only [Nat.add_lt_add_iff_right]

end Resolve

namespace Env

variable {provider : Provider} {options : Options} {e : Env} {f : FieldId} {x : Field} {role : Ty}
  {path list : List FieldId} {b team c : BindingId} {simple : String}

/-- A search for a member type finds the type, if it may go deep enough, and leaves the environment as it is. -/
def MemberFound (e : Env) (team : BindingId) (simple : String) (c : BindingId) : Prop :=
  ∃ n, ∀ depth, Resolve.findMemberType team simple (Resolve.oracle depth) e =
    if n < depth then (.ok (some c), e) else (.error .tooDeep, e)

theorem SearchFinds.memberFound (h : e.SearchFinds simple [] [team] c) : e.MemberFound team simple c := by
  obtain ⟨n, finds⟩ := Resolve.findFrom_of_searchFinds h
  refine ⟨n, fun depth => ?_⟩
  cases depth with
  | zero => rfl
  | succ depth => exact finds depth (depth + 1)

/-- Where a field whose anchor leads to the team has its role from: from that team, or from the field that it is a
copy of, seen from the team of the copy. -/
inductive RoleFrom (e : Env) (team : BindingId) (path : List FieldId) : FieldId → BindingId → Prop
  | sought {f : FieldId} {c : BindingId} : e.MemberFound team (e.binding c).simpleName c → RoleFrom e team path f c
  | copied {f g : FieldId} {role t c : BindingId} : (e.field f).origin = .copied → (e.field f).copySource = some g →
    (e.field g).type = .anchored (.declared role) path → RoleFrom e team path g role →
    e.teamOf? (e.field f).declaring = some t → (Resolve.rebindRole role t).run e = (.ok c, e) →
    RoleFrom e team path f c

theorem AnchorRole.roleFrom (h : e.AnchorRole team path x c) (field : e.field f = x) : e.RoleFrom team path f c := by
  induction h generalizing f with
  | sought found => exact .sought found.memberFound
  | copied origin source _ anchored _ teamOf stands ih =>
    subst field
    exact .copied origin source anchored (ih rfl) teamOf (Resolve.rebindRole_of_rebinds stands)

theorem Reachable.anchored (h : Reachable provider options e) : e.Anchored := by
  refine (h.preserves (I := fun e => e.Ranged ∧ e.Anchored) (fun config => ?_) fun run =>
    Resolve.stable_anchored run).2
  exact ⟨ranged_new provider options config, nofun, fun f => anchors_of_plain trivial, nofun⟩

/-- A field that is listed for a type has an anchor if its type is anchored: a path of final fields that leads to a
team. The role is what is found in that team, or stands for the role of the field that has been copied. -/
theorem fields_anchored (reachable : Reachable provider options e) (listed : e.slot (.fields b) = .resolved list)
    (mem : f ∈ list) (anchored : (e.field f).type = .anchored role path) :
    path ≠ [] ∧ (∀ g ∈ path, (e.field g).isFinal = true) ∧ ∃ last team c, path.getLast? = some last ∧
      bindingOf? (e.field last).type = some team ∧ (e.binding team).isTeam = true ∧
      role = .declared c ∧ e.RoleFrom team path f c := by
  have holds := reachable.anchored
  have own := holds.listed b list listed f mem
  obtain ⟨-, team, c, isRole, leads, given⟩ := holds.types f own.origin role path anchored
  obtain ⟨last, ends, -, ofTeam⟩ := leads.ends
  refine ⟨?_, leads.final, last, team, c, ends, ofTeam, leads.isTeam, isRole, given.roleFrom rfl⟩
  rintro rfl
  cases ends

/-- A role with a field that is anchored in a team which has nothing to do with its own, and a role that refines it in
a team with a namesake of the role of the field. -/
def namesakeOfAnchored : UnitDecl where
  fileName := "U"
  package := "p"
  types := [
    { name := "O", modifiers := [.team], memberTypes := [{ name := "Q" }] },
    { name := "A", modifiers := [.team]
      memberTypes := [{ name := "R", fields := [
        { name := "t", modifiers := [.final], type := .ofName "O" },
        { name := "f", type := .anchored "Q" "t" }] }] },
    { name := "B", modifiers := [.team], superclass := some (.ofName "A")
      memberTypes := [{ name := "R" }, { name := "Q" }] }]

/-- A session in which the unit has been declared and the refining role was asked for its fields. -/
def copyOfAnchored : Env :=
  ((Operation.ask (.fields ⟨5⟩)).perform.run
    ((Operation.addUnits [namesakeOfAnchored]).perform.run { options := {}, provider := .empty }).2).2

theorem reachable_copyOfAnchored : Reachable .empty {} copyOfAnchored :=
  .step (.ask (.fields ⟨5⟩)) (.step (.addUnits [namesakeOfAnchored]) (.new rfl))

theorem fields_copyOfAnchored :
    (copyOfAnchored.binding ⟨5⟩).fields.get? = some [⟨2⟩, ⟨3⟩] ∧
      (copyOfAnchored.field ⟨3⟩).type = .anchored (.declared ⟨6⟩) [⟨0⟩] ∧
      (copyOfAnchored.field ⟨0⟩).type = .declared ⟨0⟩ ∧ (copyOfAnchored.binding ⟨0⟩).isTeam = true ∧
      (copyOfAnchored.binding ⟨6⟩).simpleName = "Q" ∧
      ((Operation.findMemberType ⟨0⟩ "Q").perform.run copyOfAnchored).1 = .ok (some ⟨1⟩) := by
  decide +kernel

theorem fields_anchored_copyOfAnchored :
    ∃ list, copyOfAnchored.slot (.fields ⟨5⟩) = .resolved list ∧ ⟨3⟩ ∈ list ∧
      (copyOfAnchored.field ⟨3⟩).type = .anchored (.declared ⟨6⟩) [⟨0⟩] ∧ (copyOfAnchored.field ⟨0⟩).isFinal = true ∧
      copyOfAnchored.RoleFrom ⟨0⟩ [⟨0⟩] ⟨3⟩ ⟨6⟩ := by
  obtain ⟨stored, anchored, ofTeam, -⟩ := fields_copyOfAnchored
  have listed := slot_of_get? (p := .fields ⟨5⟩) stored
  have mem : (⟨3⟩ : FieldId) ∈ [⟨2⟩, ⟨3⟩] := by decide
  obtain ⟨-, final, last, team, c, ends, named, -, isRole, given⟩ :=
    fields_anchored reachable_copyOfAnchored listed mem anchored
  obtain rfl : ⟨0⟩ = last := Option.some.inj ends
  rw [ofTeam] at named
  cases named
  cases isRole
  exact ⟨_, listed, mem, anchored, final ⟨0⟩ List.mem_cons_self, given⟩

/-- A listed field whose role is not the one that is found in the team of its anchor. -/
theorem exists_role_apart :
    ∃ e b list f c path last team d e', Reachable .empty {} e ∧ e.slot (.fields b) = .resolved list ∧ f ∈ list ∧
      (e.field f).type = .anchored (.declared c) path ∧ path.getLast? = some last ∧
      bindingOf? (e.field last).type = some team ∧ (e.binding team).isTeam = true ∧
      (Operation.findMemberType team (e.binding c).simpleName).perform.run e = (.ok (some d), e') ∧ c ≠ d := by
  obtain ⟨stored, anchored, ofTeam, isTeam, named, found⟩ := fields_copyOfAnchored
  have ofTeam : bindingOf? (copyOfAnchored.field ⟨0⟩).type = some ⟨0⟩ := by
    rw [ofTeam]
    rfl
  have found := Resolve.run_of_outcome found
  rw [← named] at found
  exact ⟨copyOfAnchored, ⟨5⟩, _, ⟨3⟩, ⟨6⟩, _, ⟨0⟩, ⟨0⟩, ⟨1⟩, _, reachable_copyOfAnchored,
    slot_of_get? (p := .fields ⟨5⟩) stored, by decide, anchored, rfl, ofTeam, isTeam, found, by decide⟩

end Env

end TeamRoles
