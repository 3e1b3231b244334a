import TeamRoles.Proofs.Session.Pass

/-!
Role files. The roles of a role file are members of their team from then on, unless the team had been
asked for its members before the file was built: the members are latched, so those roles are lost.
-/

namespace TeamRoles

variable {ℓ : Nat} {e e' : Env} {r : Option Abort} {b team role : BindingId}

namespace Env

def Modelled (e : Env) : Prop :=
  ∀ b, (e.binding b).isTeam = true → (e.binding b).team.isSome = true

/-- The team has not been asked for its members, at least not with success. -/
def Unlisted (e : Env) (team : BindingId) : Prop :=
  (e.binding team).isTeam = true → ∀ list, e.slot (.memberTypes team) ≠ .resolved list

/-- The role comes from a role file of the team, and is one of its members if these are known. -/
structure Lists (e : Env) (team role : BindingId) : Prop where
  fromFile : ∃ model, (e.binding team).team = some model ∧ role ∈ model.roleFileRoles
  members {list : List BindingId} : e.slot (.memberTypes team) = .resolved list → role ∈ list

end Env

open Env

theorem Step.team_cases (h : Step ℓ e e') (b : BindingId) :
    ((e'.binding b).isTeam = (e.binding b).isTeam ∧
      (e'.binding b).team.isSome = (e.binding b).team.isSome ∧
      e'.slot (.memberTypes b) = e.slot (.memberTypes b)) ∨
    (e'.binding b).IsBare ∨ (e'.binding b).isTeam = false := by
  have kept (other : e'.binding b = e.binding b) :
      (e'.binding b).isTeam = (e.binding b).isTeam ∧
      (e'.binding b).team.isSome = (e.binding b).team.isSome ∧
      e'.slot (.memberTypes b) = e.slot (.memberTypes b) := by
    simp only [slot, other, and_self]
  -- A new type is bare, a stand-in is no team, and nothing else touches members or teams.
  cases h with
  | quiet same =>
    exact .inl ⟨same.proj_eq (g := Binding.isTeam) (fun _ => rfl) b,
      congrArg Option.isSome (same.proj_eq (g := Binding.team) (fun _ => rfl) b), same.slots _⟩
  | @declare x _ _ bare | @load x _ _ _ _ _ bare =>
    by_cases new : b = e.nextBinding
    · subst new
      have added : (e.addBinding x).binding e.nextBinding = x := binding_addBinding_self
      exact .inr (.inl (added.symm ▸ bare))
    · exact .inl (kept (binding_addBinding_of_ne new))
  | @standIn name reason =>
    by_cases new : b = e.nextBinding
    · subst new
      have added : (e.addBinding (.standIn name reason)).binding e.nextBinding =
        .standIn name reason := binding_addBinding_self
      exact .inr (.inr ((congrArg Binding.isTeam added).trans (by decide : Modifiers.public.isTeam = false)))
    · exact .inl (kept (binding_addBinding_of_ne new))
  | roleFile =>
    refine .inl ⟨binding_update_proj (by exact fun _ => rfl) b, ?_, slot_addRoleFile _⟩
    exact binding_update_proj (g := fun x => x.team.isSome) (fun _ => Option.isSome_map) b
  | @store c v => cases c <;> exact .inl (kept rfl)
  | _ => exact .inl (kept rfl)

theorem Step.modelled (h : Step ℓ e e') (modelled : e.Modelled) : e'.Modelled := by
  intro b isTeam
  rcases h.team_cases b with ⟨same, model, -⟩ | bare | other
  · rw [model]
    exact modelled b (same ▸ isTeam)
  · exact bare.isTeam isTeam
  · cases other.symm.trans isTeam

theorem Step.unlisted (h : Step ℓ e e') (unlisted : e.Unlisted team) : e'.Unlisted team := by
  intro isTeam list
  rcases h.team_cases team with ⟨same, -, slot⟩ | bare | other
  · rw [slot]
    exact unlisted (same ▸ isTeam) list
  · have fresh : (e'.binding team).memberTypes = .unresolved := by
      rw [← bare.eq]
      rfl
    simp [Env.slot, fresh]
  · cases other.symm.trans isTeam

theorem Env.Modelled.setSlot {p : Part} {s : Slot p.Value} (h : e.Modelled) :
    (e.setSlot p s).Modelled := by
  intro b isTeam
  have same : e.SameFrame (e.setSlot p s) := sameFrame_setSlot
  rw [same.proj_eq (g := Binding.isTeam) (fun _ => rfl)] at isTeam
  rw [same.proj_eq (g := Binding.team) (fun _ => rfl)]
  exact h b isTeam

theorem Runs.modelled (h : Runs ℓ e r e') (modelled : e.Modelled) : e'.Modelled :=
  h.keeps Step.modelled (fun _ _ _ => .setSlot) (fun _ _ _ _ _ => .setSlot) modelled

namespace Env.Lists

theorem of_binding (h : e.Lists team role) (same : e'.binding team = e.binding team) :
    e'.Lists team role := by
  refine ⟨by rw [same]; exact h.fromFile, fun known => h.members ?_⟩
  rwa [slot, same] at known

theorem of_bindings (h : e.Lists team role) (same : e'.bindings = e.bindings) : e'.Lists team role :=
  h.of_binding (by rw [binding, same, binding])

theorem lt_size (h : e.Lists team role) : team.index < e.bindings.size := by
  obtain ⟨model, given, -⟩ := h.fromFile
  refine lt_size_of_ne_default fun default => ?_
  rw [default] at given
  cases given

theorem update {f : Binding → Binding} (h : e.Lists team role)
    (fromFile : b = team → ∀ model, (e.binding team).team = some model →
      role ∈ model.roleFileRoles → ∃ model, (f (e.binding team)).team = some model ∧
        role ∈ model.roleFileRoles)
    (members : b = team → ∀ list, (f (e.binding team)).memberTypes = .resolved list → role ∈ list) :
    (e.update b f).Lists team role := by
  obtain ⟨model, modelled, joined⟩ := h.fromFile
  constructor
  · rw [binding_update]
    split
    · next same => exact fromFile same.1.symm model modelled joined
    · exact h.fromFile
  · intro list known
    rw [slot, binding_update] at known
    split at known
    · next same => exact members same.1.symm list known
    · exact h.members known

end Env.Lists

/-- What is known while a role file is built: there have been some types before, and some teams have not
been asked for their members. -/
structure Env.Awaiting (n : Nat) (unasked : BindingId → Prop) (e : Env) : Prop where
  size : n ≤ e.bindings.size
  modelled : e.Modelled
  unlisted {team : BindingId} : unasked team → e.Unlisted team

theorem Step.awaiting {n : Nat} {unasked : BindingId → Prop} (h : Step ℓ e e')
    (awaiting : e.Awaiting n unasked) : e'.Awaiting n unasked where
  size := Nat.le_trans awaiting.size h.lasts.size
  modelled := h.modelled awaiting.modelled
  unlisted awaited := h.unlisted (awaiting.unlisted awaited)

/-- A role as a role file leaves it: a new type, and among the members of the team around it. -/
structure Env.Joins (n : Nat) (unasked : BindingId → Prop) (role : BindingId) (e : Env) : Prop where
  new : n ≤ role.index
  lists {team : BindingId} : (e.binding role).enclosing = some team → unasked team → e.Lists team role

theorem Env.Joins.of_bindings {n : Nat} {unasked : BindingId → Prop} (h : e.Joins n unasked role)
    (same : e'.bindings = e.bindings) : e'.Joins n unasked role := by
  refine ⟨h.new, fun inside awaited => (h.lists ?_ awaited).of_bindings same⟩
  rwa [binding, same] at inside

namespace Resolve

variable {n : Nat} {unasked : BindingId → Prop} {unit : UnitId} {u : UnitDecl}

theorem Introduced.joins {other : BindingId} {roles : List BindingId}
    (h : Introduced (Awaiting n unasked) (some other) role e) (awaiting : e.Awaiting n unasked)
    (isTeam : (e.binding other).isTeam = true) (created : role ∈ roles) :
    (e.addRoleFile other unit roles).Joins n unasked role := by
  obtain ⟨⟨start, before, rfl⟩, -, enclosing⟩ := h
  refine ⟨before.size, fun {team} outer awaited => ?_⟩
  have same : ((e.addRoleFile other unit roles).binding start.nextBinding).enclosing = some other :=
    (binding_update_proj (by exact fun _ => rfl) _).trans enclosing
  cases same.symm.trans outer
  obtain ⟨model, modelled⟩ := Option.isSome_iff_exists.1 (awaiting.modelled other isTeam)
  have joined : ((e.addRoleFile other unit roles).binding other).team =
      (e.binding other).team.map fun m =>
        { roleFiles := m.roleFiles ++ [unit], roleFileRoles := m.roleFileRoles ++ roles } := by
    rw [addRoleFile, binding_update, if_pos ⟨rfl, lt_size_of_isTeam isTeam⟩]
  refine ⟨⟨_, by rw [joined, modelled]; rfl, List.mem_append_right _ created⟩, fun {list} known => ?_⟩
  rw [slot_addRoleFile] at known
  exact absurd known (awaiting.unlisted awaited isTeam list)

theorem buildRoleFile_triple {name : String} :
    Triple (ℓ + 8) (Awaiting n unasked) (buildRoleFile unit u name)
      fun roles e => ∀ role ∈ roles, e.Joins n unasked role := by
  -- A run of level 0 resolves no members, and looking for the team is one.
  have low : Stable 0 (Awaiting n unasked) := stable_of_steps (ℓ := 0) Step.awaiting
  refine Lawful.keepingAt 0 (by simp) (.ask _ (by simp)) low fun found => .get_bind fun e => ?_
  split
  · exact Lawful.before lawful_reportInUnit fun _ => .pure fun _ _ => nofun
  · next other given =>
    obtain ⟨-, isTeam⟩ := Option.filter_eq_some_iff.1 given
    let known (e : Env) : Prop := e.Awaiting n unasked ∧ (e.binding other).isTeam = true
    have step {e e' : Env} (h : Step (ℓ + 8) e e') (held : known e) : known e' :=
      ⟨h.awaiting held.1, h.lasts.isTeam_eq held.2⟩
    extract_lets build
    have built : ∀ r, Triple (ℓ + 8) known (build r) fun roles e =>
        ∀ role ∈ roles, e.Joins n unasked role := by
      refine fun _ => .bind (buildRoles_triple step) fun roles => ?_
      rintro o - e ⟨⟨awaiting, isTeam⟩, introduced⟩
      refine ⟨.step (.roleFile (Nat.le_add_left _ _) fun r hr => (introduced r hr).inside) rfl, ?_⟩
      rintro _ ⟨⟩ role created
      obtain ⟨⟨start, before, new⟩, inside, enclosing⟩ := introduced role created
      exact Introduced.joins ⟨⟨start, before.1, new⟩, inside, enclosing⟩ awaiting isTeam created
    refine .pre (P := known) (.ite (built ()) ?_) ?_
    · exact Lawful.keepingAt 0 (by simp) lawful_reportInUnit (stable_of_steps step) built
    · rintro _ ⟨rfl, awaiting⟩
      exact ⟨awaiting, isTeam⟩

theorem buildUnit_triple {name : String} (given : u.teamPackage = some name) :
    Triple (ℓ + 8) (Awaiting n unasked) (buildUnit u)
      fun unit e => ∀ role ∈ (e.unit unit).types, e.Joins n unasked role := by
  refine .get_bind fun start => ?_
  refine .bind (Q := fun _ e => e.Awaiting n unasked ∧ start.units.size < e.units.size) ?_ fun _ => ?_
  · rintro o - e ⟨rfl, awaiting⟩
    have same : e.Same { e with units := e.units.push { decl := u } } := Env.same_addUnit rfl
    refine ⟨.step (.quiet same) rfl, fun _ _ => ⟨(Step.quiet (ℓ := 0) same).awaiting awaiting, ?_⟩⟩
    exact Nat.lt_of_lt_of_eq (Nat.lt_succ_self _) (Array.size_push _).symm
  · rw [given]
    have kept : Stable (ℓ + 8) fun e => start.units.size < e.units.size :=
      fun _ _ _ runs inside => Nat.lt_of_lt_of_le inside runs.lasts.units
    refine .bind (buildRoleFile_triple.frame kept) fun types => .get_bind fun d => ?_
    extract_lets hasTeam
    rintro o - e ⟨rfl, joins, inside⟩
    have declared : ((e.updateUnit ⟨start.units.size⟩ ({ · with types, hasTeam })).unit
        ⟨start.units.size⟩).types = types := by
      simp [Env.unit, Env.updateUnit, Array.getElem_modify, inside]
    refine ⟨.step (.quiet (Env.same_updateUnit fun _ => rfl)) rfl, ?_⟩
    rintro _ ⟨⟩ role created
    exact (joins role (declared ▸ created)).of_bindings rfl

end Resolve

/-- Whatever a session does, a role that joined its team stays among its members. -/
def Pairing.listing (team role : BindingId) : Pairing where
  Pairs e e' := e' = e ∧ e.Lists team role
  Queues _ _ := True
  Builds := True
  Opens := True
  alike := fun ⟨same, _⟩ => .inl same
  begun _ _ _ := .inr fun _ _ => trivial
  designator _ _ _ _ := trivial
  apart := by
    rintro e _ g apart - - ⟨rfl, lists⟩
    exact ⟨rfl, lists.of_bindings (apart.bindings _)⟩
  report := fun ⟨same, lists⟩ => ⟨by rw [same], lists.of_bindings rfl⟩
  update := by
    rintro e _ b f steady ⟨rfl, lists⟩
    refine ⟨rfl, lists.update (fun _ model given joined => ?_) fun _ list known => ?_⟩
    · exact ⟨model, by rw [steady.team, given], joined⟩
    · exact lists.members (steady.memberTypes known)
  members := by
    rintro e _ b list ⟨rfl, lists⟩ fromFiles
    refine ⟨rfl, lists.update (fun _ model given joined => ⟨model, given, joined⟩) ?_⟩
    rintro rfl _ ⟨⟩
    obtain ⟨model, given, joined⟩ := lists.fromFile
    exact fromFiles model given role joined
  add := by
    rintro e _ x - ⟨rfl, lists⟩
    refine ⟨rfl, lists.of_binding (binding_addBinding_of_ne ?_)⟩
    rintro rfl
    exact Nat.lt_irrefl _ lists.lt_size
  attach := by
    rintro e _ b outer unattached ⟨rfl, lists⟩
    obtain ⟨model, given, -⟩ := lists.fromFile
    have other : b ≠ team := by
      rintro rfl
      cases unattached.symm.trans given
    exact ⟨rfl, lists.update (fun same => absurd same other) fun same => absurd same other⟩
  roleFile := by
    rintro e _ b unit roles - ⟨rfl, lists⟩
    refine ⟨rfl, lists.update (fun _ model given joined => ?_) fun _ _ => lists.members⟩
    exact ⟨_, by rw [given]; rfl, List.mem_append_left _ joined⟩
  queue := fun _ ⟨same, lists⟩ => ⟨by rw [same], lists.of_bindings rfl⟩
  drain := fun ⟨same, lists⟩ => ⟨by rw [same], lists.of_bindings rfl⟩

namespace Env

theorem Leads.lists (h : e.Leads e') (lists : e.Lists team role) : e'.Lists team role := by
  induction h with
  | refl => exact lists
  | step op _ ih =>
    have kept := (Resolve.keeps_perform trivial op fun _ => trivial).run (p := .listing team role) ⟨rfl, ih⟩
    exact kept.2.2

variable {provider : Provider} {options : Options}

/-- The roles of a role file are members of their team, and stay so, exactly if nobody had asked the
team for its members when the file was built. -/
theorem roleFile_listed {e'' left : Env} {u : UnitDecl} {unit : UnitId} {list : List BindingId}
    (h : Reachable provider options e) (roleFile : u.teamPackage.isSome = true)
    (built : (Operation.buildUnit u).perform.run e = (.ok unit, e'))
    (created : role ∈ (e'.unit unit).types) (inside : (e'.binding role).enclosing = some team)
    (later : e'.Leads e'')
    (asked : (Operation.memberTypes team).perform.run e'' = (.ok list, left)) :
    role ∈ list ↔ ∀ before, e.slot (.memberTypes team) ≠ .resolved before := by
  obtain ⟨name, given⟩ := Option.isSome_iff_exists.1 roleFile
  have modelled : e.Modelled := by
    refine h.keeps (fun _ b isTeam => ?_) Runs.modelled
    exact absurd (lt_size_of_isTeam isTeam) (Nat.not_lt_zero _)
  have joins : e'.Joins e.bindings.size e.Unlisted role :=
    (Resolve.Triple.run (Resolve.buildUnit_triple (ℓ := 0) given)
      ⟨Nat.le_refl _, modelled, id⟩ built).2 role created
  obtain ⟨-, resolved⟩ := Resolve.Triple.run (Resolve.memberTypes_triple (ℓ := 0)) trivial asked
  constructor
  · intro member before known
    have lasts : e.Lasts left := ((Operation.buildUnit u).lawful_perform.lasts built).trans
      (later.lasts.trans ((Operation.memberTypes team).lawful_perform.lasts asked))
    -- The members were known before there was such a type.
    cases resolved.symm.trans (lasts.resolved known)
    exact absurd (h.ranged.slots _ _ known role member) (Nat.not_lt_of_le joins.new)
  · intro unasked
    have lists : e''.Lists team role := later.lists (joins.lists inside fun _ => unasked)
    have kept : left.Lists team role := by
      have next : e''.Leads ((Operation.memberTypes team).perform.run e'').2 :=
        .step (.memberTypes team) .refl
      rw [asked] at next
      exact next.lists lists
    exact kept.members resolved

def bareTeam : UnitDecl where
  fileName := "T"
  package := "p"
  types := [{ name := "T", modifiers := [.team] }]

def ofTeam : Env :=
  ((Operation.buildUnit bareTeam).perform.run { options := {}, provider := .empty }).2

/-- A role of that team, in a file of its own. -/
def roleOfTeam : UnitDecl where
  fileName := "R"
  package := "p"
  teamPackage := some "p.T"
  types := [{ name := "R" }]

def withRoleOfTeam (e : Env) : Env := ((Operation.buildUnit roleOfTeam).perform.run e).2

/-- The file gives the team a role, and the team is then asked for its members. -/
def Joined (e : Env) (members : List BindingId) : Prop :=
  ((Operation.buildUnit roleOfTeam).perform.run e).1 = .ok ⟨1⟩ ∧
    (((withRoleOfTeam e).unit ⟨1⟩).types = [⟨1⟩] ∧
      ((withRoleOfTeam e).binding ⟨1⟩).name = "p.T$R" ∧
      ((withRoleOfTeam e).binding ⟨1⟩).enclosing = some ⟨0⟩) ∧
    ((Operation.memberTypes ⟨0⟩).perform.run (withRoleOfTeam e)).1 = .ok members

instance (e : Env) (members : List BindingId) : Decidable (Joined e members) :=
  inferInstanceAs (Decidable (_ ∧ (_ ∧ _ ∧ _) ∧ _))

theorem joined_ofTeam :
    Joined ofTeam [⟨1⟩] ∧ ((Operation.memberTypes ⟨0⟩).perform.run ofTeam).1 = .ok [] ∧
      Joined ((Operation.memberTypes ⟨0⟩).perform.run ofTeam).2 [] := by
  decide +kernel

open Resolve in
theorem roleFile_listed_ofTeam :
    ∃ e' left, Reachable .empty {} ofTeam ∧
      (Operation.buildUnit roleOfTeam).perform.run ofTeam = (.ok ⟨1⟩, e') ∧
      (e'.unit ⟨1⟩).types = [⟨1⟩] ∧ (e'.binding ⟨1⟩).enclosing = some ⟨0⟩ ∧
      (Operation.memberTypes ⟨0⟩).perform.run e' = (.ok [⟨1⟩], left) ∧
      (⟨1⟩ ∈ [BindingId.mk 1] ↔ ∀ before, ofTeam.slot (.memberTypes ⟨0⟩) ≠ .resolved before) := by
  obtain ⟨⟨built, ⟨created, -, inside⟩, asked⟩, -⟩ := joined_ofTeam
  have reachable : Reachable .empty {} ofTeam := .step _ (.new rfl)
  have built := run_of_outcome built
  have asked := run_of_outcome asked
  refine ⟨_, _, reachable, built, created, inside, asked, ?_⟩
  exact roleFile_listed reachable rfl built (created ▸ List.mem_singleton_self _) inside .refl asked

open Resolve in
/-- A role that is lost: the team was asked for its members before. -/
theorem exists_role_lost :
    ∃ e e₁ e₂ e₃, Reachable .empty {} e ∧
      (Operation.memberTypes ⟨0⟩).perform.run e = (.ok [], e₁) ∧
      (Operation.buildUnit roleOfTeam).perform.run e₁ = (.ok ⟨1⟩, e₂) ∧
      ((e₂.unit ⟨1⟩).types = [⟨1⟩] ∧ (e₂.binding ⟨1⟩).name = "p.T$R" ∧
        (e₂.binding ⟨1⟩).enclosing = some ⟨0⟩) ∧
      (Operation.memberTypes ⟨0⟩).perform.run e₂ = (.ok [], e₃) := by
  obtain ⟨-, first, built, role, again⟩ := joined_ofTeam
  exact ⟨ofTeam, _, withRoleOfTeam _, _, .step _ (.new rfl), run_of_outcome first,
    run_of_outcome built, role, run_of_outcome again⟩

end Env

end TeamRoles
