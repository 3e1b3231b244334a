import TeamRoles.Proofs.Lookup.Phases
import TeamRoles.Proofs.Session.Pass

/-!
A new session and its first batch of units. No declaration is lost: each has a type of its own, or there is a
report that it has none. That no name is given to two types is so exactly if there is no clash between a role
file of a compiled team and a declaration of that team; only a team inside another type can be in such a clash.
-/

namespace TeamRoles

namespace Library

variable {l : Library} {d : Descriptor} {name : String}

def Honest (l : Library) : Prop := ∀ entry ∈ l.types, entry.2.name = entry.1

theorem Honest.insert (h : l.Honest) : (l.insert d).Honest :=
  List.forall_mem_cons.2 ⟨rfl, fun entry mem => h entry (List.mem_of_mem_filter mem)⟩

theorem honest_core (n : WellKnownNames) : (core n).Honest :=
  List.foldlRecOn (Descriptor.core n) Library.insert (List.forall_mem_nil _) fun _ honest _ _ => honest.insert

theorem Honest.name_eq (h : l.Honest) (found : l.provider.find name = .ok (some d)) : d.name = name :=
  h (name, d) (Env.mem_of_lookup (Except.ok.inj found))

end Library

namespace Env

variable {provider : Provider} {options : Options} {fresh e : Env} {units : List UnitDecl} {ids : List UnitId}

theorem orderly_new (provider : Provider) (options : Options) (config : SeverityConfig) :
    ({ options, provider, diagnostics := { config } } : Env).Orderly where
  ranged := ranged_new provider options config
  placed := List.forall_mem_nil _
  furnished := List.forall_mem_nil _
  mapped := .inr (.of_found (List.forall_mem_nil _))

theorem unloaded_new (provider : Provider) (options : Options) (config : SeverityConfig) :
    ({ options, provider, diagnostics := { config } } : Env).Unloaded :=
  fun _ inside => absurd inside (Nat.not_lt_zero _)

/-- The types that a first batch of units declares are accounted for in the order of the declarations, those of
role files behind all others; what is reported as dropped or rejected is exactly what has no type. Different
types have different names, and are found under them, exactly if there is no clash; and there is none if all
teams that role files belong to are outside of other types. -/
theorem addUnits_accounted (new : Env.new provider options = .ok fresh) (plain : ∀ u ∈ units, u.Plain)
    (ran : (Operation.addUnits units).perform.run fresh = (.ok ids, e)) :
    (∃ lost, e.FiledAll ids (units.filter (!·.teamPackage.isSome) ++ units.filter (·.teamPackage.isSome))
        e.sources lost ∧ e.losses = lost.filterMap (Report.under e.diagnostics.config)) ∧
      e.sources.Nodup ∧ (e.Mapped ↔ ¬ e.Clash) ∧
      ((∀ name d, provider.find name = .ok (some d) → d.name = name) →
        (∀ u ∈ units, ∀ team ∈ u.teamPackage, '$' ∉ team.toList) → e.Mapped) := by
  obtain ⟨config, rfl⟩ := eq_of_new new
  change Resolve.addUnits units (Resolve.oracle Resolve.maxDepth) _ = _ at ran
  rw [Resolve.addUnits_eq, List.mapM_append] at ran
  obtain ⟨_, c, regular, ran⟩ := Resolve.bind_eq_ok ran
  obtain ⟨_, _, joined, ran⟩ := Resolve.bind_eq_ok ran
  cases ran
  have lawful := Resolve.lawful_oracle Resolve.maxDepth
  have spares := Resolve.spares_oracle Resolve.maxDepth
  -- Role files come in a second round, when the types of all other units are there.
  obtain ⟨before, declared, lost, books, filed⟩ := Resolve.addUnits_books lawful spares
    (orderly_new provider options config) (fun u hu => plain u (List.mem_of_mem_filter hu)) regular
  obtain ⟨orderly, later, further, books', filed'⟩ := Resolve.addUnits_books lawful spares before
    (fun u hu => plain u (List.mem_of_mem_filter hu)) joined
  have all := books.trans books'
  have sources : e.sources = declared ++ later := all.sources
  refine ⟨⟨_, sources ▸ (filed.of_books books').append filed', ?_⟩, nodup_sources,
    ⟨fun mapped => mapped.not_clash orderly.furnished, orderly.mapped.resolve_left⟩, fun honest top => ?_⟩
  · rw [all.losses, all.config]
    rfl
  · have unloaded : c.Unloaded := by
      refine Resolve.unloaded_addUnits (unloaded_new provider options config) (fun u hu => ?_) regular
      simpa using (List.mem_filter.1 hu).2
    have coherent : e.Coherent := all.runs.evolves.coherent .start
    refine orderly.mapped.resolve_left (not_clash_of_phases unloaded before orderly books' filed'
      (fun u hu => (List.mem_filter.1 hu).2) fun u hu team file => ?_)
    obtain ⟨teamName, given, denotes⟩ := file.named
    have same : e.provider = provider := all.runs.lasts.provider
    rw [(coherent.named_of_denotes (fun d found => honest teamName d (same ▸ found)) denotes).2]
    exact top u (List.mem_of_mem_filter hu) teamName given

/-! A batch with nothing compiled but the core -/

/-- A team that declares a role twice, a role file that repeats the role and adds another, and one without a
team. -/
def teamWithRoleFiles : List UnitDecl := [
  { fileName := "S", package := "p", teamPackage := some "p.T", types := [{ name := "R" }, { name := "S" }] },
  { fileName := "T", package := "p", types := [{
      name := "T", modifiers := [.team]
      memberTypes := [{ name := "R", memberTypes := [{ name := "X" }] }, { name := "R" }] }] },
  { fileName := "Q", package := "p", teamPackage := some "p.U", types := [{ name := "Q" }] }]

theorem plain_leaf {name : String} (simple : '$' ∉ name.toList) : TypeDecl.Plain { name } :=
  .mk simple (List.forall_mem_nil _)

theorem addUnits_accounted_roleFiles : ∃ fresh ids e,
    Env.new (Library.core {}).provider {} = .ok fresh ∧ (∀ u ∈ teamWithRoleFiles, u.Plain) ∧
      (Operation.addUnits teamWithRoleFiles).perform.run fresh = (.ok ids, e) ∧
      (∃ lost, e.FiledAll ids (teamWithRoleFiles.filter (!·.teamPackage.isSome) ++
          teamWithRoleFiles.filter (·.teamPackage.isSome)) e.sources lost ∧
        e.losses = lost.filterMap (Report.under e.diagnostics.config)) ∧
      e.sources.Nodup ∧ (e.Mapped ↔ ¬ e.Clash) ∧ e.Mapped ∧
      e.sources.map (fun b => (e.binding b).name) = ["p.T", "p.T$R", "p.T$R$X", "p.T$S"] ∧
      e.losses.map (fun p => (p.id, p.arguments)) = [(.duplicateTypes, ["p.T$R"]),
        (.duplicateTypes, ["p.T$R"]), (.roleFileTeamNotFound, ["p.U", "Q"])] := by
  have plain : ∀ u ∈ teamWithRoleFiles, u.Plain := by
    have nested : TypeDecl.Plain { name := "R", memberTypes := [{ name := "X" }] } :=
      .mk (by decide) (List.forall_mem_singleton.2 (plain_leaf (by decide)))
    have team : ∀ m ∈ [({ name := "R", memberTypes := [{ name := "X" }] } : TypeDecl), { name := "R" }], m.Plain :=
      List.forall_mem_cons.2 ⟨nested, List.forall_mem_singleton.2 (plain_leaf (by decide))⟩
    refine List.forall_mem_cons.2 ⟨⟨by decide, ?_⟩, List.forall_mem_cons.2 ⟨⟨by decide, ?_⟩,
      List.forall_mem_singleton.2 ⟨by decide, ?_⟩⟩⟩
    · exact List.forall_mem_cons.2
        ⟨plain_leaf (by decide), List.forall_mem_singleton.2 (plain_leaf (by decide))⟩
    · exact List.forall_mem_singleton.2 (.mk (by decide) team)
    · exact List.forall_mem_singleton.2 (plain_leaf (by decide))
  obtain ⟨ids, ran⟩ := Resolve.run_of_ok (x := (Operation.addUnits teamWithRoleFiles).perform)
    (e := { options := {}, provider := (Library.core {}).provider }) (by decide +kernel)
  have new : Env.new (Library.core {}).provider {} = .ok { options := {}, provider := (Library.core {}).provider } :=
    rfl
  obtain ⟨accounted, once, apart, mapped⟩ := addUnits_accounted new plain ran
  have honest : ∀ name d, (Library.core {}).provider.find name = .ok (some d) → d.name = name :=
    fun _ _ => (Library.honest_core {}).name_eq
  exact ⟨_, ids, _, new, plain, ran, accounted, once, apart, mapped honest (by decide), by decide +kernel,
    by decide +kernel⟩

/-! A role file of a compiled team that is declared later -/

def nestedTeams : Library :=
  ((Library.core {}).insert {
    name := "p.T", modifiers := .public, extension := Descriptor.flagged Descriptor.Attributes.teamFlag }).insert {
    name := "p.T$R", modifiers := .public, enclosing := some "p.T"
    extension := Descriptor.flagged (Descriptor.Attributes.roleFlag ||| Descriptor.Attributes.teamFlag) }

/-- A role of the inner team, and the inner team itself with a member type that is called like the role. -/
def roleBesideMember : List UnitDecl := [
  { fileName := "X", package := "p", teamPackage := some "p.T$R", types := [{ name := "X" }] },
  { fileName := "R", package := "p", teamPackage := some "p.T", types := [{
      name := "R", memberTypes := [{ name := "X" }] }] }]

/-- Both declarations get a type, the types have one name, and there is no problem. -/
theorem exists_bound_twice : ∃ fresh ids e b c, Env.new nestedTeams.provider {} = .ok fresh ∧
    (∀ u ∈ roleBesideMember, u.Plain) ∧
    (Operation.addUnits roleBesideMember).perform.run fresh = (.ok ids, e) ∧
    b ∈ e.sources ∧ c ∈ e.sources ∧ b ≠ c ∧
    (e.binding b).name = "p.T$R$X" ∧ (e.binding c).name = "p.T$R$X" ∧ e.diagnostics.problems = #[] := by
  have plain : ∀ u ∈ roleBesideMember, u.Plain := by
    refine List.forall_mem_cons.2 ⟨⟨by decide, ?_⟩, List.forall_mem_singleton.2 ⟨by decide, ?_⟩⟩
    · exact List.forall_mem_singleton.2 (plain_leaf (by decide))
    · exact List.forall_mem_singleton.2 (.mk (by decide) (List.forall_mem_singleton.2 (plain_leaf (by decide))))
  obtain ⟨ids, ran⟩ := Resolve.run_of_ok (x := (Operation.addUnits roleBesideMember).perform)
    (e := { options := {}, provider := nestedTeams.provider }) (by decide +kernel)
  exact ⟨_, ids, _, ⟨2⟩, ⟨4⟩, rfl, plain, ran, by decide +kernel⟩

end Env

end TeamRoles
