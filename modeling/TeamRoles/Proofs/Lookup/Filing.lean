import TeamRoles.Proofs.Lookup.Naming

/-!
Units are accounted for declaration by declaration. After a batch of units every declaration has a type of its
own, or was dropped with a report, or is inside of one that was, or is in a role file that was rejected as a
whole; and different types have different names, except where a role file adds to a compiled team.
-/

namespace TeamRoles

def UnitDecl.orphaned (u : UnitDecl) (teamName : String) : Report where
  id := .roleFileTeamNotFound
  file := some u.fileName
  span := {}
  arguments := [teamName, u.fileName]

namespace Env

inductive Filed (e : Env) (unit : UnitId) (u : UnitDecl) : List BindingId → List Report → Prop
  | regular {declared : List BindingId} {lost : List Report} : u.teamPackage = none →
    e.BookedAll unit u none (Name.qualify u.package) u.types declared lost → Filed e unit u declared lost
  | roleFile {declared : List BindingId} {lost : List Report} {teamName : String} {team : BindingId} :
    u.teamPackage = some teamName → e.Denotes teamName team → (e.binding team).isTeam = true →
    e.BookedAll unit u (some team) (Name.nested (e.binding team).name) u.types declared lost →
    Filed e unit u declared lost
  | rejected {teamName : String} : u.teamPackage = some teamName → Filed e unit u [] [u.orphaned teamName]

inductive FiledAll (e : Env) : List UnitId → List UnitDecl → List BindingId → List Report → Prop
  | nil : FiledAll e [] [] [] []
  | cons {unit : UnitId} {u : UnitDecl} {ids : List UnitId} {units : List UnitDecl}
    {declared more : List BindingId} {lost further : List Report} : e.Files unit u →
    e.Filed unit u declared lost → FiledAll e ids units more further →
    FiledAll e (unit :: ids) (u :: units) (declared ++ more) (lost ++ further)

/-- Declared types are where they belong, unless there has been a clash already. -/
structure Orderly (e : Env) : Prop where
  ranged : e.Ranged
  placed : ∀ b ∈ e.sources, e.Placed b
  furnished : ∀ b ∈ e.sources, e.Furnished b
  mapped : e.Clash ∨ e.Mapped

variable {e e' : Env} {unit : UnitId} {u : UnitDecl} {units : List UnitDecl} {ids : List UnitId}
  {enclosing : Option BindingId} {qualified : String} {decl : TypeDecl} {declared more : List BindingId}
  {lost further : List Report} {team : BindingId}

theorem Filed.of_runs (runs : Runs 8 e none e') (h : e.Filed unit u declared lost) : e'.Filed unit u declared lost := by
  cases h with
  | regular given booked => exact .regular given (booked.of_runs runs)
  | roleFile given denotes isTeam booked =>
    refine .roleFile given (denotes.stable runs.lasts.extends) (runs.lasts.isTeam_eq isTeam) ?_
    rw [runs.lasts.name_eq (lt_size_of_isTeam isTeam)]
    exact booked.of_runs runs
  | rejected given => exact .rejected given

theorem Mapped.not_clash (mapped : e.Mapped) (furnished : ∀ b ∈ e.sources, e.Furnished b) : ¬ e.Clash := by
  rintro ⟨outer, source, b, inner, other, decl, m, given, mem, named, enclosing, compiled⟩
  obtain ⟨c, member, inside, called⟩ := (furnished outer source decl given m mem).inside
  obtain rfl := mapped.distinct b inner c member (named.trans called.symm)
  cases inside.symm.trans enclosing
  exact absurd (mem_sources.1 source).2 (by rw [compiled]; decide)

theorem Books.furnished (h : e.Books declared lost e') (old : ∀ b ∈ e.sources, e.Furnished b)
    (new : ∀ b ∈ declared, e'.Furnished b) : ∀ b ∈ e'.sources, e'.Furnished b := by
  intro b hb
  rw [h.sources] at hb
  rcases List.mem_append.1 hb with before | since
  · exact (old b before).of_runs (mem_sources.1 before).1 h.runs
  · exact new b since

theorem Orderly.of_books (h : e.Orderly) (books : e.Books [] lost e')
    (lookup : ∀ name b, e.lookup? name = some b → e'.lookup? name = some b) : e'.Orderly where
  ranged := books.runs.ranged h.ranged
  placed := books.placed h.placed (List.forall_mem_nil _)
  furnished := books.furnished h.furnished (List.forall_mem_nil _)
  mapped := by
    refine h.mapped.imp (·.of_lasts books.runs.lasts) fun mapped => .of_found fun b hb => ?_
    rw [books.sources, List.append_nil] at hb
    rw [books.runs.lasts.name_eq (mem_sources.1 hb).1]
    exact lookup _ _ (mapped.found b hb)

theorem Books.addUnit : e.Books [] [] { e with units := e.units.push { decl := u } } where
  runs := .step (.quiet (same_addUnit rfl))
  sources := (List.append_nil _).symm
  losses := (List.append_nil _).symm
  config := rfl
  files := by
    rintro unit u ⟨inside, rfl⟩
    refine ⟨by simpa using Nat.lt_succ_of_lt inside, ?_⟩
    simp [Env.unit, Array.getElem?_push, Nat.ne_of_lt inside]

theorem Books.added {added : List UnitId} : e.Books [] [] { e with added } where
  runs := .step (.quiet (same_of_kept rfl))
  sources := (List.append_nil _).symm
  losses := (List.append_nil _).symm
  config := rfl
  files known := ⟨known.inside, known.decl⟩

theorem files_addUnit : Files { e with units := e.units.push { decl := u } } ⟨e.units.size⟩ u :=
  ⟨by simp, by simp [Env.unit]⟩

theorem Books.updateUnit {f : SourceUnit → SourceUnit} (imports : ∀ x, (f x).imports = x.imports)
    (decl : ∀ x, (f x).decl = x.decl) : e.Books [] [] (e.updateUnit unit f) where
  runs := .step (.quiet (same_updateUnit imports))
  sources := (List.append_nil _).symm
  losses := (List.append_nil _).symm
  config := rfl
  files := by
    rintro other u ⟨inside, rfl⟩
    refine ⟨by simpa [Env.updateUnit] using inside, ?_⟩
    simp only [Env.unit, Env.updateUnit, Array.getElem?_modify]
    split
    · next same =>
      rw [Array.getElem?_eq_getElem inside]
      exact decl _
    · rfl

theorem Books.addRoleFile {roles : List BindingId} (inside : ∀ r ∈ roles, r.index < e.bindings.size) :
    e.Books [] [] (e.addRoleFile team unit roles) where
  runs := .step (.roleFile (Nat.le_refl _) inside)
  sources := by
    rw [List.append_nil]
    exact sources_congr size_update (binding_update_proj (g := Binding.isSource) (by exact fun _ => rfl))
  losses := (List.append_nil _).symm
  config := rfl
  files known := ⟨known.inside, known.decl⟩

end Env

open Env

namespace Resolve

variable {o : Oracle} {e e' : Env} {unit : UnitId} {u : UnitDecl} {enclosing : Option BindingId}
  {qualified package teamName : String} {decl : TypeDecl} {team : BindingId}

/-- Declares a type unless its name is taken, by a type inside of which it is to be or in the table of names. -/
def declareOnce (unit : UnitId) (enclosing : Option BindingId) (qualified package : String) (decl : TypeDecl)
    (inline : Bool) : Resolve (Option BindingId) := do
  if inline || (← isDeclared qualified) then
    reportInUnit unit .duplicateTypes decl.span [qualified]
    return none
  else return some (← declareType unit enclosing qualified package decl)

theorem buildRegularUnit_eq : buildRegularUnit unit u = u.types.filterMapM (fun decl => do
    if decl.modifierBits.isPublic && decl.name != u.fileStem then
      reportInUnit unit .publicClassMustMatchFileName decl.span [decl.name, u.fileName]
    declareOnce unit none (Name.qualify u.package decl.name) u.package decl false) := rfl

theorem buildRoles_eq : buildRoles unit u team = u.types.filterMapM (fun decl => do
    let t := (← get).binding team
    declareOnce unit (some team) (Name.nested t.name decl.name) t.package decl
      ((t.decl?.map fun d => d.memberTypes.any (·.name == decl.name)).getD false)) := rfl

/-- Declares the roles of a role file and adds them to the team. -/
def joinTeam (unit : UnitId) (u : UnitDecl) (team : BindingId) : Resolve (List BindingId) := do
  let roles ← buildRoles unit u team
  updateBinding team fun x =>
    { x with team := x.team.map fun m =>
        { roleFiles := m.roleFiles ++ [unit], roleFileRoles := m.roleFileRoles ++ roles } }
  return roles

theorem buildRoleFile_eq : buildRoleFile unit u teamName = (do
    let found ← ask (.findType teamName)
    let e ← get
    match found.filter fun b => (e.binding b).isTeam with
    | none =>
      reportInUnit unit .roleFileTeamNotFound {} [teamName, u.fileName]
      return []
    | some team =>
      unless u.types.any (·.name == u.fileStem) do
        reportInUnit unit .roleFileMustDeclareRole {} [u.fileName, u.fileStem]
      joinTeam unit u team) := rfl

variable (o qualified) in
theorem isDeclared_apply (ranged : e.Ranged) :
    ∃ taken, isDeclared qualified o e = (.ok taken, e) ∧ (taken = true ↔ e.Taken qualified) := by
  refine ⟨_, rfl, ?_⟩
  cases found : e.lookup? qualified with
  | none => simp [Taken, found]
  | some b =>
    have inside : b.index < e.bindings.size := ranged.byName _ (mem_of_lookup found)
    simp [Taken, found, mem_sources, inside]

theorem orderly_of_introduces {declared : List BindingId} {lost : List Report} (ho : o.Lawful)
    (files : e.Files unit u) (orderly : e.Orderly) (place : e.Place enclosing qualified) (free : ¬ e.Taken qualified)
    (plain : decl.Plain) (ran : declareType unit enclosing qualified package decl o e = (.ok e.nextBinding, e'))
    (h : e.Introduces unit u enclosing qualified decl declared lost e') : e'.Orderly where
  ranged := h.books.runs.ranged orderly.ranged
  placed := h.books.placed orderly.placed (h.booked.placed (place.of_lasts h.books.runs.lasts) plain)
  furnished := h.books.furnished orderly.furnished h.furnished
  mapped := by
    by_cases clash : e'.Clash
    · exact .inl clash
    · have mapped := orderly.mapped.resolve_left fun before => clash (before.of_lasts h.books.runs.lasts)
      refine .inr (declareType_mapped ho files ⟨orderly.placed, mapped⟩ place (fun b source named => ?_) clash
        decl plain ran)
      exact free ⟨b, source, named ▸ mapped.found b source⟩

variable (package) in
theorem declareOnce_books (inline : Bool) (ho : o.Lawful) (files : e.Files unit u) (orderly : e.Orderly)
    (place : e.Place enclosing qualified) (plain : decl.Plain) (taken : inline = true → e.Taken qualified) :
    ∃ found declared lost e', declareOnce unit enclosing qualified package decl inline o e = (.ok found, e') ∧
      e'.Orderly ∧ e.Books declared lost e' ∧ e'.Booked unit u enclosing qualified decl declared lost := by
  obtain ⟨known, asked, known_iff⟩ := isDeclared_apply o qualified orderly.ranged
  have start := bind_apply_ok (f := fun known => if inline || known then do
      reportInUnit unit .duplicateTypes decl.span [qualified]
      return none
    else return some (← declareType unit enclosing qualified package decl)) asked
  by_cases given : (inline || known) = true
  · have books : e.Books [] [u.repeated decl qualified]
        (e.report (some u.fileName) .duplicateTypes decl.span [qualified]) := .lose rfl
    have before : e.Taken qualified := (Bool.or_eq_true_iff.1 given).elim taken known_iff.1
    refine ⟨none, _, _, _, start.trans ?_, orderly.of_books books fun _ _ => id, books,
      .dropped (books.runs.taken before)⟩
    rw [if_pos given]
    exact bind_apply_ok (reportInUnit_apply files)
  · have free : ¬ e.Taken qualified := fun before => given (by rw [known_iff.2 before, Bool.or_true])
    obtain ⟨declared, lost, e', ran, introduces⟩ := declareType_introduces (o := o) files enclosing
      qualified package decl
    refine ⟨some e.nextBinding, _, _, e', start.trans ?_,
      orderly_of_introduces ho files orderly place free plain ran introduces, introduces.books, introduces.booked⟩
    rw [if_neg given]
    exact bind_apply_ok ran

theorem filterMapM_books {f : TypeDecl → Resolve (Option BindingId)} {naming : String → String} {P : Env → Prop}
    {decls : List TypeDecl} (lasting : ∀ {e declared lost e'}, e.Books declared lost e' → P e → P e')
    (step : ∀ decl ∈ decls, ∀ e : Env, e.Orderly → P e → ∃ found declared lost e', f decl o e = (.ok found, e') ∧
      e'.Orderly ∧ e.Books declared lost e' ∧ e'.Booked unit u enclosing (naming decl.name) decl declared lost)
    (orderly : e.Orderly) (he : P e) : ∃ found declared lost e', decls.filterMapM f o e = (.ok found, e') ∧
      e'.Orderly ∧ e.Books declared lost e' ∧ e'.BookedAll unit u enclosing naming decls declared lost := by
  suffices loop : ∀ sofar, ∃ found declared lost e', List.filterMapM.loop f decls sofar o e = (.ok found, e') ∧
      e'.Orderly ∧ e.Books declared lost e' ∧ e'.BookedAll unit u enclosing naming decls declared lost from loop []
  induction decls generalizing e with
  | nil => exact fun sofar => ⟨sofar.reverse, [], [], e, rfl, orderly, .refl e, .nil⟩
  | cons decl decls ih =>
    intro sofar
    obtain ⟨here, later⟩ := List.forall_mem_cons.1 step
    obtain ⟨found, declared, lost, d, ran, orderly', books, booked⟩ := here e orderly he
    obtain ⟨all, more, further, e', rest, final, books', booked'⟩ :=
      ih later orderly' (lasting books he) (match found with
        | none => sofar
        | some b => b :: sofar)
    refine ⟨all, _, _, e', ?_, final, books.trans books', .cons (booked.of_runs books'.runs) booked'⟩
    cases found with
    | none => exact (bind_apply_ok ran).trans rest
    | some b => exact (bind_apply_ok ran).trans rest

theorem qualify_plain {simple : String} (package : '$' ∉ u.package.toList) (plain : '$' ∉ simple.toList) :
    '$' ∉ (Name.qualify u.package simple).toList := by
  unfold Name.qualify
  split
  · exact plain
  · simp [package, plain]

theorem buildRegularUnit_books (ho : o.Lawful) (files : e.Files unit u) (orderly : e.Orderly) (plain : u.Plain) :
    ∃ found declared lost e', buildRegularUnit unit u o e = (.ok found, e') ∧ e'.Orderly ∧
      e.Books declared lost e' ∧ e'.BookedAll unit u none (Name.qualify u.package) u.types declared lost := by
  rw [buildRegularUnit_eq]
  refine filterMapM_books (P := fun e => e.Files unit u) (fun books => books.files)
    (fun decl mem e orderly files => ?_) orderly files
  have whole := plain.types decl mem
  have once {e : Env} (orderly : e.Orderly) (files : e.Files unit u) :=
    declareOnce_books u.package false ho files orderly
      (.top (qualify_plain plain.package whole.simple)) whole fun inline => by cases inline
  split
  · have books : e.Books [] [] (e.report (some u.fileName) .publicClassMustMatchFileName decl.span
        [decl.name, u.fileName]) := .remark rfl
    obtain ⟨found, declared, lost, e', ran, final, books', booked⟩ :=
      once (orderly.of_books books fun _ _ => id) (books.files files)
    exact ⟨found, declared, lost, e', (bind_apply_ok (reportInUnit_apply files)).trans ran, final,
      books.trans books', booked⟩
  · exact once orderly files

/-- The unit is known, and the team is there under its name. -/
structure Joining (unit : UnitId) (u : UnitDecl) (team : BindingId) (name : String) (e : Env) : Prop where
  files : e.Files unit u
  inside : team.index < e.bindings.size
  called : (e.binding team).name = name

theorem buildRoles_books (ho : o.Lawful) (files : e.Files unit u) (inside : team.index < e.bindings.size)
    (orderly : e.Orderly) (plain : u.Plain) : ∃ found declared lost e', buildRoles unit u team o e = (.ok found, e') ∧
      e'.Orderly ∧ e.Books declared lost e' ∧
      e'.BookedAll unit u (some team) (Name.nested (e.binding team).name) u.types declared lost := by
  rw [buildRoles_eq]
  refine filterMapM_books (P := Joining unit u team (e.binding team).name) (fun books joining => ?_)
    (fun decl mem d orderly joining => ?_) orderly ⟨files, inside, rfl⟩
  · have lasts := books.runs.lasts
    exact ⟨books.files joining.files, Nat.lt_of_lt_of_le joining.inside lasts.size,
      (lasts.name_eq joining.inside).trans joining.called⟩
  · have whole := plain.types decl mem
    rw [← joining.called]
    refine declareOnce_books (o := o) _ _ ho joining.files orderly (.inside joining.inside whole.simple) whole
      fun inline => ?_
    -- A team that declares the role itself is a type of a unit, and its members are all there.
    cases given : (d.binding team).decl? with
    | none => simp [given] at inline
    | some body =>
      have same : ∃ m ∈ body.memberTypes, m.name = decl.name := by simpa [given] using inline
      obtain ⟨m, member, named⟩ := same
      have source : team ∈ d.sources := mem_sources.2 ⟨joining.inside, Binding.isSource_of_decl? given⟩
      rw [← named]
      exact (orderly.furnished team source body given m member).taken

theorem joinTeam_books (ho : o.Lawful) (files : e.Files unit u) (isTeam : (e.binding team).isTeam = true)
    (orderly : e.Orderly) (plain : u.Plain) : ∃ roles declared lost e',
      joinTeam unit u team o e = (.ok roles, e') ∧ e'.Orderly ∧ e.Books declared lost e' ∧
      e'.BookedAll unit u (some team) (Name.nested (e.binding team).name) u.types declared lost := by
  obtain ⟨roles, declared, lost, d, built, orderly', books, booked⟩ :=
    buildRoles_books ho files (lt_size_of_isTeam isTeam) orderly plain
  have inside : ∀ role ∈ roles, role.index < d.bindings.size := by
    have roles_inside : Triple 8 (fun _ => True) (buildRoles unit u team) _ := buildRoles_triple fun _ h => h
    have created := (roles_inside o ho e trivial).2
    rw [built] at created
    exact fun role mem => ((created roles rfl).2 role mem).inside
  have added : d.Books [] [] (d.addRoleFile team unit roles) := .addRoleFile inside
  have all := books.trans added
  rw [List.append_nil, List.append_nil] at all
  exact ⟨roles, declared, lost, _, bind_apply_ok built, orderly'.of_books added fun _ _ => id, all,
    booked.of_runs added.runs⟩

theorem buildRoleFile_books {roles : List BindingId} (ho : o.Lawful) (spares : o.Spares) (files : e.Files unit u)
    (orderly : e.Orderly) (plain : u.Plain) (given : u.teamPackage = some teamName)
    (ran : buildRoleFile unit u teamName o e = (.ok roles, e')) :
    e'.Orderly ∧ ∃ declared lost, e.Books declared lost e' ∧ e'.Filed unit u declared lost := by
  rw [buildRoleFile_eq] at ran
  obtain ⟨found, d, asked, ran⟩ := bind_eq_ok ran
  have runs : Runs 0 e (aborted (o.ask (.findType teamName) e).1) (o.ask (.findType teamName) e).2 :=
    (ho.runs (.findType teamName) e).runs
  have denotes := ho.holds (.findType teamName) e found
  have spared := spares.findType teamName e
  change o.ask (.findType teamName) e = _ at asked
  rw [asked] at runs denotes spared
  have loaded : e.Books [] [] d := .of_spares runs (by decide) spared
  have orderly' : d.Orderly := orderly.of_books loaded fun _ _ => runs.lookup?_eq (by decide)
  have files' := loaded.files files
  obtain ⟨_, _, ⟨⟩, ran⟩ := bind_eq_ok ran
  cases answer : found.filter fun b => (d.binding b).isTeam with
  | none =>
    rw [answer] at ran
    cases (bind_apply_ok (reportInUnit_apply files')).symm.trans ran
    have books : d.Books [] [u.orphaned teamName]
        (d.report (some u.fileName) .roleFileTeamNotFound {} [teamName, u.fileName]) := .lose rfl
    exact ⟨orderly'.of_books books fun _ _ => id, _, _, loaded.trans books, .rejected given⟩
  | some team =>
    obtain ⟨answered, isTeam⟩ := Option.filter_eq_some_iff.1 answer
    have joined {c : Env} (books : d.Books [] [] c) (lookup : c.byName = d.byName)
        (ran : joinTeam unit u team o c = (.ok roles, e')) :
        e'.Orderly ∧ ∃ declared lost, e.Books declared lost e' ∧ e'.Filed unit u declared lost := by
      have runs := books.runs
      obtain ⟨_, declared, lost, _, joined, orderly'', books', booked⟩ := joinTeam_books (o := o) ho
        (books.files files') (runs.lasts.isTeam_eq isTeam)
        (orderly'.of_books books fun name b found => by rwa [lookup?, lookup]) plain
      cases joined.symm.trans ran
      have lasts := books'.runs.lasts
      have still := runs.lasts.isTeam_eq isTeam
      refine ⟨orderly'', _, _, (loaded.trans books).trans books', .roleFile given ?_ (lasts.isTeam_eq still) ?_⟩
      · exact (denotes rfl team answered).stable (runs.lasts.trans lasts).extends
      · rw [lasts.name_eq (lt_size_of_isTeam still)]
        exact booked
    rw [answer] at ran
    dsimp only at ran
    split at ran
    · exact joined (.refl d) rfl ran
    · rw [bind_apply_ok (reportInUnit_apply files')] at ran
      exact joined (.remark rfl) rfl ran

theorem buildUnit_books (ho : o.Lawful) (spares : o.Spares) (orderly : e.Orderly) (plain : u.Plain)
    (ran : buildUnit u o e = (.ok unit, e')) : e'.Orderly ∧
      ∃ declared lost, e.Books declared lost e' ∧ e'.Files unit u ∧ e'.Filed unit u declared lost := by
  obtain ⟨_, _, ⟨⟩, ran⟩ := bind_eq_ok ran
  obtain ⟨_, d, added, ran⟩ := bind_eq_ok ran
  cases added
  have books : e.Books [] [] { e with units := e.units.push { decl := u } } := .addUnit
  have files : Files { e with units := e.units.push { decl := u } } ⟨e.units.size⟩ u := files_addUnit
  have orderly' := orderly.of_books books fun _ _ => id
  revert ran
  extract_lets finish
  intro ran
  have finished {types : List BindingId} {c : Env} {declared : List BindingId} {lost : List Report}
      (ran : finish types o c = (.ok unit, e')) (books' : Books { e with units := e.units.push { decl := u } }
        declared lost c) (final : c.Orderly) (filed : c.Filed ⟨e.units.size⟩ u declared lost) : e'.Orderly ∧
      ∃ declared lost, e.Books declared lost e' ∧ e'.Files unit u ∧ e'.Filed unit u declared lost := by
    cases ran
    have last : c.Books [] [] (c.updateUnit ⟨e.units.size⟩ fun x => { x with
        types, hasTeam := u.teamPackage.isSome || types.any fun t => (c.binding t).isTeam }) :=
      .updateUnit (fun _ => rfl) fun _ => rfl
    have all := (books.trans books').trans last
    rw [List.append_nil, List.append_nil] at all
    exact ⟨final.of_books last fun _ _ => id, _, _, all, last.files (books'.files files), filed.of_runs last.runs⟩
  cases given : u.teamPackage with
  | some team =>
    simp only [given] at ran
    obtain ⟨types, c, built, ran⟩ := bind_eq_ok ran
    obtain ⟨final, declared, lost, books', filed⟩ := buildRoleFile_books ho spares files orderly' plain given built
    exact finished ran books' final filed
  | none =>
    simp only [given] at ran
    obtain ⟨types, declared, lost, c, built, final, books', booked⟩ :=
      buildRegularUnit_books ho files orderly' plain
    rw [bind_apply_ok built] at ran
    exact finished ran books' final (.regular given booked)

theorem addUnit_books (ho : o.Lawful) (spares : o.Spares) (orderly : e.Orderly) (plain : u.Plain)
    (ran : addUnit u o e = (.ok unit, e')) : e'.Orderly ∧
      ∃ declared lost, e.Books declared lost e' ∧ e'.Files unit u ∧ e'.Filed unit u declared lost := by
  obtain ⟨id, d, built, ran⟩ := bind_eq_ok ran
  cases ran
  obtain ⟨orderly', declared, lost, books, files, filed⟩ := buildUnit_books ho spares orderly plain built
  have last : d.Books [] [] { d with added := d.added ++ [unit] } := .added
  have all := books.trans last
  rw [List.append_nil, List.append_nil] at all
  exact ⟨orderly'.of_books last fun _ _ => id, declared, lost, all, last.files files, filed.of_runs last.runs⟩

theorem addUnits_books {units : List UnitDecl} {ids : List UnitId} (ho : o.Lawful) (spares : o.Spares)
    (orderly : e.Orderly) (plain : ∀ u ∈ units, u.Plain) (ran : units.mapM addUnit o e = (.ok ids, e')) :
    e'.Orderly ∧ ∃ declared lost, e.Books declared lost e' ∧ e'.FiledAll ids units declared lost := by
  induction units generalizing e ids with
  | nil =>
    cases ran
    exact ⟨orderly, [], [], .refl _, .nil⟩
  | cons u units ih =>
    obtain ⟨here, later⟩ := List.forall_mem_cons.1 plain
    rw [List.mapM_cons] at ran
    obtain ⟨unit, d, first, ran⟩ := bind_eq_ok ran
    obtain ⟨ids, e'', rest, last⟩ := bind_eq_ok ran
    cases last
    obtain ⟨orderly', declared, lost, books, files, filed⟩ := addUnit_books ho spares orderly here first
    obtain ⟨final, more, further, books', all⟩ := ih orderly' later rest
    exact ⟨final, _, _, books.trans books', .cons (books'.files files) (filed.of_runs books'.runs) all⟩

end Resolve

end TeamRoles
