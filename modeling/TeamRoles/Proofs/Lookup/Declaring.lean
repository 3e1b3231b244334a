import TeamRoles.Proofs.Lookup.Sources

/-!
How the declarations of units are accounted for. A declaration gets a type of its own, and then everything
declared inside it is accounted for in the same way; or it gets none, and neither does anything inside it, and
there is one report of that.
-/

namespace TeamRoles

def Name.nested (outer simple : String) : String := outer ++ "$" ++ simple

def UnitDecl.repeated (u : UnitDecl) (decl : TypeDecl) (qualified : String) : Report where
  id := .duplicateTypes
  file := some u.fileName
  span := decl.span
  arguments := [qualified]

namespace Env

structure Files (e : Env) (unit : UnitId) (u : UnitDecl) : Prop where
  inside : unit.index < e.units.size
  decl : (e.unit unit).decl = u

/-- The type is what the declaration introduces, under its name and at its place. -/
structure Declared (e : Env) (unit : UnitId) (enclosing : Option BindingId) (qualified : String)
    (decl : TypeDecl) (b : BindingId) : Prop where
  source : b ∈ e.sources
  name : (e.binding b).name = qualified
  origin : (e.binding b).origin = .source decl unit
  enclosing : (e.binding b).enclosing = enclosing

/-- There is a declared type of that simple name inside the other one, and its name is taken. -/
structure HasMember (e : Env) (outer : BindingId) (simple : String) : Prop where
  inside : ∃ b ∈ e.sources, (e.binding b).enclosing = some outer ∧
    (e.binding b).name = Name.nested (e.binding outer).name simple
  taken : e.Taken (Name.nested (e.binding outer).name simple)

def Furnished (e : Env) (b : BindingId) : Prop :=
  ∀ decl, (e.binding b).decl? = some decl → ∀ m ∈ decl.memberTypes, e.HasMember b m.name

mutual

/-- The declaration has a type, and all that is declared inside it is accounted for; or its name is taken and
it was reported. The lists are those of all types, and of all reports, that come of the declaration. -/
inductive Booked (e : Env) (unit : UnitId) (u : UnitDecl) :
    Option BindingId → String → TypeDecl → List BindingId → List Report → Prop
  | bound {enclosing : Option BindingId} {qualified : String} {decl : TypeDecl} {b : BindingId}
    {declared : List BindingId} {lost : List Report} : e.Declared unit enclosing qualified decl b →
    BookedAll e unit u (some b) (Name.nested qualified) decl.memberTypes declared lost →
    Booked e unit u enclosing qualified decl (b :: declared) lost
  | dropped {enclosing : Option BindingId} {qualified : String} {decl : TypeDecl} : e.Taken qualified →
    Booked e unit u enclosing qualified decl [] [u.repeated decl qualified]

inductive BookedAll (e : Env) (unit : UnitId) (u : UnitDecl) :
    Option BindingId → (String → String) → List TypeDecl → List BindingId → List Report → Prop
  | nil {enclosing : Option BindingId} {naming : String → String} : BookedAll e unit u enclosing naming [] [] []
  | cons {enclosing : Option BindingId} {naming : String → String} {decl : TypeDecl} {decls : List TypeDecl}
    {declared more : List BindingId} {lost further : List Report} :
    Booked e unit u enclosing (naming decl.name) decl declared lost →
    BookedAll e unit u enclosing naming decls more further →
    BookedAll e unit u enclosing naming (decl :: decls) (declared ++ more) (lost ++ further)

end

/-- From one environment to the other exactly these types have been declared, and exactly these reports account
for what has no type. -/
structure Books (e : Env) (declared : List BindingId) (lost : List Report) (e' : Env) : Prop where
  runs : Runs 8 e none e'
  sources : e'.sources = e.sources ++ declared
  losses : e'.losses = e.losses ++ lost.filterMap (Report.under e.diagnostics.config)
  config : e'.diagnostics.config = e.diagnostics.config
  files {unit : UnitId} {u : UnitDecl} : e.Files unit u → e'.Files unit u

/-- A declaration has been given a type, and those inside it have been accounted for. -/
structure Introduces (e : Env) (unit : UnitId) (u : UnitDecl) (enclosing : Option BindingId) (qualified : String)
    (decl : TypeDecl) (declared : List BindingId) (lost : List Report) (e' : Env) : Prop where
  books : e.Books (e.nextBinding :: declared) lost e'
  root : e'.Declared unit enclosing qualified decl e.nextBinding
  taken : e'.Taken qualified
  members : e'.BookedAll unit u (some e.nextBinding) (Name.nested qualified) decl.memberTypes declared lost
  furnished : ∀ b ∈ e.nextBinding :: declared, e'.Furnished b

/-- The declarations inside a type have been accounted for, and there is a type for each of their names. -/
structure Settles (e : Env) (unit : UnitId) (u : UnitDecl) (outer : BindingId) (qualified : String)
    (decls : List TypeDecl) (declared : List BindingId) (lost : List Report) (e' : Env) : Prop where
  books : e.Books declared lost e'
  members : e'.BookedAll unit u (some outer) (Name.nested qualified) decls declared lost
  named : ∀ decl ∈ decls, e'.HasMember outer decl.name
  furnished : ∀ b ∈ declared, e'.Furnished b

section Lasting

variable {e e' : Env} {unit : UnitId} {u : UnitDecl} {enclosing : Option BindingId} {qualified simple : String}
  {decl : TypeDecl} {b : BindingId}

theorem Lasts.enclosing_eq (h : e.Lasts e') (inside : b.index < e.bindings.size) :
    (e'.binding b).enclosing = (e.binding b).enclosing :=
  h.proj_eq (fun _ => rfl) inside

theorem Declared.decl? (h : e.Declared unit enclosing qualified decl b) : (e.binding b).decl? = some decl := by
  rw [Binding.decl?, h.origin]

theorem Declared.of_lasts (h : e.Declared unit enclosing qualified decl b) (lasts : e.Lasts e') :
    e'.Declared unit enclosing qualified decl b := by
  have inside := (mem_sources.1 h.source).1
  refine ⟨lasts.mem_sources h.source, ?_, ?_, ?_⟩
  · rw [lasts.name_eq inside, h.name]
  · rw [lasts.origin_eq inside, h.origin]
  · rw [lasts.enclosing_eq inside, h.enclosing]

theorem HasMember.of_runs (h : e.HasMember b simple) (inside : b.index < e.bindings.size)
    (runs : Runs 8 e none e') : e'.HasMember b simple := by
  have lasts := runs.lasts
  obtain ⟨⟨c, source, enclosing, named⟩, taken⟩ := h
  have known := (mem_sources.1 source).1
  refine ⟨⟨c, lasts.mem_sources source, ?_, ?_⟩, ?_⟩
  · rw [lasts.enclosing_eq known, enclosing]
  · rw [lasts.name_eq known, lasts.name_eq inside, named]
  · rw [lasts.name_eq inside]
    exact runs.taken taken

theorem Furnished.of_runs (h : e.Furnished b) (inside : b.index < e.bindings.size) (runs : Runs 8 e none e') :
    e'.Furnished b := by
  intro decl given m mem
  rw [Binding.decl?, runs.lasts.origin_eq inside] at given
  exact (h decl given m mem).of_runs inside runs

mutual

theorem Booked.of_runs (runs : Runs 8 e none e') {enclosing : Option BindingId} {qualified : String}
    {decl : TypeDecl} {declared : List BindingId} {lost : List Report} :
    e.Booked unit u enclosing qualified decl declared lost →
      e'.Booked unit u enclosing qualified decl declared lost
  | .bound here members => .bound (here.of_lasts runs.lasts) (BookedAll.of_runs runs members)
  | .dropped taken => .dropped (runs.taken taken)

theorem BookedAll.of_runs (runs : Runs 8 e none e') {enclosing : Option BindingId} {naming : String → String}
    {decls : List TypeDecl} {declared : List BindingId} {lost : List Report} :
    e.BookedAll unit u enclosing naming decls declared lost →
      e'.BookedAll unit u enclosing naming decls declared lost
  | .nil => .nil
  | .cons first rest => .cons (Booked.of_runs runs first) (BookedAll.of_runs runs rest)

end

end Lasting

namespace Books

variable {e e' e'' : Env} {declared more : List BindingId} {lost further : List Report} {x : Binding}

theorem refl (e : Env) : e.Books [] [] e where
  runs := .done
  sources := (List.append_nil _).symm
  losses := (List.append_nil _).symm
  config := rfl
  files := id

theorem trans (h : e.Books declared lost e') (h' : e'.Books more further e'') :
    e.Books (declared ++ more) (lost ++ further) e'' where
  runs := h.runs.seq h'.runs
  sources := by rw [h'.sources, h.sources, List.append_assoc]
  losses := by rw [h'.losses, h.losses, h.config, List.filterMap_append, List.append_assoc]
  config := h'.config.trans h.config
  files known := h'.files (h.files known)

theorem of_spares {ℓ : Nat} (runs : Runs ℓ e none e') (low : ℓ < 8) (spares : e.Spares e') : e.Books [] [] e' where
  runs := runs.mono (Nat.le_of_lt low)
  sources := by rw [runs.sources_eq low, List.append_nil]
  losses := by rw [spares.losses, List.filterMap_nil, List.append_nil]
  config := spares.config
  files known := ⟨by rw [spares.units]; exact known.inside, by rw [unit, spares.units]; exact known.decl⟩

theorem lose {r : Report} (loss : r.id.isLoss = true) :
    e.Books [] [r] (e.report r.file r.id r.span r.arguments) where
  runs := .step (.quiet (same_of_kept rfl))
  sources := (List.append_nil _).symm
  losses := by rw [losses_report, if_pos loss, List.filterMap_cons, List.filterMap_nil]; cases r.under _ <;> rfl
  config := Diagnostics.config_report
  files known := ⟨known.inside, known.decl⟩

theorem remark {file : Option String} {p : ProblemId} {span : Span} {arguments : List String}
    (other : p.isLoss = false) : e.Books [] [] (e.report file p span arguments) :=
  .of_spares (ℓ := 0) (.step (.quiet (same_of_kept rfl))) (by decide) (.report other)

theorem declare (source : x.isSource = true) (bare : x.IsBare) : e.Books [e.nextBinding] [] (e.declare x) where
  runs := .step (.declare (Nat.le_refl _) source bare)
  sources := sources_declare source
  losses := (List.append_nil _).symm
  config := rfl
  files known := ⟨known.inside, known.decl⟩

end Books

theorem Introduces.booked {e e' : Env} {unit : UnitId} {u : UnitDecl} {enclosing : Option BindingId}
    {qualified : String} {decl : TypeDecl} {declared : List BindingId} {lost : List Report}
    (h : e.Introduces unit u enclosing qualified decl declared lost e') :
    e'.Booked unit u enclosing qualified decl (e.nextBinding :: declared) lost :=
  .bound h.root h.members

theorem Settles.cons {e d e' : Env} {unit : UnitId} {u : UnitDecl} {outer : BindingId} {qualified : String}
    {decl : TypeDecl} {rest : List TypeDecl} {declared more : List BindingId} {lost further : List Report}
    (inside : outer.index < e.bindings.size) (books : e.Books declared lost d)
    (booked : d.Booked unit u (some outer) (Name.nested qualified decl.name) decl declared lost)
    (named : d.HasMember outer decl.name) (furnished : ∀ b ∈ declared, d.Furnished b)
    (h : d.Settles unit u outer qualified rest more further e') :
    e.Settles unit u outer qualified (decl :: rest) (declared ++ more) (lost ++ further) e' where
  books := books.trans h.books
  members := .cons (booked.of_runs h.books.runs) h.members
  named := by
    have known : outer.index < d.bindings.size := Nat.lt_of_lt_of_le inside books.runs.lasts.size
    exact List.forall_mem_cons.2 ⟨named.of_runs known h.books.runs, h.named⟩
  furnished := by
    intro b hb
    rcases List.mem_append.1 hb with first | later
    · have source : b ∈ d.sources := by
        rw [books.sources]
        exact List.mem_append_right _ first
      exact (furnished b first).of_runs (mem_sources.1 source).1 h.books.runs
    · exact h.furnished b later

end Env

open Env

namespace Resolve

variable {o : Oracle} {e : Env} {unit : UnitId} {u : UnitDecl} {enclosing : Option BindingId} {outer : BindingId}
  {qualified package : String} {seen : List String} {decl : TypeDecl} {rest : List TypeDecl}

theorem reportInUnit_apply {p : ProblemId} {span : Span} {arguments : List String} (files : e.Files unit u) :
    reportInUnit unit p span arguments o e = (.ok (), e.report (some u.fileName) p span arguments) := by
  rw [← files.decl]
  rfl

variable (o e unit enclosing qualified package decl) in
theorem declareType_apply : ∃ x : Binding, x.name = qualified ∧ x.IsBare ∧ x.isSource = true ∧
    (e.declare x).Declared unit enclosing qualified decl e.nextBinding ∧
    declareType unit enclosing qualified package decl o e =
      (do declareMembers unit e.nextBinding qualified package [] decl.memberTypes
          return e.nextBinding) o (e.declare x) := by
  obtain ⟨_, _, _, _, _, _, _, _, _, memberTypes, _, _, _, _⟩ := decl
  rw [declareType]
  obtain ⟨team, applied⟩ := declare_apply o e
  refine ⟨_, rfl, Binding.isBare_attach rfl team, rfl, ⟨?_, ?_, ?_, ?_⟩, applied⟩
  · rw [sources_declare rfl]
    exact List.mem_append_right _ (List.mem_singleton_self _)
  all_goals exact congrArg _ binding_addBinding_self

theorem declareMembers_seen (files : e.Files unit u) (repeated : decl.name ∈ seen) :
    declareMembers unit outer qualified package seen (decl :: rest) o e =
      declareMembers unit outer qualified package seen rest o
        (e.report (some u.fileName) .duplicateTypes decl.span [Name.nested qualified decl.name]) := by
  rw [declareMembers, if_pos (List.contains_iff_mem.2 repeated)]
  exact bind_apply_ok (reportInUnit_apply files)

theorem declareMembers_new {d : Env} {b : BindingId} (new : decl.name ∉ seen)
    (declared : declareType unit (some outer) (Name.nested qualified decl.name) package decl o e = (.ok b, d)) :
    declareMembers unit outer qualified package seen (decl :: rest) o e =
      declareMembers unit outer qualified package (decl.name :: seen) rest o d := by
  rw [declareMembers, if_neg (mt List.contains_iff_mem.1 new)]
  exact bind_apply_ok (bind_apply_ok declared)

theorem declareType_of_settles (files : e.Files unit u)
    (settle : ∀ {d : Env} {outer : BindingId}, d.Files unit u → outer.index < d.bindings.size →
      (d.binding outer).name = qualified → ∃ declared lost e',
        declareMembers unit outer qualified package [] decl.memberTypes o d = (.ok (), e') ∧
          d.Settles unit u outer qualified decl.memberTypes declared lost e') : ∃ declared lost e',
    declareType unit enclosing qualified package decl o e = (.ok e.nextBinding, e') ∧
      e.Introduces unit u enclosing qualified decl declared lost e' := by
  obtain ⟨x, rfl, bare, source, root, applied⟩ := declareType_apply o e unit enclosing qualified package decl
  have first : e.Books [e.nextBinding] [] (e.declare x) := .declare source bare
  have taken : (e.declare x).Taken x.name := ⟨_, root.source, lookup?_declare.trans (if_pos rfl)⟩
  obtain ⟨declared, lost, e', ran, settles⟩ := settle (first.files files) (mem_sources.1 root.source).1 root.name
  have runs := settles.books.runs
  have settled := root.of_lasts runs.lasts
  refine ⟨declared, lost, e', applied.trans (bind_apply_ok ran), first.trans settles.books, settled,
    runs.taken taken, settles.members, List.forall_mem_cons.2 ⟨?_, settles.furnished⟩⟩
  intro other given m mem
  cases settled.decl?.symm.trans given
  exact settles.named m mem

mutual

theorem declareType_introduces {e : Env} (files : e.Files unit u) (enclosing : Option BindingId)
    (qualified package : String) (decl : TypeDecl) : ∃ declared lost e',
    declareType unit enclosing qualified package decl o e = (.ok e.nextBinding, e') ∧
      e.Introduces unit u enclosing qualified decl declared lost e' := by
  match decl with
  | ⟨_, _, _, _, _, _, _, _, _, memberTypes, _, _, _, _⟩ =>
    exact declareType_of_settles files fun files inside called =>
      declareMembers_settles files inside called (List.forall_mem_nil _) memberTypes

theorem declareMembers_settles {e : Env} (files : e.Files unit u) {outer : BindingId} {qualified package : String}
    {seen : List String} (inside : outer.index < e.bindings.size) (called : (e.binding outer).name = qualified)
    (named : ∀ name ∈ seen, e.HasMember outer name) (decls : List TypeDecl) : ∃ declared lost e',
    declareMembers unit outer qualified package seen decls o e = (.ok (), e') ∧
      e.Settles unit u outer qualified decls declared lost e' := by
  match decls with
  | [] => exact ⟨[], [], e, rfl, .refl e, .nil, List.forall_mem_nil _, List.forall_mem_nil _⟩
  | decl :: rest =>
    by_cases repeated : decl.name ∈ seen
    · have books : e.Books [] [u.repeated decl (Name.nested qualified decl.name)]
          (e.report (some u.fileName) .duplicateTypes decl.span [Name.nested qualified decl.name]) := .lose rfl
      have kept (name : String) (member : e.HasMember outer name) := member.of_runs inside books.runs
      obtain ⟨more, further, e', ran, settles⟩ := declareMembers_settles (books.files files) inside called
        (fun name mem => kept name (named name mem)) rest
      have member := kept decl.name (named decl.name repeated)
      refine ⟨_, _, e', (declareMembers_seen files repeated).trans ran,
        .cons inside books (.dropped ?_) member (List.forall_mem_nil _) settles⟩
      exact called ▸ member.taken
    · obtain ⟨declared, lost, d, ran, introduces⟩ := declareType_introduces files (some outer)
        (Name.nested qualified decl.name) package decl
      have books := introduces.books
      have still : (d.binding outer).name = qualified := (books.runs.lasts.name_eq inside).trans called
      have member : d.HasMember outer decl.name := by
        refine ⟨⟨e.nextBinding, introduces.root.source, introduces.root.enclosing, ?_⟩, ?_⟩
        · rw [introduces.root.name, still]
        · rw [still]
          exact introduces.taken
      have later : ∀ name ∈ decl.name :: seen, d.HasMember outer name :=
        List.forall_mem_cons.2 ⟨member, fun name mem => (named name mem).of_runs inside books.runs⟩
      obtain ⟨more, further, e', rest_ran, settles⟩ := declareMembers_settles (books.files files)
        (Nat.lt_of_lt_of_le inside books.runs.lasts.size) still later rest
      exact ⟨_, _, e', (declareMembers_new repeated ran).trans rest_ran,
        .cons inside books introduces.booked member introduces.furnished settles⟩

end

end Resolve

end TeamRoles
