import TeamRoles.Proofs.Lookup.Declaring

/-!
Names of declared types. A type is named for its place, so two types of one name are at one place unless there
are two types of the name to be inside of; and a type is not declared at a place where there is one already.
What is inside a type is looked for among the declarations inside it only. So a name may come twice when a role
file has added to a compiled team before a type of the team's name is declared.
-/

namespace TeamRoles

namespace Name

variable {a b outer simple : String}

theorem mem_nested : '$' ∈ (nested outer simple).toList := by
  simp [nested]

theorem nested_inj {outer' : String} (ha : '$' ∉ a.toList) (hb : '$' ∉ b.toList)
    (same : nested outer a = nested outer' b) : outer = outer' ∧ a = b := by
  have split {l l' before : List Char} (h : '$' :: l = before ++ '$' :: l') (hl : '$' ∉ l) : before = [] ∧ l = l' := by
    cases before with
    | nil => exact ⟨rfl, (List.cons.inj h).2⟩
    | cons _ before =>
      rw [(List.cons.inj h).2] at hl
      exact absurd (List.mem_append_right before List.mem_cons_self) hl
  have chars : outer.toList ++ '$' :: a.toList = outer'.toList ++ '$' :: b.toList := by
    simpa [nested] using congrArg String.toList same
  rcases List.append_eq_append_iff.1 chars with ⟨more, longer, rest⟩ | ⟨more, longer, rest⟩
  · obtain ⟨rfl, suffix⟩ := split rest ha
    rw [List.append_nil] at longer
    exact ⟨(String.toList_inj.1 longer).symm, String.toList_inj.1 suffix⟩
  · obtain ⟨rfl, suffix⟩ := split rest hb
    rw [List.append_nil] at longer
    exact ⟨String.toList_inj.1 longer, (String.toList_inj.1 suffix).symm⟩

end Name

/-- A declaration whose name, like the names of all inside it, has no `$`. -/
inductive TypeDecl.Plain : TypeDecl → Prop
  | mk {decl : TypeDecl} : '$' ∉ decl.name.toList → (∀ m ∈ decl.memberTypes, m.Plain) → Plain decl

theorem TypeDecl.Plain.simple {decl : TypeDecl} : decl.Plain → '$' ∉ decl.name.toList
  | .mk simple _ => simple

theorem TypeDecl.Plain.inside {decl : TypeDecl} : decl.Plain → ∀ m ∈ decl.memberTypes, m.Plain
  | .mk _ inside => inside

structure UnitDecl.Plain (u : UnitDecl) : Prop where
  package : '$' ∉ u.package.toList
  types : ∀ decl ∈ u.types, decl.Plain

namespace Env

inductive Place (e : Env) : Option BindingId → String → Prop
  | top {name : String} : '$' ∉ name.toList → Place e none name
  | inside {outer : BindingId} {simple : String} : outer.index < e.bindings.size → '$' ∉ simple.toList →
    Place e (some outer) (Name.nested (e.binding outer).name simple)

def Placed (e : Env) (b : BindingId) : Prop := e.Place (e.binding b).enclosing (e.binding b).name

/-- Different declared types have different names, and each of them is what its name stands for. -/
structure Mapped (e : Env) : Prop where
  found : ∀ b ∈ e.sources, e.lookup? (e.binding b).name = some b
  distinct : ∀ b ∈ e.sources, ∀ c ∈ e.sources, (e.binding b).name = (e.binding c).name → b = c

/-- Declared types are named for their places and found under their names. -/
structure InPlace (e : Env) : Prop where
  placed : ∀ b ∈ e.sources, e.Placed b
  mapped : e.Mapped

/-- A type is declared inside a compiled one, under a name that belongs to a type declared inside a unit's. -/
def Clash (e : Env) : Prop :=
  ∃ outer ∈ e.sources, ∃ b ∈ e.sources, ∃ other decl m, (e.binding outer).decl? = some decl ∧
    m ∈ decl.memberTypes ∧ (e.binding b).name = Name.nested (e.binding outer).name m.name ∧
    (e.binding b).enclosing = some other ∧ (e.binding other).isSource = false

variable {e e' : Env} {b outer : BindingId} {unit : UnitId} {u : UnitDecl} {enclosing : Option BindingId}
  {qualified name : String} {naming : String → String} {decl : TypeDecl}

theorem Mapped.of_found (found : ∀ b ∈ e.sources, e.lookup? (e.binding b).name = some b) : e.Mapped := by
  refine ⟨found, fun b hb c hc same => ?_⟩
  have twice := found b hb
  rw [same, found c hc] at twice
  exact (Option.some.inj twice).symm

theorem lt_size_of_not_isSource (h : (e.binding b).isSource = false) : b.index < e.bindings.size := by
  refine lt_size_of_ne_default fun default => ?_
  rw [default] at h
  cases h

theorem Place.lt_size (h : e.Place (some outer) name) : outer.index < e.bindings.size := by
  cases h with
  | inside known => exact known

theorem Place.of_nested {simple : String} (plain : '$' ∉ simple.toList)
    (h : e.Place enclosing (Name.nested qualified simple)) :
    ∃ b, enclosing = some b ∧ b.index < e.bindings.size ∧ (e.binding b).name = qualified := by
  generalize same : Name.nested qualified simple = name at h
  cases h with
  | top free => exact absurd (same ▸ Name.mem_nested) free
  | inside known free => exact ⟨_, rfl, known, (Name.nested_inj plain free same).1.symm⟩

theorem Place.simple {simple : String} (h : e.Place (some outer) (Name.nested (e.binding outer).name simple)) :
    '$' ∉ simple.toList := by
  generalize same : Name.nested (e.binding outer).name simple = name at h
  cases h with
  | @inside _ other _ free =>
    have again : simple = other := by simpa [Name.nested] using same
    exact again ▸ free

theorem Place.eq_none (h : e.Place enclosing name) (free : '$' ∉ name.toList) : enclosing = none := by
  cases h with
  | top => rfl
  | inside => exact absurd Name.mem_nested free

theorem Place.of_lasts (h : e.Place enclosing name) (lasts : e.Lasts e') : e'.Place enclosing name := by
  cases h with
  | top plain => exact .top plain
  | inside known plain =>
    rw [← lasts.name_eq known]
    exact .inside (Nat.lt_of_lt_of_le known lasts.size) plain

theorem Placed.of_lasts (h : e.Placed b) (inside : b.index < e.bindings.size) (lasts : e.Lasts e') :
    e'.Placed b := by
  rw [Placed, lasts.enclosing_eq inside, lasts.name_eq inside]
  exact Place.of_lasts h lasts

theorem Clash.of_lasts (h : e.Clash) (lasts : e.Lasts e') : e'.Clash := by
  obtain ⟨outer, source, b, inner, other, decl, m, given, mem, named, enclosing, compiled⟩ := h
  have known := (mem_sources.1 source).1
  have inside := (mem_sources.1 inner).1
  refine ⟨outer, lasts.mem_sources source, b, lasts.mem_sources inner, other, decl, m, ?_, mem, ?_, ?_, ?_⟩
  · rw [Binding.decl?, lasts.origin_eq known]
    exact given
  · rw [lasts.name_eq inside, lasts.name_eq known, named]
  · rw [lasts.enclosing_eq inside, enclosing]
  · rw [Binding.isSource, Binding.unit?, lasts.origin_eq (lt_size_of_not_isSource compiled)]
    exact compiled

theorem Declared.place (h : e.Declared unit enclosing qualified decl b) {m : String} (plain : '$' ∉ m.toList) :
    e.Place (some b) (Name.nested qualified m) := by
  rw [← h.name]
  exact .inside (mem_sources.1 h.source).1 plain

mutual

theorem Booked.placed {enclosing : Option BindingId} {qualified : String} {decl : TypeDecl}
    {declared : List BindingId} {lost : List Report} (place : e.Place enclosing qualified) (plain : decl.Plain) :
    e.Booked unit u enclosing qualified decl declared lost → ∀ b ∈ declared, e.Placed b
  | .bound here members => by
    refine List.forall_mem_cons.2 ⟨?_, BookedAll.placed (fun _ => here.place) plain.inside members⟩
    rw [Placed, here.enclosing, here.name]
    exact place
  | .dropped _ => List.forall_mem_nil _

theorem BookedAll.placed {enclosing : Option BindingId} {naming : String → String} {decls : List TypeDecl}
    {declared : List BindingId} {lost : List Report}
    (places : ∀ simple, '$' ∉ simple.toList → e.Place enclosing (naming simple)) (plain : ∀ decl ∈ decls, decl.Plain) :
    e.BookedAll unit u enclosing naming decls declared lost → ∀ b ∈ declared, e.Placed b
  | .nil => List.forall_mem_nil _
  | .cons first rest => by
    obtain ⟨here, later⟩ := List.forall_mem_cons.1 plain
    have place := places _ here.simple
    intro b hb
    rcases List.mem_append.1 hb with early | late
    · exact Booked.placed place here first b early
    · exact BookedAll.placed places later rest b late

end

mutual

theorem Booked.enclosed {enclosing : Option BindingId} {qualified : String} {decl : TypeDecl}
    {declared : List BindingId} {lost : List Report} :
    e.Booked unit u enclosing qualified decl declared lost → ∀ b ∈ declared,
      (e.binding b).enclosing = enclosing ∨ ∃ c ∈ declared, (e.binding b).enclosing = some c
  | .bound here members => by
    refine List.forall_mem_cons.2 ⟨.inl here.enclosing, fun b hb => .inr ?_⟩
    rcases BookedAll.enclosed members b hb with direct | ⟨c, hc, inside⟩
    · exact ⟨_, List.mem_cons_self, direct⟩
    · exact ⟨c, List.mem_cons_of_mem _ hc, inside⟩
  | .dropped _ => List.forall_mem_nil _

theorem BookedAll.enclosed {enclosing : Option BindingId} {naming : String → String} {decls : List TypeDecl}
    {declared : List BindingId} {lost : List Report} :
    e.BookedAll unit u enclosing naming decls declared lost → ∀ b ∈ declared,
      (e.binding b).enclosing = enclosing ∨ ∃ c ∈ declared, (e.binding b).enclosing = some c
  | .nil => List.forall_mem_nil _
  | .cons first rest => by
    intro b hb
    rcases List.mem_append.1 hb with early | late
    · exact (Booked.enclosed first b early).imp_right fun ⟨c, hc, inside⟩ => ⟨c, List.mem_append_left _ hc, inside⟩
    · exact (BookedAll.enclosed rest b late).imp_right fun ⟨c, hc, inside⟩ => ⟨c, List.mem_append_right _ hc, inside⟩

end

section Growth

variable {declared : List BindingId} {lost : List Report} {seen : List String} {m : TypeDecl} {whole : TypeDecl}

theorem Books.placed (h : e.Books declared lost e') (old : ∀ b ∈ e.sources, e.Placed b)
    (new : ∀ b ∈ declared, e'.Placed b) : ∀ b ∈ e'.sources, e'.Placed b := by
  intro b hb
  rw [h.sources] at hb
  rcases List.mem_append.1 hb with before | since
  · exact (old b before).of_lasts (mem_sources.1 before).1 h.runs.lasts
  · exact new b since

theorem Mapped.declare {x : Binding} (h : e.Mapped) (source : x.isSource = true)
    (free : ∀ b ∈ e.sources, (e.binding b).name ≠ x.name) : (e.declare x).Mapped := by
  refine .of_found fun b hb => ?_
  rw [sources_declare source] at hb
  rcases List.mem_append.1 hb with before | new
  · have other : b ≠ e.nextBinding := by
      rintro rfl
      exact Nat.lt_irrefl _ (mem_sources.1 before).1
    have kept : (e.declare x).binding b = e.binding b := binding_addBinding_of_ne other
    rw [lookup?_declare, kept, if_neg (free b before)]
    exact h.found b before
  · cases List.mem_singleton.1 new
    have here : (e.declare x).binding e.nextBinding = x := binding_addBinding_self
    rw [lookup?_declare, here, if_pos rfl]

theorem InPlace.free (h : e.InPlace) (apart : ¬ e.Clash) (root : e.Declared unit enclosing qualified whole outer)
    (inner : ∀ b ∈ e.sources, (e.binding b).enclosing = some outer →
      ∃ name ∈ seen, (e.binding b).name = Name.nested qualified name)
    (mem : m ∈ whole.memberTypes) (plain : '$' ∉ m.name.toList) (new : m.name ∉ seen) :
    ∀ b ∈ e.sources, (e.binding b).name ≠ Name.nested qualified m.name := by
  intro b source named
  have place := h.placed b source
  rw [Placed, named] at place
  obtain ⟨around, enclosing, known, called⟩ := place.of_nested plain
  by_cases declared : (e.binding around).isSource = true
  · -- There is but one declared type of that name to be inside of.
    have same : around = outer :=
      h.mapped.distinct around (mem_sources.2 ⟨known, declared⟩) outer root.source (called.trans root.name.symm)
    obtain ⟨name, before, given⟩ := inner b source (same ▸ enclosing)
    have again : name = m.name := by
      simpa [Name.nested] using given.symm.trans named
    exact new (again ▸ before)
  · refine apart ⟨outer, root.source, b, source, around, whole, m, root.decl?, mem, ?_, enclosing, ?_⟩
    · rw [named, root.name]
    · exact Bool.eq_false_iff.2 declared

theorem Introduces.inner (h : e.Introduces unit u (some outer) (Name.nested qualified name) decl declared lost e')
    (source : outer ∈ e.sources)
    (inner : ∀ b ∈ e.sources, (e.binding b).enclosing = some outer →
      ∃ name ∈ seen, (e.binding b).name = Name.nested qualified name) :
    ∀ b ∈ e'.sources, (e'.binding b).enclosing = some outer →
      ∃ n ∈ name :: seen, (e'.binding b).name = Name.nested qualified n := by
  have lasts := h.books.runs.lasts
  have once : (e.sources ++ e.nextBinding :: declared).Nodup := h.books.sources ▸ nodup_sources
  intro b hb enclosing
  rw [h.books.sources] at hb
  rcases List.mem_append.1 hb with before | since
  · have known := (mem_sources.1 before).1
    rw [lasts.enclosing_eq known] at enclosing
    rw [lasts.name_eq known]
    obtain ⟨name, mem, named⟩ := inner b before enclosing
    exact ⟨name, List.mem_cons_of_mem _ mem, named⟩
  · rcases List.mem_cons.1 since with rfl | deeper
    · exact ⟨name, List.mem_cons_self, h.root.name⟩
    · -- Anything else that is new is inside of something new.
      exfalso
      refine List.disjoint_of_nodup_append once source ?_
      rcases h.members.enclosed b deeper with direct | ⟨c, hc, inside⟩
      · cases direct.symm.trans enclosing
        exact List.mem_cons_self
      · cases inside.symm.trans enclosing
        exact List.mem_cons_of_mem _ hc

end Growth

end Env

open Env

namespace Resolve

variable {o : Oracle} {unit : UnitId} {u : UnitDecl}

theorem declareType_mapped_of_members {e e' : Env} {b : BindingId} {enclosing : Option BindingId}
    {qualified package : String} {decl : TypeDecl} (files : e.Files unit u) (inPlace : e.InPlace)
    (place : e.Place enclosing qualified) (free : ∀ b ∈ e.sources, (e.binding b).name ≠ qualified)
    (ran : declareType unit enclosing qualified package decl o e = (.ok b, e'))
    (members : ∀ {d : Env} {outer : BindingId}, d.Files unit u → d.InPlace →
      d.Declared unit enclosing qualified decl outer → (∀ b ∈ d.sources, (d.binding b).enclosing ≠ some outer) →
      declareMembers unit outer qualified package [] decl.memberTypes o d = (.ok (), e') → e'.Mapped) :
    e'.Mapped := by
  obtain ⟨x, rfl, bare, source, root, applied⟩ := declareType_apply o e unit enclosing qualified package decl
  obtain ⟨⟨⟩, d, filled, rest⟩ := bind_eq_ok (applied.symm.trans ran)
  cases rest
  have books : e.Books [e.nextBinding] [] (e.declare x) := .declare source bare
  refine members (books.files files) ⟨books.placed inPlace.placed ?_, inPlace.mapped.declare source free⟩ root ?_ filled
  · rw [List.forall_mem_singleton, Placed, root.enclosing, root.name]
    exact place.of_lasts books.runs.lasts
  · -- What was there before is inside of what was there before.
    intro b hb inside
    rw [sources_declare source] at hb
    rcases List.mem_append.1 hb with before | new
    · rw [books.runs.lasts.enclosing_eq (mem_sources.1 before).1] at inside
      have known := inPlace.placed b before
      rw [Placed, inside] at known
      exact Nat.lt_irrefl _ known.lt_size
    · cases List.mem_singleton.1 new
      rw [root.enclosing.symm.trans inside] at place
      exact Nat.lt_irrefl _ place.lt_size

mutual

theorem declareType_mapped (ho : o.Lawful) {e e' : Env} {b : BindingId} {enclosing : Option BindingId}
    {qualified package : String} (files : e.Files unit u) (inPlace : e.InPlace)
    (place : e.Place enclosing qualified) (free : ∀ b ∈ e.sources, (e.binding b).name ≠ qualified)
    (apart : ¬ e'.Clash) (decl : TypeDecl) (plain : decl.Plain)
    (ran : declareType unit enclosing qualified package decl o e = (.ok b, e')) : e'.Mapped := by
  match decl with
  | ⟨_, _, _, _, _, _, _, _, _, memberTypes, _, _, _, _⟩ =>
    refine declareType_mapped_of_members files inPlace place free ran fun files inPlace root alone filled => ?_
    exact declareMembers_mapped ho files inPlace root (fun b hb inside => absurd inside (alone b hb)) apart
      memberTypes plain.inside (List.Subset.refl _) filled

theorem declareMembers_mapped (ho : o.Lawful) {e e' : Env} {outer : BindingId} {enclosing : Option BindingId}
    {qualified package : String} {whole : TypeDecl} {seen : List String} (files : e.Files unit u)
    (inPlace : e.InPlace) (root : e.Declared unit enclosing qualified whole outer)
    (inner : ∀ b ∈ e.sources, (e.binding b).enclosing = some outer →
      ∃ name ∈ seen, (e.binding b).name = Name.nested qualified name)
    (apart : ¬ e'.Clash) (decls : List TypeDecl) (plain : ∀ decl ∈ decls, decl.Plain)
    (within : decls ⊆ whole.memberTypes)
    (ran : declareMembers unit outer qualified package seen decls o e = (.ok (), e')) : e'.Mapped := by
  -- Later declarations keep a clash, so there is none yet after each of them.
  match decls with
  | [] =>
    cases ran
    exact inPlace.mapped
  | decl :: rest =>
    obtain ⟨here, later⟩ := List.forall_mem_cons.1 plain
    obtain ⟨first, others⟩ := List.cons_subset.1 within
    have lasts {d : Env} {seen : List String}
        (ran : declareMembers unit outer qualified package seen rest o d = (.ok (), e')) : d.Lasts e' := by
      have lawful : Lawful 8 (declareMembers unit outer qualified package seen rest) := lawful_declareMembers
      have runs := lawful o ho d
      rw [ran] at runs
      exact runs.lasts
    by_cases repeated : decl.name ∈ seen
    · rw [declareMembers_seen files repeated] at ran
      have books : e.Books [] [u.repeated decl (Name.nested qualified decl.name)]
          (e.report (some u.fileName) .duplicateTypes decl.span [Name.nested qualified decl.name]) := .lose rfl
      have placed := books.placed inPlace.placed (List.forall_mem_nil _)
      exact declareMembers_mapped ho (books.files files) ⟨placed, inPlace.mapped.found, inPlace.mapped.distinct⟩
        (root.of_lasts books.runs.lasts) inner apart rest later others ran
    · obtain ⟨declared, lost, d, done, introduces⟩ := declareType_introduces (o := o) files (some outer)
        (Name.nested qualified decl.name) package decl
      rw [declareMembers_new repeated done] at ran
      have apart' : ¬ d.Clash := fun clash => apart (clash.of_lasts (lasts ran))
      have books := introduces.books
      have place := root.place here.simple
      have free := inPlace.free (fun clash => apart' (clash.of_lasts books.runs.lasts)) root inner first here.simple
        repeated
      have inPlace' : d.InPlace :=
        ⟨books.placed inPlace.placed (introduces.booked.placed (place.of_lasts books.runs.lasts) here),
          declareType_mapped ho files inPlace place free apart' decl here done⟩
      exact declareMembers_mapped ho (books.files files) inPlace' (root.of_lasts books.runs.lasts)
        (introduces.inner root.source inner) apart rest later others ran

end

end Resolve

end TeamRoles
