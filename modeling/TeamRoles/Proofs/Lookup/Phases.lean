import TeamRoles.Proofs.Hierarchy.Acyclic
import TeamRoles.Proofs.Lookup.Filing

/-!
Role files come behind all other units. Until the first of them asks for its team nothing is loaded, and no type
is loaded later under a name that a unit has declared. So a compiled team that is not inside another type is not
joined by a role while a unit declares a type of the team's name.
-/

namespace TeamRoles

namespace Env

variable {e e' c : Env} {b : BindingId} {x : Binding} {name : String} {unit : UnitId} {u : UnitDecl}
  {ids more : List UnitId} {units rest : List UnitDecl} {declared later : List BindingId} {lost further : List Report}

def Unloaded (e : Env) : Prop := ∀ b : BindingId, b.index < e.bindings.size → (e.binding b).isSource = true

theorem eq_nextBinding_or_lt (inside : b.index < (e.addBinding x).bindings.size) :
    b = e.nextBinding ∨ b.index < e.bindings.size := by
  have size : (e.addBinding x).bindings.size = e.bindings.size + 1 := by simp [addBinding]
  rw [size] at inside
  refine (Nat.lt_succ_iff_lt_or_eq.1 inside).symm.imp_left fun last => ?_
  cases b
  cases last
  rfl

theorem Unloaded.declare (h : e.Unloaded) (source : x.isSource = true) : (e.declare x).Unloaded := by
  intro b inside
  by_cases new : b = e.nextBinding
  · have here : (e.declare x).binding e.nextBinding = x := binding_addBinding_self
    rw [new, here, source]
  · have kept : (e.declare x).binding b = e.binding b := binding_addBinding_of_ne new
    rw [kept]
    exact h b ((eq_nextBinding_or_lt inside).resolve_left new)

theorem Unloaded.not_clash (h : e.Unloaded) : ¬ e.Clash := by
  rintro ⟨-, -, -, -, other, -, -, -, -, -, -, compiled⟩
  rw [h other (lt_size_of_not_isSource compiled)] at compiled
  cases compiled

end Env

open Env

theorem Step.isSource_of_taken {ℓ : Nat} {e e' : Env} {b : BindingId} (h : Step ℓ e e')
    (new : e.bindings.size ≤ b.index) (inside : b.index < e'.bindings.size) (taken : e.Taken (e'.binding b).name)
    (isTeam : (e'.binding b).isTeam = true) : (e'.binding b).isSource = true := by
  have here {x : Binding} (inside : b.index < (e.addBinding x).bindings.size) : (e.addBinding x).binding b = x := by
    rw [(eq_nextBinding_or_lt inside).resolve_right (Nat.not_lt_of_le new)]
    exact binding_addBinding_self
  have outside (size : e'.bindings.size = e.bindings.size) : (e'.binding b).isSource = true :=
    absurd (size ▸ inside) (Nat.not_lt_of_le new)
  cases h with
  | quiet same => exact outside same.size
  | @declare x _ source =>
    have same : (e.declare x).binding b = x := here inside
    rw [same, source]
  | @load x d _ _ _ named _ unbound =>
    have same : (e.introduce x).binding b = x := here inside
    obtain ⟨_, -, found⟩ := taken
    rw [same, named, unbound] at found
    cases found
  | @standIn n reason =>
    have same : (e.addProblem (.standIn n reason) n reason).binding b = .standIn n reason := here inside
    rw [same] at isTeam
    change Modifiers.public.isTeam = true at isTeam
    exact absurd isTeam (by decide)
  | roleFile => exact outside size_update
  | @store c v => exact outside (by cases c <;> rfl)
  | otherName | corrupt | missing | methods | mapping => exact outside rfl

theorem Runs.isSource_of_taken {ℓ : Nat} {e e' : Env} {r : Option Abort} {b : BindingId} {name : String}
    (h : Runs ℓ e r e') (taken : e.Taken name) (new : e.bindings.size ≤ b.index) (inside : b.index < e'.bindings.size)
    (named : (e'.binding b).name = name) (isTeam : (e'.binding b).isTeam = true) : (e'.binding b).isSource = true := by
  let I (d : Env) : Prop := d.Taken name ∧ (b.index < d.bindings.size → (d.binding b).name = name →
    (d.binding b).isTeam = true → (d.binding b).isSource = true)
  have framed {d d' : Env} (same : d.SameFrame d') (h : I d) : I d' := by
    have taken : d'.Taken name := by
      obtain ⟨c, source, found⟩ := h.1
      refine ⟨c, ?_, by rwa [same.lookup?_eq]⟩
      rwa [sources_congr same.size fun b => same.proj_eq (g := Binding.isSource) (fun _ => rfl) b]
    refine ⟨taken, fun inside named isTeam => ?_⟩
    rw [same.proj_eq (g := Binding.isSource) (fun _ => rfl)]
    refine h.2 (same.size ▸ inside) ?_ ?_
    · rw [← same.proj_eq (g := Binding.name) (fun _ => rfl), named]
    · rw [← same.proj_eq (g := Binding.isTeam) (fun _ => rfl), isTeam]
  have kept : I e' := by
    refine h.keeps (I := I) ?_ (fun _ _ _ => framed sameFrame_setSlot) (fun _ _ _ _ _ => framed sameFrame_setSlot)
      ⟨taken, fun old => absurd old (Nat.not_lt_of_le new)⟩
    intro d d' step ⟨taken, known⟩
    refine ⟨(Runs.step step).taken taken, fun inside named isTeam => ?_⟩
    by_cases old : b.index < d.bindings.size
    · have lasts := step.lasts
      rw [Binding.isSource, Binding.unit?, lasts.origin_eq old]
      refine known old ((lasts.name_eq old).symm.trans named) ?_
      rwa [Binding.isTeam, ← lasts.modifiers_eq old]
    · exact step.isSource_of_taken (Nat.le_of_not_lt old) inside (named.symm ▸ taken) isTeam
  exact kept.2 inside named isTeam

namespace Env

variable {e c : Env} {unit : UnitId} {u : UnitDecl} {ids more : List UnitId} {units rest : List UnitDecl}
  {declared later : List BindingId} {lost further : List Report}

theorem FiledAll.of_books {b : List BindingId} {r : List Report} (books : c.Books b r e)
    (h : c.FiledAll ids units declared lost) : e.FiledAll ids units declared lost := by
  induction h with
  | nil => exact .nil
  | cons files filed _ ih => exact .cons (books.files files) (filed.of_runs books.runs) ih

theorem FiledAll.append (h : e.FiledAll ids units declared lost) (h' : e.FiledAll more rest later further) :
    e.FiledAll (ids ++ more) (units ++ rest) (declared ++ later) (lost ++ further) := by
  induction h with
  | nil => exact h'
  | cons files filed _ ih =>
    rw [List.append_assoc, List.append_assoc]
    exact .cons files filed ih

structure RoleFileOf (e : Env) (u : UnitDecl) (team : BindingId) : Prop where
  named : ∃ teamName, u.teamPackage = some teamName ∧ e.Denotes teamName team
  isTeam : (e.binding team).isTeam = true

theorem Filed.enclosed (h : e.Filed unit u declared lost) (roleFile : u.teamPackage.isSome = true) :
    ∀ b ∈ declared, ∃ around, (e.binding b).enclosing = some around ∧ (around ∈ declared ∨ e.RoleFileOf u around) := by
  cases h with
  | regular given =>
    rw [given] at roleFile
    cases roleFile
  | @roleFile _ _ teamName team given denotes isTeam booked =>
    intro b hb
    rcases booked.enclosed b hb with direct | ⟨around, mem, inside⟩
    · exact ⟨team, direct, .inr ⟨⟨teamName, given, denotes⟩, isTeam⟩⟩
    · exact ⟨around, inside, .inl mem⟩
  | rejected => exact List.forall_mem_nil _

theorem FiledAll.enclosed (h : e.FiledAll ids units declared lost)
    (roleFiles : ∀ u ∈ units, u.teamPackage.isSome = true) : ∀ b ∈ declared,
      ∃ around, (e.binding b).enclosing = some around ∧ (around ∈ declared ∨ ∃ u ∈ units, e.RoleFileOf u around) := by
  induction h with
  | nil => exact List.forall_mem_nil _
  | cons _ filed _ ih =>
    obtain ⟨here, others⟩ := List.forall_mem_cons.1 roleFiles
    intro b hb
    rcases List.mem_append.1 hb with first | last
    · obtain ⟨around, inside, mem | file⟩ := filed.enclosed here b first
      · exact ⟨around, inside, .inl (List.mem_append_left _ mem)⟩
      · exact ⟨around, inside, .inr ⟨_, List.mem_cons_self, file⟩⟩
    · obtain ⟨around, inside, mem | ⟨u, hu, file⟩⟩ := ih others b last
      · exact ⟨around, inside, .inl (List.mem_append_right _ mem)⟩
      · exact ⟨around, inside, .inr ⟨u, List.mem_cons_of_mem _ hu, file⟩⟩

/-- There is no clash if role files join only types that are not inside of others, after all that is declared by
other units. -/
theorem not_clash_of_phases (unloaded : c.Unloaded) (before : c.Orderly) (orderly : e.Orderly)
    (books : c.Books declared lost e) (filed : e.FiledAll ids units declared lost)
    (roleFiles : ∀ u ∈ units, u.teamPackage.isSome = true)
    (top : ∀ u ∈ units, ∀ team, e.RoleFileOf u team → '$' ∉ (e.binding team).name.toList) : ¬ e.Clash := by
  have lasts := books.runs.lasts
  have enclosed := filed.enclosed roleFiles
  -- Both types around `b` have one name; the compiled one is shown to be the declared one after all.
  rintro ⟨outer, source, b, inner, other, decl, m, given, mem, called, enclosing, compiled⟩
  have plain : '$' ∉ m.name.toList := by
    obtain ⟨member, known, inside, named⟩ := (orderly.furnished outer source decl given m mem).inside
    have place := orderly.placed member known
    rw [Placed, inside, named] at place
    exact place.simple
  have same : (e.binding other).name = (e.binding outer).name := by
    have place := orderly.placed b inner
    rw [Placed, called] at place
    obtain ⟨around, inside, -, named⟩ := place.of_nested plain
    cases inside.symm.trans enclosing
    exact named
  have undeclared : other ∉ e.sources := fun declared => by
    rw [(mem_sources.1 declared).2] at compiled
    cases compiled
  have since {b : BindingId} (old : b.index < c.bindings.size) : b ∈ e.sources :=
    lasts.mem_sources (mem_sources.2 ⟨old, unloaded b old⟩)
  rw [books.sources] at inner source
  have isNew : b ∈ declared := by
    refine (List.mem_append.1 inner).resolve_left fun old => ?_
    have place := before.placed b old
    rw [Placed, ← lasts.enclosing_eq (mem_sources.1 old).1, enclosing] at place
    exact undeclared (since place.lt_size)
  obtain ⟨team, inside, mem | ⟨u, hu, file⟩⟩ := enclosed b isNew <;> cases inside.symm.trans enclosing
  · exact undeclared (books.sources ▸ List.mem_append_right _ mem)
  · have free : '$' ∉ (e.binding outer).name.toList := same ▸ top u hu _ file
    have place := orderly.placed outer (books.sources ▸ source)
    have outermost : (e.binding outer).enclosing = none := place.eq_none free
    have old : outer ∈ c.sources := by
      refine (List.mem_append.1 source).resolve_right fun new => ?_
      obtain ⟨around, inside, -⟩ := enclosed outer new
      cases outermost.symm.trans inside
    have taken : c.Taken (e.binding outer).name := by
      have mapped := before.mapped.resolve_left unloaded.not_clash
      rw [lasts.name_eq (mem_sources.1 old).1]
      exact ⟨outer, old, mapped.found outer old⟩
    have isNew : c.bindings.size ≤ other.index := Nat.le_of_not_lt fun old => undeclared (since old)
    have inside := lt_size_of_isTeam file.isTeam
    have isSource := books.runs.isSource_of_taken taken isNew inside same file.isTeam
    exact undeclared (mem_sources.2 ⟨inside, isSource⟩)

end Env

open Env

namespace Resolve

variable {α β : Type} {unit : UnitId} {u : UnitDecl} {enclosing : Option BindingId} {qualified package : String}

/-- No type comes by the resolution but those that units declare. -/
def LoadsNothing (x : Resolve α) : Prop := ∀ o e, e.Unloaded → (x o e).2.Unloaded

namespace LoadsNothing

theorem pure {a : α} : LoadsNothing (pure a) := fun _ _ h => h

theorem bind {x : Resolve α} {f : α → Resolve β} (hx : LoadsNothing x) (hf : ∀ a, LoadsNothing (f a)) :
    LoadsNothing (x >>= f) :=
  fun o e => after_bind (S := fun e e' => e.Unloaded → e'.Unloaded) (fun first last => last ∘ first) (hx o e)
    fun a d => hf a o d

theorem compositional : Compositional LoadsNothing where
  pure := pure
  bind := bind
  tooDeep _ _ h := h
  depth _ _ h := h

theorem get_bind {f : Env → Resolve β} (h : ∀ e, LoadsNothing (f e)) : LoadsNothing (get >>= f) :=
  fun o e => h e o e

theorem modify {g : Env → Env} (same : ∀ e, (g e).bindings = e.bindings) : LoadsNothing (modify g) := by
  intro _ e h b inside
  change b.index < (g e).bindings.size at inside
  change ((g e).binding b).isSource = true
  rw [binding, same]
  exact h b (same e ▸ inside)

theorem reportInUnit {p : ProblemId} {span : Span} {arguments : List String} :
    LoadsNothing (reportInUnit unit p span arguments) :=
  .get_bind fun _ => .modify fun _ => rfl

end LoadsNothing

theorem loadsNothing_declareType_of_members {decl : TypeDecl}
    (members : ∀ outer, LoadsNothing (declareMembers unit outer qualified package [] decl.memberTypes)) :
    LoadsNothing (declareType unit enclosing qualified package decl) := by
  intro o e h
  obtain ⟨x, -, -, source, -, applied⟩ := declareType_apply o e unit enclosing qualified package decl
  rw [applied]
  exact LoadsNothing.bind (members _) (fun _ => .pure) o _ (h.declare source)

mutual

theorem loadsNothing_declareType (enclosing : Option BindingId) (qualified : String) (decl : TypeDecl) :
    LoadsNothing (declareType unit enclosing qualified package decl) := by
  match decl with
  | ⟨_, _, _, _, _, _, _, _, _, memberTypes, _, _, _, _⟩ =>
    exact loadsNothing_declareType_of_members fun outer => loadsNothing_declareMembers outer qualified [] memberTypes

theorem loadsNothing_declareMembers (outer : BindingId) (qualified : String) (seen : List String)
    (decls : List TypeDecl) : LoadsNothing (declareMembers unit outer qualified package seen decls) := by
  match decls with
  | [] => exact .pure
  | decl :: rest =>
    rw [declareMembers]
    split
    · refine .bind .reportInUnit fun _ => ?_
      exact loadsNothing_declareMembers outer qualified seen rest
    · refine .bind ?_ fun _ => ?_
      · refine .bind ?_ fun _ => .pure
        exact loadsNothing_declareType (some outer) (Name.nested qualified decl.name) decl
      · exact loadsNothing_declareMembers outer qualified (decl.name :: seen) rest

end

theorem loadsNothing_declareOnce {decl : TypeDecl} {inline : Bool} :
    LoadsNothing (declareOnce unit enclosing qualified package decl inline) := by
  refine .bind (.get_bind fun _ => .pure) fun _ => ?_
  split
  · exact .bind .reportInUnit fun _ => .pure
  · exact .bind (loadsNothing_declareType _ _ _) fun _ => .pure

theorem addUnits_eq {units : List UnitDecl} : addUnits units =
    (units.filter (!·.teamPackage.isSome) ++ units.filter (·.teamPackage.isSome)).mapM addUnit := by
  rw [addUnits, List.partition_eq_filter_filter]
  rfl

theorem loadsNothing_buildUnit (regular : u.teamPackage = none) : LoadsNothing (buildUnit u) := by
  refine .get_bind fun e => ?_
  have built : LoadsNothing (buildRegularUnit ⟨e.units.size⟩ u) := by
    rw [buildRegularUnit_eq]
    refine LoadsNothing.compositional.filterMapM fun decl _ => ?_
    split
    · exact .bind .reportInUnit fun _ => loadsNothing_declareOnce
    · exact loadsNothing_declareOnce
  refine .bind (.modify fun _ => rfl) fun _ => ?_
  rw [regular]
  refine .bind built fun types => .get_bind fun _ => ?_
  exact .bind (.modify fun _ => rfl) fun _ => .pure

theorem loadsNothing_addUnit (regular : u.teamPackage = none) : LoadsNothing (addUnit u) :=
  .bind (loadsNothing_buildUnit regular) fun _ => .bind (.modify fun _ => rfl) fun _ => .pure

theorem unloaded_addUnits {o : Oracle} {e c : Env} {units : List UnitDecl} {ids : List UnitId} (h : e.Unloaded)
    (regular : ∀ u ∈ units, u.teamPackage = none) (ran : units.mapM addUnit o e = (.ok ids, c)) : c.Unloaded := by
  have loads : LoadsNothing (units.mapM addUnit) :=
    LoadsNothing.compositional.mapM fun u hu => loadsNothing_addUnit (regular u hu)
  have kept := loads o e h
  rwa [ran] at kept

end Resolve

end TeamRoles
