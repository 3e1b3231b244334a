import TeamRoles.Members.Methods
import TeamRoles.Proofs.Env.Tsuper
import TeamRoles.Proofs.Lawful.References
import TeamRoles.Proofs.Signature.RoundTrip

/-!
Type variables and tsuper roles are resolved lawfully, and so are the roles that stand for others in a team.
-/

namespace TeamRoles.Resolve

variable {ℓ : Nat}

theorem stable_isGeneric {b : BindingId} (generic : Bool) :
    Stable ℓ fun e => b.index < e.bindings.size ∧ (e.binding b).isGeneric = generic := by
  rintro e r e' runs ⟨inside, same⟩
  refine ⟨Nat.lt_of_lt_of_le inside runs.lasts.size, ?_⟩
  rw [Binding.isGeneric, runs.lasts.origin_eq inside]
  exact same

theorem lawful_addTypeVars {owner : TypeVarOwner} {names : List String} :
    Lawful ℓ (addTypeVars owner names) :=
  .mapM fun _ => lawful_addTypeVar

theorem lawful_setBounds {vars : List TypeVarId} {bounds : List (Resolve (List Ty))}
    (h : ∀ x ∈ bounds, Lawful ℓ x) : Lawful ℓ (setBounds vars bounds) := by
  rw [setBounds]
  induction vars generalizing bounds with
  | nil => exact .pure
  | cons v vars ih =>
    cases bounds with
    | nil => exact .pure
    | cons x bounds =>
      obtain ⟨hx, hBounds⟩ := List.forall_mem_cons.1 h
      exact (hx.bind fun _ => lawful_updateTypeVar).bind fun _ => ih hBounds

theorem lawful_declaredBounds {site : Site} {params : List TypeParamDecl} :
    ∀ x ∈ declaredBounds site params, Lawful (ℓ + 1) x := by
  intro x hx
  obtain ⟨p, -, rfl⟩ := List.mem_map.1 hx
  exact lawful_typesOfSpecs

theorem lawful_signatureBounds {scope : SignatureScope} {formals : List Signature.Formal} :
    ∀ x ∈ signatureBounds scope formals, Lawful (ℓ + 1) x := by
  intro x hx
  obtain ⟨p, -, rfl⟩ := List.mem_map.1 hx
  exact .mapM lawful_typeOfSig

theorem addTypeVars_triple {owner : TypeVarOwner} {names : List String} {P : Env → Prop}
    (stable : Stable ℓ P) :
    Triple ℓ P (addTypeVars owner names) fun vars e => (names = [] → vars = []) ∧ P e := by
  cases names with
  | nil => exact .pure fun _ h => ⟨fun _ => rfl, h⟩
  | cons name names => exact (lawful_addTypeVars.keeps stable).post fun _ _ h => ⟨nofun, h⟩

theorem publishTypeVars_latched {start : Env} {b : BindingId} {x : Binding} {names : List String}
    {bounds : List (Resolve (List Ty))} (named : x.isGeneric = false → names = [])
    (h : ∀ x ∈ bounds, Lawful (ℓ + 1) x) :
    Latched start (ℓ + 1) (.typeVariables b)
      (fun e => b.index < e.bindings.size ∧ (e.binding b).isGeneric = x.isGeneric)
      (publishTypeVars b names bounds) fun vars e => e.slot (.typeVariables b) = .resolved vars := by
  refine .bind (addTypeVars_triple (stable_isGeneric x.isGeneric)) fun vars => .finish ?_ (fun _ _ => trivial) ?_
  · rintro e ⟨none, -, same⟩ plain
    exact none (named (same.symm.trans plain))
  · exact (lawful_setBounds h).keeping stable_slot fun _ => .pure fun _ h => h

theorem formalsOf_eq_nil {d : Descriptor} {x : Binding} (origin : x.origin = .binary d)
    (plain : x.isGeneric = false) : formalsOf d = [] := by
  rw [Binding.isGeneric, origin] at plain
  unfold formalsOf
  split
  · next c parsed =>
    obtain ⟨signature, given, parsed⟩ := Option.map_eq_some_iff.1 parsed
    simp only [given] at plain
    exact Signature.formals_of_parseClass parsed (by simpa using plain)
  · rfl

theorem typeVariables_triple {b : BindingId} :
    Triple (ℓ + 1) (fun _ => True) (typeVariables b)
      fun vars e => e.slot (.typeVariables b) = .resolved vars := by
  refine .bind known_triple fun x => ?_
  split
  · next resolved =>
    refine .pure ?_
    rintro e ⟨-, rfl⟩
    exact resolved
  · next begun =>
    refine (reentrant_triple (p := .typeVariables b) rfl (by simp)).pre ?_
    rintro e ⟨-, rfl⟩
    exact begun
  · next fresh =>
    refine (Triple.begin_keeping (p := .typeVariables b)
      (P := fun e => b.index < e.bindings.size ∧ (e.binding b).isGeneric = x.isGeneric) (by simp)
      (fun e he => ?_) fun _ => .pre (P := fun e =>
        b.index < e.bindings.size ∧ (e.binding b).isGeneric = x.isGeneric) ?_ fun _ h => h.2).pre ?_
    · have frame : e.SameFrame (e.setSlot (.typeVariables b) .inProgress) := Env.sameFrame_setSlot
      rwa [frame.size, frame.proj_eq (g := Binding.isGeneric) fun _ => rfl]
    · split
      · next decl unit origin =>
        refine .get_bind fun _ => (publishTypeVars_latched ?_ lawful_declaredBounds).pre fun _ h => h.2
        intro plain
        rw [Binding.isGeneric, origin] at plain
        simpa using plain
      · next d origin =>
        refine publishTypeVars_latched (fun plain => ?_) lawful_signatureBounds
        rw [formalsOf_eq_nil origin plain, List.map_nil]
      · exact publishTypeVars_latched (fun _ => rfl) nofun
    · rintro e ⟨inside, rfl⟩
      exact ⟨⟨inside, fresh⟩, inside, rfl⟩

theorem lawful_superTeams {σ : Type} {start : List BindingId} {found : σ}
    {visit : σ → BindingId → Resolve σ} (h : ∀ s b, Lawful (ℓ + 1) (visit s b)) :
    Lawful (ℓ + 1) (superTeams start found visit) := by
  refine lawful_walk (fun _ => .bind lawful_superclassOf fun _ => .pure) _ _ fun s b => ?_
  exact .bind .get fun _ => .ite (.bind (h s b) fun _ => .pure) .pure

/-- What a role of a team refines has been found so far, if it was looked for with numbers in range. -/
structure FindsRefined (start : Env) (role team : BindingId) (simple : String) (teams found : List BindingId)
    (e : Env) : Prop where
  teamOf : e.teamOf? role = some team
  simpleName : (e.binding role).simpleName = simple
  ranged : start.Ranged → e.Ranged
  refines : start.Ranged → e.Refines role team teams found

def refineIn (role : BindingId) (simple : String) (found : List BindingId) (team : BindingId) :
    Resolve (List BindingId) := do
  let members ← memberTypes team
  let e ← get
  let tsuper := members.find? fun m => (e.binding m).simpleName == simple && m != role
  return found ++ tsuper.toList

def refineAt (role : BindingId) (simple : String) (found : List BindingId) (above : BindingId) :
    Resolve (Visit (List BindingId)) := do
  if ((← get).binding above).isTeam then return .inner (← refineIn role simple found above)
  else return .leaf found

section Refined

variable {start e : Env} {role team a : BindingId} {simple : String} {teams found members : List BindingId}
  {next : Option BindingId}

theorem stable_findsRefined : Stable ℓ (FindsRefined start role team simple teams found) := by
  intro e r e' runs h
  have inside := Env.lt_size_of_teamOf? h.teamOf
  have like := runs.lasts.resembles
  refine ⟨(Env.teamOf?_eq like inside).trans h.teamOf, ?_, fun given => runs.ranged (h.ranged given),
    fun given => (h.refines given).of_resembles (h.ranged given) like⟩
  rw [Binding.simpleName, runs.lasts.name_eq inside]
  exact h.simpleName

theorem stable_superclass {b : BindingId} {c : Option BindingId} : Stable ℓ fun e => e.Superclass b c :=
  fun _ _ _ runs h => h.of_resembles runs.lasts.resembles

theorem superclassOf_triple {b : BindingId} :
    Triple (ℓ + 1) (fun _ => True) (superclassOf b) fun c e => e.Superclass b c :=
  .bind (.ask _ (by simp)) fun s => .pure fun _ shown => ⟨s, shown, rfl⟩

theorem above_triple {b : BindingId} :
    Triple (ℓ + 1) (fun _ => True) (above b) fun next e => ∃ s, e.Shows b s ∧ next = s.bindings :=
  .bind (.ask _ (by simp)) fun s => .pure fun _ shown => ⟨s, shown, rfl⟩

theorem refineIn_triple (new : a ∉ teams) :
    Triple (ℓ + 1) (fun e => (e.binding a).isTeam = true ∧ e.Superclass (teams.getLastD team) (some a) ∧
        FindsRefined start role team simple teams found e)
      (refineIn role simple found a)
      (FindsRefined start role team simple (teams ++ [a])) := by
  have stable : Stable (ℓ + 1) fun e => (e.binding a).isTeam = true ∧
      e.Superclass (teams.getLastD team) (some a) ∧ FindsRefined start role team simple teams found e :=
    fun _ _ _ runs h => ⟨runs.lasts.isTeam_eq h.1, stable_superclass runs h.2.1, stable_findsRefined runs h.2.2⟩
  refine .framed_bind memberTypes_triple stable (fun _ _ => trivial) fun members => .get_bind fun e => .pure ?_
  rintro e ⟨rfl, known, isTeam, above, h⟩
  have refined : e.refined? role a =
      members.find? fun m => (e.binding m).simpleName == simple && m != role := by
    rw [Env.refined?, known, h.simpleName]
    rfl
  exact { h with refines := fun given => refined ▸ (h.refines given).add above new isTeam known }

theorem refineAt_triple (new : a ∉ teams) :
    Triple (ℓ + 1) (fun e => e.Superclass (teams.getLastD team) (some a) ∧
        FindsRefined start role team simple teams found e)
      (refineAt role simple found a)
      fun v e => match v with
        | .stop _ => False
        | .leaf found' => found' = found ∧ (∀ u ∈ some a, (e.binding u).isTeam = true → u ∈ teams) ∧
          e.Superclass (teams.getLastD team) (some a) ∧ FindsRefined start role team simple teams found e
        | .inner found => FindsRefined start role team simple (teams ++ [a]) found e := by
  refine .get_bind fun e => ?_
  split
  · next isTeam =>
    refine .bind ((refineIn_triple new).pre ?_) fun found => .pure fun _ h => h
    rintro _ ⟨rfl, h⟩
    exact ⟨isTeam, h⟩
  · next other =>
    refine .pure ?_
    rintro _ ⟨rfl, h⟩
    refine ⟨rfl, fun u hu isTeam => absurd isTeam ?_, h⟩
    rwa [← Option.mem_some.1 hu]

theorem refineFrom_nil_triple {fuel : Nat} {seen : List BindingId} :
    Triple (ℓ + 1) (fun e => (∀ u ∈ next, (e.binding u).isTeam = true → u ∈ teams) ∧
        e.Superclass (teams.getLastD team) next ∧ FindsRefined start role team simple teams found e)
      (walkFrom .depthFirst (fun t => do return (← superclassOf t).toList) (refineAt role simple) fuel seen []
        found)
      fun found e => start.Ranged → e.RefinesAll role found := by
  have done (e : Env) (h : (∀ u ∈ next, (e.binding u).isTeam = true → u ∈ teams) ∧
      e.Superclass (teams.getLastD team) next ∧ FindsRefined start role team simple teams found e)
      (given : start.Ranged) : e.RefinesAll role found :=
    ⟨team, teams, next, h.2.2.refines given, h.2.1, h.1⟩
  cases fuel <;> exact .pure done

theorem refineFrom_triple (teams : List BindingId) {fuel : Nat} :
    Triple (ℓ + 1) (fun e => e.Superclass (teams.getLastD team) next ∧
        FindsRefined start role team simple teams found e)
      (walkFrom .depthFirst (fun t => do return (← superclassOf t).toList) (refineAt role simple) fuel
        teams.reverse next.toList found)
      fun found e => start.Ranged → e.RefinesAll role found := by
  -- The walk has one team at hand at a time: the superclass of the last one that was passed.
  induction fuel generalizing teams next found with
  | zero =>
    cases next with
    | none => exact refineFrom_nil_triple.pre fun _ h => ⟨by simp, h⟩
    | some a => exact .throw rfl
  | succ fuel ih =>
    cases next with
    | none => exact refineFrom_nil_triple.pre fun _ h => ⟨by simp, h⟩
    | some a =>
      by_cases passed : a ∈ teams
      · rw [Option.toList_some, walkFrom, if_pos (by simpa using passed)]
        refine refineFrom_nil_triple.pre fun e h => ⟨fun u hu _ => ?_, h⟩
        rwa [← Option.mem_some.1 hu]
      · rw [Option.toList_some, walkFrom, if_neg (by simpa using passed)]
        refine .bind (refineAt_triple passed) fun v => ?_
        cases v with
        | stop => exact .pure fun _ h => h.elim
        | leaf found' =>
          refine .assume ?_
          rintro rfl
          exact refineFrom_nil_triple
        | inner found =>
          refine .bind (Q := fun above e => ∃ next, above = Option.toList next ∧ e.Superclass a next ∧
            FindsRefined start role team simple (teams ++ [a]) found e) ?_ fun above => ?_
          · refine .framed_bind superclassOf_triple stable_findsRefined (fun _ _ => trivial) fun next => ?_
            exact .pure fun e h => ⟨next, rfl, h⟩
          · rintro o ho e ⟨next, rfl, above, h⟩
            have above : e.Superclass ((teams ++ [a]).getLastD team) next := by simpa using above
            have rest := ih (teams ++ [a]) o ho e ⟨above, h⟩
            simpa [WalkOrder.push] using rest

end Refined

theorem tsuperRoles_triple {role : BindingId} :
    Triple (ℓ + 2) (fun _ => True) (tsuperRoles role) fun list e =>
      (e.binding role).role = none ∧ list = [] ∨ e.slot (.tsuperRoles role) = .resolved list := by
  refine .get_bind fun e => ?_
  extract_lets x
  split
  · next none =>
    refine .pure ?_
    rintro _ ⟨rfl, -⟩
    exact .inl ⟨none, rfl⟩
  · next model isRole =>
    have slot : e.slot (.tsuperRoles role) = model.tsuperRoles := by
      rw [Env.slot, Binding.tsuperRoles, isRole]
    split
    · next resolved =>
      refine .pure ?_
      rintro _ ⟨rfl, -⟩
      exact .inr (slot.trans resolved)
    · next begun =>
      refine (reentrant_triple (p := .tsuperRoles role) rfl (by simp)).pre ?_
      rintro _ ⟨rfl, -⟩
      exact slot.trans begun
    · next fresh =>
      have has : e.Has (.tsuperRoles role) := Option.isSome_iff_exists.2 ⟨model, isRole⟩
      refine (Triple.begin_from e (p := .tsuperRoles role)
        (P := FindsRefined e role model.team x.simpleName [] []) (by simp) ?_ ?_).pre ?_
      · have frame : e.SameFrame (e.setSlot (.tsuperRoles role) .inProgress) := Env.sameFrame_setSlot
        have teamOf : (e.setSlot (.tsuperRoles role) .inProgress).teamOf? role = some model.team := by
          rw [frame.teamOf?_eq, Env.teamOf?, isRole, Option.map_some]
        exact ⟨teamOf, frame.proj_eq (g := Binding.simpleName) (fun _ => rfl) role, fun ranged => ranged.begin has,
          fun _ => .nil teamOf⟩
      · refine .bind (superclassOf_triple.framed stable_findsRefined fun _ _ => trivial) fun above => ?_
        have found : Triple 1 (fun e' => e'.Superclass model.team above ∧
            FindsRefined e role model.team x.simpleName [] [] e')
            (superTeams above.toList [] (refineIn role x.simpleName))
            fun list e' => e.Ranged → e'.RefinesAll role list :=
          Lawful.depth.keeping (fun _ _ _ runs h => ⟨stable_superclass runs h.1, stable_findsRefined runs h.2⟩)
            fun fuel => refineFrom_triple (ℓ := 0) []
        exact .bind found fun list => .finish (fun _ h => h) (fun _ _ => trivial) (.pure fun _ h => .inr h)
      · rintro _ ⟨rfl, -⟩
        exact ⟨rfl, has, slot.trans fresh⟩

theorem lawful_tsuperRoles {role : BindingId} : Lawful (ℓ + 2) (tsuperRoles role) :=
  Triple.lawful tsuperRoles_triple

section Rebinding

variable {role team : BindingId} {simple : String}

theorem stable_teamOf? : Stable ℓ fun e => e.teamOf? role = some team :=
  fun _ _ _ run given => (Env.teamOf?_eq run.lasts.resembles (Env.lt_size_of_teamOf? given)).trans given

theorem roleNamed_triple : Triple (ℓ + 1) (fun _ => True) (roleNamed team simple)
    fun found e => e.FirstNamed team simple found := by
  refine .bind memberTypes_triple fun members => .get_bind fun e => .pure ?_
  rintro _ ⟨rfl, known⟩
  exact ⟨members, known, rfl⟩

theorem rebindRole_triple :
    Triple (ℓ + 1) (fun _ => True) (rebindRole role team) fun c e => e.Rebinds role team c := by
  refine .get_bind fun e => ?_
  split
  · next none =>
    refine .pure ?_
    rintro _ ⟨rfl, -⟩
    exact .own (by simp [none])
  · next own given =>
    split
    · next same =>
      refine .pure ?_
      rintro _ ⟨rfl, -⟩
      exact .own (by simpa [given] using same)
    · next other =>
      have stable : Stable (ℓ + 1) fun e' =>
          e'.teamOf? role = some own ∧ (e'.binding role).simpleName = (e.binding role).simpleName := by
        intro _ _ _ run h
        refine ⟨stable_teamOf? run h.1, .trans ?_ h.2⟩
        rw [Binding.simpleName, run.lasts.name_eq (Env.lt_size_of_teamOf? h.1), Binding.simpleName]
      refine .pre (.framed_bind roleNamed_triple stable (fun _ _ => trivial) fun found => .pure ?_) ?_
      · rintro e' ⟨first, given, named⟩
        exact .other given (by simpa using other) (named ▸ first)
      · rintro _ ⟨rfl, -⟩
        exact ⟨given, rfl⟩

theorem lawful_rebindRole : Lawful (ℓ + 1) (rebindRole role team) := Triple.lawful rebindRole_triple

theorem lawful_rebindType (t : Ty) : Lawful (ℓ + 1) (rebindType team t) := by
  fun_induction rebindType team t with
  | case1 b => exact .bind lawful_rebindRole fun _ => .pure
  | case2 component ih => exact ih.bind fun _ => .pure
  | case3 role path ih => exact ih.bind fun _ => .pure
  | case4 => exact .pure

theorem teamOf_triple : Triple ℓ (fun _ => True) (teamOf role) fun team e => e.teamOf? role = some team := by
  refine .get_bind fun e => ?_
  split
  · next team given =>
    refine .pure ?_
    rintro _ ⟨rfl, -⟩
    exact given
  · exact .throw rfl

theorem lawful_teamOf : Lawful ℓ (teamOf role) := Triple.lawful teamOf_triple

end Rebinding

end TeamRoles.Resolve
