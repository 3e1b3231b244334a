import TeamRoles.Hierarchy.Supertypes
import TeamRoles.Proofs.Lawful.Members

/-!
The supertypes of a type are resolved lawfully: an edge is kept only if it leads to a stand-in, to
the root, or to a type above which the type itself is not met.
-/

namespace TeamRoles

/-- How far a walk has come that looks for a target above a start. -/
structure Env.Searched (e : Env) (target start : BindingId) (seen todo : List BindingId) : Prop where
  started : start ∈ seen ∨ start ∈ todo
  met : ∀ a ∈ seen, a ≠ target ∧ ∃ s, e.Shows a s ∧ ∀ c ∈ s.bindings, c ∈ seen ∨ c ∈ todo

namespace Env.Searched

variable {e : Env} {target a start : BindingId} {seen todo : List BindingId}

theorem skip (h : e.Searched target start seen (a :: todo)) (known : a ∈ seen) :
    e.Searched target start seen todo := by
  have due (c : BindingId) (hc : c ∈ seen ∨ c ∈ a :: todo) : c ∈ seen ∨ c ∈ todo := by
    grind
  refine ⟨due start h.started, fun c hc => ?_⟩
  obtain ⟨other, s, shown, above⟩ := h.met c hc
  exact ⟨other, s, shown, fun d hd => due d (above d hd)⟩

theorem visit {s : Supertypes} (h : e.Searched target start seen (a :: todo)) (other : a ≠ target)
    (shown : e.Shows a s) :
    e.Searched target start (a :: seen) (s.bindings.reverse ++ todo) := by
  have due (c : BindingId) (hc : c ∈ seen ∨ c ∈ a :: todo) :
      c ∈ a :: seen ∨ c ∈ s.bindings.reverse ++ todo := by
    grind
  refine ⟨due start h.started, fun c hc => ?_⟩
  rcases List.mem_cons.1 hc with rfl | hc
  · exact ⟨other, s, shown, fun d hd => .inr (by simp [hd])⟩
  · obtain ⟨other, s', shown', above⟩ := h.met c hc
    exact ⟨other, s', shown', fun d hd => due d (above d hd)⟩

theorem clear (h : e.Searched target start seen []) : e.Clear target start := by
  intro d path
  have hd : d ∈ seen := by
    induction path with
    | refl => exact h.started.resolve_right List.not_mem_nil
    | tail _ edge ih =>
      obtain ⟨-, s, shown, above⟩ := h.met _ ih
      exact (above _ (shown.above_iff.1 edge)).resolve_right List.not_mem_nil
  obtain ⟨other, s, shown, -⟩ := h.met d hd
  exact ⟨other, s, shown⟩

end Env.Searched

namespace Resolve

variable {ℓ : Nat}

protected theorem pure_bind {α β : Type} {a : α} {f : α → Resolve β} : (pure a >>= f) = f a := rfl

section Search

variable {target start b : BindingId} {seen todo : List BindingId}

theorem stable_searched : Stable ℓ fun e => e.Searched target start seen todo := by
  intro e r e' runs h
  refine ⟨h.started, fun a ha => ?_⟩
  obtain ⟨other, s, shown, above⟩ := h.met a ha
  exact ⟨other, s, runs.extends.shows shown, above⟩

theorem walkFrom_triple {fuel : Nat} :
    Triple (ℓ + 1) (fun e => e.Searched target start seen todo)
      (walkFrom .lastFirst above (fun _ current =>
        return if current == target then .stop true else .inner false) fuel seen todo false)
      fun found e => found = false → e.Clear target start := by
  -- The invariant is what holds before each step; asking for the types above only adds to it.
  induction fuel generalizing seen todo with
  | zero =>
    cases todo with
    | nil => exact .pure fun _ h _ => h.clear
    | cons a todo => exact .throw rfl
  | succ fuel ih =>
    cases todo with
    | nil => exact .pure fun _ h _ => h.clear
    | cons a todo =>
      rw [walkFrom]
      by_cases known : a ∈ seen
      · rw [if_pos (List.contains_iff_mem.2 known)]
        exact ih.pre fun _ h => h.skip known
      · rw [if_neg (fun h => known (List.contains_iff_mem.1 h)), Resolve.pure_bind]
        by_cases same : a = target
        · rw [if_pos (beq_iff_eq.2 same)]
          exact .pure fun _ _ h => Bool.noConfusion h
        · rw [if_neg (fun h => same (beq_iff_eq.1 h))]
          refine .bind ((Triple.frame above_triple stable_searched).pre fun _ h => ⟨trivial, h⟩) fun next => ?_
          refine ih.pre ?_
          rintro e ⟨⟨s, shown, rfl⟩, h⟩
          exact h.visit same shown

theorem reaches_triple :
    Triple (ℓ + 1) (fun _ => True) (reaches start target)
      fun found e => found = false → e.Clear target start := by
  refine .bind Lawful.depth.triple fun fuel => .pre walkFrom_triple fun e _ => ?_
  exact ⟨.inr List.mem_cons_self, nofun⟩

end Search

section Edges

variable {b target : BindingId} {edge : SupertypeEdge} {candidate : Ty}

theorem stable_admits : Stable ℓ fun e => e.Admits b target :=
  fun _ _ _ runs h => h.stable runs.extends

theorem stable_keeps {t : Ty} : Stable ℓ fun e => e.Keeps b t :=
  fun _ _ _ runs h => h.stable runs.extends

theorem stable_options (options : Options) : Stable ℓ fun e => e.options = options := by
  intro e r e' runs h
  rw [runs.extends.options, h]

theorem wellKnown_triple {name : WellKnownNames → String} :
    Triple ℓ (fun _ => True) (wellKnown name) fun c e =>
      e.Denotes (name e.options.wellKnown) c ∨ e.StandsFor (name e.options.wellKnown) c := by
  refine .get_bind fun e => ?_
  refine ((Triple.frame findTypeOrProblem_triple (stable_options e.options)).pre ?_).post ?_
  · rintro _ ⟨rfl, -⟩
    exact ⟨trivial, rfl⟩
  · rintro c e' ⟨h, same⟩
    rwa [same]

theorem objectType_triple : Triple ℓ (fun _ => True) objectType fun t e => e.Keeps b t := by
  refine .bind wellKnown_triple fun c => .pure ?_
  rintro e (denotes | stands)
  · exact ⟨c, rfl, .root denotes⟩
  · exact ⟨c, rfl, .rootProblem stands⟩

theorem replacementEdge_triple :
    Triple ℓ (fun _ => True) (replacementEdge b edge) fun kept e => ∀ t ∈ kept, e.Keeps b t := by
  refine Lawful.get.before fun e => .ite (.pure fun _ _ _ => nofun) ?_
  refine .bind (objectType_triple (b := b)) fun t => .pure ?_
  rintro e h _ ⟨⟩
  exact h

theorem kept_triple (named : Env.bindingOf? candidate = some target) :
    Triple ℓ (fun e => e.Admits b target) (pure (some candidate))
      fun kept e => ∀ t ∈ kept, e.Keeps b t := by
  refine .pure ?_
  rintro e admits _ ⟨⟩
  exact ⟨target, named, admits⟩

theorem checkDeclaredEdge_triple (named : Env.bindingOf? candidate = some target) :
    Triple ℓ (fun e => e.Admits b target) (checkDeclaredEdge b candidate target edge)
      fun kept e => ∀ t ∈ kept, e.Keeps b t := by
  refine Lawful.get.keeping stable_admits fun e => ?_
  extract_lets x above shown keep
  have kept : ∀ r, Triple ℓ (fun e => e.Admits b target) (keep r)
      fun kept e => ∀ t ∈ kept, e.Keeps b t := fun _ => kept_triple named
  cases edge with
  | superclass =>
    refine .ite (Lawful.before lawful_reportFor fun _ => replacementEdge_triple) ?_
    exact .ite (Lawful.keeping lawful_reportFor stable_admits kept) (kept ())
  | interface =>
    refine .ite (kept_triple named) ?_
    exact Lawful.before lawful_reportFor fun _ => .pure fun _ _ _ => nofun

theorem lawful_markProblems : Lawful ℓ (markProblems b) :=
  .same (fun _ => Env.same_markProblems) fun _ => rfl

theorem checkEdge_triple :
    Triple (ℓ + 1) (fun _ => True) (checkEdge b edge candidate)
      fun kept e => ∀ t ∈ kept, e.Keeps b t := by
  refine .get_bind fun e => ?_
  extract_lets x replace
  have replaced : ∀ r, Triple (ℓ + 1) (fun _ => True) (replace r) fun kept e => ∀ t ∈ kept, e.Keeps b t :=
    fun _ => replacementEdge_triple
  split
  · exact .ite (Lawful.before lawful_reportFor replaced) (replaced ()).any
  · rename_i target named
    by_cases problem : (e.binding target).isProblem = true
    · rw [if_pos problem]
      refine ((Lawful.keeping lawful_markProblems stable_admits) fun _ => kept_triple named).pre ?_
      rintro _ ⟨rfl, -⟩
      exact .problem problem
    · rw [if_neg problem]
      extract_lets declare settle
      have declared : ∀ r, Triple (ℓ + 1) (fun e => e.Admits b target) (declare r)
          fun kept e => ∀ t ∈ kept, e.Keeps b t := fun _ =>
        .ite (checkDeclaredEdge_triple named) (kept_triple named)
      -- A cycle is replaced; without one, nothing above the target is the type itself.
      have settled : ∀ isCycle, Triple (ℓ + 1) (fun e => isCycle = false → e.Clear b target) (settle isCycle)
          fun kept e => ∀ t ∈ kept, e.Keeps b t := by
        intro isCycle
        cases isCycle with
        | true =>
          exact Lawful.get.before fun _ => Lawful.before lawful_reportFor fun _ => replacementEdge_triple
        | false =>
          refine Triple.pre (P := fun e => e.Admits b target) ?_ fun _ h => .clear (h rfl)
          refine Lawful.get.keeping stable_admits fun _ => ?_
          refine .ite (Lawful.before lawful_reportFor fun _ => replacementEdge_triple) ?_
          exact .ite (Lawful.keeping lawful_markProblems stable_admits declared) (declared ())
      refine .ite ?_ (.bind (.any reaches_triple) settled)
      exact .bind (.pure fun _ _ => nofun) settled

end Edges

section Supertypes

variable {b : BindingId}

theorem lawful_defaultSuperclass : Lawful ℓ (defaultSuperclass b) := by
  refine .bind .get fun e => .ite .pure (.ite ?_ ?_)
  · exact .bind lawful_wellKnownType fun _ => .pure
  · exact .bind lawful_objectType fun _ => .pure

theorem lawful_declaredSupertypes {decl : TypeDecl} {unit : UnitId} :
    Lawful (ℓ + 1) (declaredSupertypes b decl unit) := by
  refine .bind .get fun e => ?_
  extract_lets site written finish
  have finished : ∀ superclass, Lawful (ℓ + 1) (finish superclass) := fun _ =>
    .bind lawful_typesOfSpecs fun _ => .pure
  clear_value written
  cases written with
  | some spec => exact (lawful_typeOfSpec _).map.bind finished
  | none => exact .bind lawful_defaultSuperclass finished

theorem lawful_bareTypeNamed {name : String} : Lawful ℓ (bareTypeNamed name) :=
  .bind lawful_findTypeOrProblem fun _ => .bind .get fun _ => .pure

theorem lawful_namedSupertypes {d : Descriptor} : Lawful ℓ (namedSupertypes d) := by
  unfold namedSupertypes
  extract_lets finish
  have finished : ∀ superclass, Lawful ℓ (finish superclass) := fun _ =>
    .bind (.mapM fun _ => lawful_bareTypeNamed) fun _ => .pure
  split
  · exact .bind (.map lawful_bareTypeNamed) finished
  · exact .bind .pure finished

theorem lawful_compiledSupertypes {d : Descriptor} : Lawful (ℓ + 1) (compiledSupertypes b d) := by
  unfold compiledSupertypes
  split
  · exact lawful_namedSupertypes
  · exact .bind lawful_reportFor fun _ => lawful_namedSupertypes
  · extract_lets scope finish
    have finished : ∀ superclass, Lawful (ℓ + 1) (finish superclass) := fun _ =>
      .bind (.mapM fun _ => lawful_typeOfClass) fun _ => .pure
    exact .ite (.bind (.map lawful_typeOfClass) finished) (.bind .pure finished)

theorem stable_forall_keeps {p : Ty → Prop} : Stable ℓ fun e => ∀ t, p t → e.Keeps b t :=
  fun _ _ _ runs h t ht => stable_keeps runs (h t ht)

theorem keepInterface_triple {kept : List Ty} {candidate : Ty} :
    Triple (ℓ + 1) (fun e => ∀ t ∈ kept, e.Keeps b t) (keepInterface b kept candidate)
      fun kept e => ∀ t ∈ kept, e.Keeps b t := by
  refine .bind ((Triple.frame checkEdge_triple stable_forall_keeps).pre fun _ h => ⟨trivial, h⟩)
    fun added => ?_
  cases added with
  | none => exact .pure fun _ h => h.2
  | some t =>
    refine .pure fun e h => ?_
    split
    · exact h.2
    · rintro u hu
      rcases List.mem_append.1 hu with hu | hu
      · exact h.2 u hu
      · exact h.1 u (by simpa [eq_comm] using hu)

theorem keepInterfaces_triple {ts kept : List Ty} :
    Triple (ℓ + 1) (fun e => ∀ t ∈ kept, e.Keeps b t) (ts.foldlM (keepInterface b) kept)
      fun kept e => ∀ t ∈ kept, e.Keeps b t := by
  induction ts generalizing kept with
  | nil => exact .pure fun _ h => h
  | cons t ts ih => exact .bind keepInterface_triple fun _ => ih

theorem checkedSupertypes_triple :
    Triple (ℓ + 1) (fun _ => True) (checkedSupertypes b) fun s e => ∀ t ∈ s.all, e.Keeps b t := by
  refine Lawful.get.before fun e => ?_
  extract_lets check
  have checked : ∀ written, Triple (ℓ + 1) (fun _ => True) (check written)
      fun s e => ∀ t ∈ s.all, e.Keeps b t := by
    intro written
    dsimp -zeta only [check]
    extract_lets finish
    have finished : ∀ superclass, Triple (ℓ + 1) (fun e => ∀ t ∈ superclass, e.Keeps b t)
        (finish superclass) fun s e => ∀ t ∈ s.all, e.Keeps b t := by
      intro superclass
      refine .bind ((Triple.frame keepInterfaces_triple stable_forall_keeps).pre fun _ h => ⟨by simp, h⟩)
        fun interfaces => .pure ?_
      rintro e ⟨hInterfaces, hSuperclass⟩ t ht
      rcases List.mem_append.1 ht with ht | ht
      · exact hSuperclass t (Option.mem_toList.1 ht)
      · exact hInterfaces t ht
    split
    · exact .bind checkEdge_triple finished
    · exact .bind (.pure fun _ _ => by simp) finished
  split
  · exact Lawful.before lawful_declaredSupertypes checked
  · exact Lawful.before lawful_compiledSupertypes checked
  · exact Lawful.pure.before checked

theorem supertypes_triple :
    Triple (ℓ + 1) (fun _ => True) (supertypes b) fun s e => e.Shows b s := by
  refine .bind known_triple fun x => ?_
  have stable (s : Supertypes) : Stable (ℓ + 1) fun e => e.Shows b s :=
    fun _ _ _ runs h => runs.extends.shows h
  split
  · next resolved =>
    refine .pure ?_
    rintro e ⟨-, rfl⟩
    exact .resolved resolved
  · next begun =>
    refine .pure ?_
    rintro e ⟨-, rfl⟩
    exact .inProgress begun
  · next fresh =>
    refine (Triple.begin (p := .supertypes b) (by simp) fun _ => ?_).pre ?_
    · refine .bind checkedSupertypes_triple fun s => .finish (fun _ h => h) (fun _ _ => trivial) ?_
      refine .pre (P := fun e => e.Shows b s) ?_ fun _ => .resolved
      refine Lawful.get.keeping (stable s) fun _ => ?_
      refine .ite (Lawful.keeping lawful_reportFor (stable s) fun _ => ?_) ?_
      · exact .pure fun _ h => h
      · exact .pure fun _ h => h
    · rintro e ⟨inside, rfl⟩
      exact ⟨inside, fresh⟩

end Supertypes

end Resolve

end TeamRoles
