import TeamRoles.Proofs.Lawful.Members
import TeamRoles.Proofs.Lookup.Plain
import TeamRoles.Roles.Anchor

/-!
Fields are resolved lawfully, the copies among them that roles have of the fields of their tsuper roles, and so are
the anchors of their types.
-/

namespace TeamRoles.Resolve

variable {ℓ : Nat}

section Searches

variable {b a : BindingId} {simple : String} {found : Option BindingId} {seen todo : List BindingId}

def memberAt (simple : String) (_ : Option BindingId) (current : BindingId) : Resolve (Visit (Option BindingId)) := do
  let members ← memberTypes current
  let e ← get
  match members.find? fun m => (e.binding m).simpleName == simple with
  | some found => return .stop (some found)
  | none => return .inner none

theorem memberAt_triple : Triple (ℓ + 1) Env.Ranged (memberAt simple found a) fun v e => match v with
    | .stop found => ∃ c, found = some c ∧ e.FirstNamed a simple (some c)
    | .leaf _ => False
    | .inner found => found = none ∧ e.Ranged ∧ e.FirstNamed a simple none := by
  refine .framed_bind memberTypes_triple stable_ranged (fun _ _ => trivial) fun members => .get_bind fun e => ?_
  split
  · next c isFound =>
    refine .pure ?_
    rintro _ ⟨rfl, known, -⟩
    exact ⟨c, rfl, members, known, isFound⟩
  · next none =>
    refine .pure ?_
    rintro _ ⟨rfl, known, ranged⟩
    exact ⟨rfl, ranged, members, known, none⟩

theorem stable_firstNamed : Stable ℓ fun e => e.Ranged ∧ e.FirstNamed a simple found :=
  fun _ _ _ run h => ⟨run.ranged h.1, h.2.of_resembles h.1 run.lasts.resembles⟩

theorem findFrom_triple {fuel : Nat} :
    Triple (ℓ + 1) Env.Ranged (walkFrom .depthFirst above (memberAt simple) fuel seen todo none)
      fun found e => ∀ c ∈ found, e.SearchFinds simple seen todo c := by
  -- `SearchFinds` follows the walk step by step, with the same two lists.
  induction fuel generalizing seen todo with
  | zero =>
    cases todo with
    | nil => exact .pure fun _ _ => nofun
    | cons a todo => exact .throw rfl
  | succ fuel ih =>
    cases todo with
    | nil => exact .pure fun _ _ => nofun
    | cons a todo =>
      rw [walkFrom]
      split
      · next old => exact ih.post fun _ _ h c hc => .passed (by simpa using old) (h c hc)
      · next new =>
        have new : a ∉ seen := by simpa using new
        refine .bind memberAt_triple fun v => ?_
        cases v with
        | stop found =>
          refine .pure ?_
          rintro e ⟨c, rfl, first⟩ _ ⟨⟩
          exact .here new first
        | leaf found => exact fun _ _ _ h => False.elim h
        | inner found =>
          refine .assume ?_
          rintro rfl
          refine .framed_bind above_triple stable_firstNamed (fun _ _ => trivial) fun next => ?_
          rintro o ho e ⟨⟨s, shown, rfl⟩, ranged, first⟩
          obtain ⟨run, finds⟩ := ih o ho e ranged
          refine ⟨run, fun found answered c hc => ?_⟩
          have like := run.lasts.resembles
          exact .above new (first.of_resembles ranged like) (like.shows _ _ shown) (finds found answered c hc)

theorem findMemberType_triple : Triple (ℓ + 1) Env.Ranged (findMemberType b simple)
    fun found e => ∀ c ∈ found, e.SearchFinds simple [] [b] c :=
  Lawful.depth.keeping stable_ranged fun _ => findFrom_triple

end Searches

section Fields

variable {b role team : BindingId} {unit : UnitId} {fields list : List FieldId} {x : Field} {P : Env → Prop}

def OwnFields (fields : List FieldId) (e : Env) : Prop := ∀ f ∈ fields, e.OwnField f

theorem stable_ownField {f : FieldId} : Stable ℓ fun e => e.OwnField f :=
  fun _ _ _ run own => own.of_last run.fields.toFieldsLast

theorem stable_ownFields : Stable ℓ (OwnFields fields) := fun _ _ _ run own f hf => stable_ownField run (own f hf)

theorem addOwnField_triple (fields : List FieldId) (origin : x.origin.isParameterized = false)
    (anchors : ∀ e, P e → e.Ranged → e.Anchored → e.Anchors x) :
    Triple (ℓ + 4) (fun e => P e ∧ OwnFields fields e) (addField x) fun f => OwnFields (fields ++ [f]) := by
  intro o _ e ⟨known, own⟩
  have run : Proceeds (ℓ + 4) e none (e.addField x) := .addField (Nat.le_add_left 4 ℓ) (anchors e known)
  refine ⟨run, ?_⟩
  rintro _ ⟨⟩
  have added := Env.ownField_addField (e := e) origin
  exact List.forall_mem_append.2 ⟨stable_ownFields run own, List.forall_mem_singleton.2 added⟩

theorem declareField_triple {decl : FieldDecl} :
    Triple (ℓ + 4) (OwnFields fields) (declareField b unit fields decl) OwnFields := by
  refine .get_bind fun e => .pre (.ite ?_ ?_) fun _ h => h.2
  · exact lawful_reportInUnit.keeping stable_ownFields fun _ => .pure fun _ h => h
  · refine .framed_bind ((plain_typeOfSpec _).triple (lawful_typeOfSpec _)) stable_ownFields (fun _ h => h) fun type =>
      .assume fun plain => ?_
    refine .bind (.pre (addOwnField_triple (P := fun _ => True) fields rfl ?_) fun _ h => ⟨trivial, h⟩)
      fun f => .pure fun _ h => h
    exact fun _ _ _ _ => Env.anchors_of_plain plain

theorem plain_compiledFieldType {d : Descriptor} {m : Descriptor.Member} :
    Yields Ty.IsPlain (compiledFieldType b d m) := by
  unfold compiledFieldType
  split
  · exact plain_typeOfSig _
  · exact .after fun _ => plain_problemType

theorem lawful_compiledFieldType {d : Descriptor} {m : Descriptor.Member} :
    Lawful (ℓ + 1) (compiledFieldType b d m) := by
  unfold compiledFieldType
  split
  · exact lawful_typeOfSig _
  · exact .bind lawful_reportFor fun _ => lawful_problemType

theorem compiledField_triple {d : Descriptor} {m : Descriptor.Member} :
    Triple (ℓ + 4) (fun _ => True) (compiledField b d m) fun found e => ∀ f ∈ found, e.OwnField f := by
  refine .get_bind fun e => .ite ?_ (.pure fun _ _ => nofun)
  refine .bind (plain_compiledFieldType.triple lawful_compiledFieldType) fun type => .get_bind fun e => ?_
  refine .pre (.assume (c := type.IsPlain) (P := fun _ => True) fun plain => ?_) fun _ h => ⟨h.2, trivial⟩
  refine .bind (.pre (addOwnField_triple (P := fun _ => True) [] rfl ?_) fun _ _ => ⟨trivial, nofun⟩)
    fun f => .pure ?_
  · exact fun _ _ _ _ => Env.anchors_of_plain plain
  · rintro e own _ ⟨⟩
    exact own f List.mem_cons_self

end Fields

section Copies

variable {b role team tsuper : BindingId} {t : Ty} {inherited : FieldId} {fields list : List FieldId}

/-- If the type seen from the team is anchored, so is the type, and the role is the one that stands for its role. -/
def Rebound (t : Ty) (team : BindingId) (t' : Ty) (e : Env) : Prop :=
  ∀ role' path, t' = .anchored role' path → ∃ role, t = .anchored role path ∧
    ∀ r, role = .declared r → ∃ c, role' = .declared c ∧ e.Rebinds r team c

theorem rebindType_triple (team : BindingId) (t : Ty) :
    Triple (ℓ + 1) (fun _ => True) (rebindType team t) fun t' => Rebound t team t' := by
  cases t with
  | declared b => exact lawful_rebindRole.before fun _ => .pure fun _ _ => nofun
  | array component => exact (lawful_rebindType _).before fun _ => .pure fun _ _ => nofun
  | anchored role path =>
    have inner : Triple (ℓ + 1) (fun _ => True) (rebindType team role)
        fun role' e => ∀ r, role = .declared r → ∃ c, role' = .declared c ∧ e.Rebinds r team c := by
      cases role with
      | declared r =>
        refine .bind rebindRole_triple fun c => .pure ?_
        rintro e stands _ ⟨⟩
        exact ⟨c, rfl, stands⟩
      | _ => exact (lawful_rebindType _).under.post fun _ _ _ => nofun
    refine .bind inner fun role' => .pure ?_
    rintro e stands _ _ ⟨⟩
    exact ⟨role, rfl, stands⟩
  | _ => exact .pure fun _ _ => nofun

theorem anchors_copy {e : Env} (anchored : e.Anchored) (own : e.OwnField inherited)
    (teamOf : e.teamOf? role = some team) (rebound : Rebound (e.field inherited).type team t e) :
    e.Anchors { e.field inherited with
      declaring := role, type := t, origin := .copied, copySource := some inherited } := by
  rintro - role' path rfl
  obtain ⟨_, anchoredType, rebinds⟩ := rebound role' path rfl
  obtain ⟨rests, anchorTeam, r, rfl, leads, appointed⟩ := anchored.types inherited own.origin _ path anchoredType
  obtain ⟨c, rfl, stands⟩ := rebinds r rfl
  exact ⟨rests, anchorTeam, c, rfl, leads, .copied rfl rfl rests anchoredType appointed teamOf stands⟩

structure CopiesFrom (role team tsuper : BindingId) (list : List FieldId) (e : Env) : Prop where
  teamOf : e.teamOf? role = some team
  known : e.slot (.fields tsuper) = .resolved list

theorem stable_copiesFrom : Stable ℓ (CopiesFrom role team tsuper list) :=
  fun _ _ _ run h => ⟨stable_teamOf? run h.teamOf, stable_slot run h.known⟩

theorem copyField_triple (listed : inherited ∈ list) :
    Triple (ℓ + 4) (fun e => CopiesFrom role team tsuper list e ∧ OwnFields fields e)
      (copyField role team fields inherited)
      fun fields e => CopiesFrom role team tsuper list e ∧ OwnFields fields e := by
  refine .get_bind fun e => .ite (.pure fun _ h => h.2) ?_
  let Known (e' : Env) : Prop := e'.field inherited = e.field inherited ∧ CopiesFrom role team tsuper list e'
  -- Types are rebound below the level that fields are resolved at.
  have stable : Stable 1 fun e' => Known e' ∧ OwnFields fields e' := by
    rintro _ _ _ run ⟨⟨same, copies⟩, own⟩
    refine ⟨⟨?_, stable_copiesFrom run copies⟩, stable_ownFields run own⟩
    rw [Env.field_eq_of_fields (run.fields.low (by decide)), same]
  have rebound := (rebindType_triple (ℓ := 0) team (e.field inherited).type).framed stable fun _ _ => trivial
  refine .bind (.pre (rebound.mono (Nat.le_add_left 1 (ℓ + 3))) ?_) fun t => ?_
  · rintro _ ⟨rfl, copies, own⟩
    exact ⟨⟨rfl, copies⟩, own⟩
  · have add := addOwnField_triple (ℓ := ℓ) (P := fun e' => Known e' ∧ Rebound (e.field inherited).type team t e')
      (x := { e.field inherited with declaring := role, type := t, origin := .copied, copySource := some inherited })
      fields rfl fun e' ⟨⟨same, copies⟩, rebound⟩ _ anchored => by
        rw [← same] at rebound ⊢
        exact anchors_copy anchored (anchored.listed tsuper list copies.known inherited listed) copies.teamOf rebound
    refine .bind (.pre (add.frame stable_copiesFrom) ?_) fun _ => .pure fun _ h => h.symm
    rintro e' ⟨rebound, known, own⟩
    exact ⟨⟨⟨known, rebound⟩, own⟩, known.2⟩

theorem copyFields_triple : Triple (ℓ + 4) (OwnFields fields) (copyFields role fields) OwnFields := by
  refine .framed_bind teamOf_triple stable_ownFields (fun _ _ => trivial) fun team => ?_
  have stable (fields : List FieldId) : Stable (ℓ + 4) fun e => e.teamOf? role = some team ∧ OwnFields fields e :=
    fun _ _ _ run h => ⟨stable_teamOf? run h.1, stable_ownFields run h.2⟩
  refine lawful_tsuperRoles.keeping (stable fields) fun tsupers => .post
    (.foldlM_keeping (I := fun fields e => e.teamOf? role = some team ∧ OwnFields fields e) fun tsuper _ fields => ?_)
    fun _ _ h => h.2
  refine .framed_bind (.ask (.fields tsuper) (by simp)) (stable fields) (fun _ _ => trivial) fun list => ?_
  have copied : Triple (ℓ + 4) (fun e => CopiesFrom role team tsuper list e ∧ OwnFields fields e)
      (list.foldlM (copyField role team) fields)
      fun fields e => CopiesFrom role team tsuper list e ∧ OwnFields fields e :=
    .foldlM_keeping fun _ listed _ => copyField_triple listed
  exact (copied.pre fun _ h => ⟨⟨h.2.1, h.1⟩, h.2.2⟩).post fun _ _ h => ⟨h.1.teamOf, h.2⟩

theorem fields_triple : Triple (ℓ + 4) (fun _ => True) (Resolve.fields b)
    fun list e => e.slot (.fields b) = .resolved list := by
  refine .bind known_triple fun x => ?_
  extract_lets finish complete
  have finished {start : Env} (list : List FieldId) : Latched start (ℓ + 4) (.fields b) (OwnFields list) (finish list)
      fun list e => e.slot (.fields b) = .resolved list := by
    refine .finish (fun _ _ => trivial) (fun _ own => own) ?_
    exact (Lawful.forM fun _ => (Lawful.ask _ (by simp)).discard).keeping stable_slot fun _ => .pure fun _ h => h
  have completed {start : Env} (own : List FieldId) : Latched start (ℓ + 4) (.fields b) (OwnFields own) (complete own)
      fun list e => e.slot (.fields b) = .resolved list :=
    .ite (.bind copyFields_triple finished) (.bind (.pure fun _ h => h) finished)
  split
  · next resolved =>
    refine .pure ?_
    rintro e ⟨-, rfl⟩
    exact resolved
  · next begun =>
    refine (reentrant_triple (p := .fields b) rfl (by simp)).pre ?_
    rintro e ⟨-, rfl⟩
    exact begun
  · next fresh =>
    refine (Triple.begin (p := .fields b) (by simp) fun _ => ?_).pre ?_
    · split
      · exact .bind (.pre (.foldlM_keeping fun _ _ _ => declareField_triple) fun _ _ => nofun) completed
      · exact .bind (.filterMapM (fun _ => compiledField_triple) fun _ => stable_ownField) completed
      · exact .bind (.pure fun _ _ => nofun) completed
    · rintro e ⟨inside, rfl⟩
      exact ⟨inside, fresh⟩

end Copies

section Anchors

variable {f : FieldId} {t : Ty} {r : Ty × List FieldId} {team : BindingId}

theorem lawful_findFieldInScope {b : BindingId} {name : String} :
    Lawful (ℓ + 4) (findFieldInScope b name) :=
  .bind .get fun _ => .findSomeM? fun _ => lawful_findField

theorem stable_isStandIn : Stable ℓ fun e => e.IsStandIn t :=
  fun _ _ _ run ⟨name, b, same, stands⟩ => ⟨name, b, same, stands.stable run.runs.extends⟩

/-- The fields are final, and the last one has the type, unless that is a stand-in. -/
def Reached (r : Ty × List FieldId) (e : Env) : Prop :=
  (∀ g ∈ r.2, (e.field g).isFinal = true) ∧ ∃ last, r.2.getLast? = some last ∧ (Query.fieldType last).Holds r.1 e

theorem stable_reached : Stable ℓ (Reached r) := by
  rintro e _ e' run ⟨final, last, ends, holds⟩
  refine ⟨fun g hg => run.fields.isFinal (final g hg), last, ends, ?_⟩
  refine holds.imp (stable_isStandIn run) fun rests => ?_
  have inside := Env.lt_size_of_isFinal (final last (List.mem_of_getLast? ends))
  rwa [run.fields.settled last inside rests.1]

theorem followPath_triple {path : String} {reached : Option (Ty × List FieldId)} {names : List String} :
    Triple (ℓ + 4) (fun e => ∀ r ∈ reached, Reached r e) (followPath f path reached names)
      fun found e => ∀ r ∈ found, Reached r e := by
  -- The fields that have been passed are final; the last of them has the type that is followed next.
  induction names generalizing reached with
  | nil => exact .pure fun _ h => h
  | cons name names ih =>
    refine .get_bind fun e => ?_
    extract_lets field before follow
    have kept : Stable (ℓ + 4) fun e => ∀ r ∈ reached, Reached r e :=
      fun _ _ _ run h r hr => stable_reached run (h r hr)
    have followed (found : Option FieldId) :
        Triple (ℓ + 4) (fun e => ∀ r ∈ reached, Reached r e) (follow found)
          fun found e => ∀ r ∈ found, Reached r e := by
      dsimp only [follow]
      split
      · exact lawful_reportFor.before fun _ => .pure fun _ _ => nofun
      · next next _ =>
        refine .get_bind fun e => ?_
        split
        · next final =>
          have stable : Stable (ℓ + 4) fun e => (e.field next).isFinal = true ∧ ∀ r ∈ reached, Reached r e :=
            fun _ _ _ run h => ⟨run.fields.isFinal h.1, kept run h.2⟩
          refine .pre (.framed_bind (.ask (.fieldType next) (by simp)) stable (fun _ _ => trivial) fun t => ?_) ?_
          · refine ih.pre ?_
            rintro e ⟨holds, final, h⟩ _ ⟨⟩
            refine ⟨List.forall_mem_append.2 ⟨?_, List.forall_mem_singleton.2 final⟩, next, by simp, holds⟩
            cases reached with
            | none => exact List.forall_mem_nil _
            | some r => exact (h r rfl).1
          · rintro _ ⟨rfl, h⟩
            exact ⟨final, h⟩
        · exact lawful_reportFor.before fun _ => .pure fun _ _ => nofun
    refine Triple.pre ?_ fun _ h => h.2
    split
    · exact lawful_findFieldInScope.keeping kept followed
    · split
      · exact lawful_findField.keeping kept followed
      · exact Lawful.pure.keeping kept followed

theorem stable_leadsTo {path : List FieldId} : Stable ℓ fun e => e.LeadsTo path team :=
  fun _ _ _ run leads => leads.of_resembles run.lasts.resembles run.fields.toFieldsLast

theorem locates_of_isPlain {e : Env} (plain : t.IsPlain) : e.Locates t := by
  rintro role path rfl
  exact (Ty.not_isPlain_anchored plain).elim

theorem problemType_locates {name : String} {reason : ProblemReason} {P : Env → Prop} :
    Triple ℓ P (problemType name reason) fun t e => e.Locates t :=
  (plain_problemType.triple lawful_problemType).post fun _ _ => locates_of_isPlain

theorem roleAtAnchor_triple {path role : String} {fields : List FieldId} :
    Triple (ℓ + 1) (fun e => e.Ranged ∧ Reached (t, fields) e ∧ ¬e.IsStandIn t) (roleAtAnchor f path role t fields)
      fun t e => e.Locates t := by
  refine .get_bind fun e => ?_
  extract_lets field
  split
  · exact lawful_reportFor.before fun _ => problemType_locates
  · next team isTeam =>
    obtain ⟨named, isTeam⟩ := Option.filter_eq_some_iff.1 isTeam
    have stable : Stable (ℓ + 1) fun e => e.LeadsTo fields team ∧ e.Ranged :=
      fun _ _ _ run h => ⟨stable_leadsTo run h.1, run.ranged h.2⟩
    refine .pre (.framed_bind findMemberType_triple stable (fun _ h => h.2) fun found => .get_bind fun e => ?_) ?_
    · split
      · next b isFound =>
        refine .pure ?_
        rintro _ ⟨rfl, finds, leads, -⟩ _ _ ⟨⟩
        have found := finds b (Option.filter_eq_some_iff.1 isFound).1
        exact ⟨team, b, rfl, leads, by rwa [found.simpleName_eq]⟩
      · exact lawful_reportFor.before fun _ => problemType_locates
    · rintro _ ⟨rfl, ranged, ⟨final, last, ends, holds⟩, proper⟩
      obtain ⟨rests, same⟩ := holds.resolve_left proper
      exact ⟨⟨final, ⟨last, ends, rests, same ▸ named⟩, isTeam⟩, ranged⟩

theorem stable_anchored : Stable ℓ fun e => e.Ranged ∧ e.Anchored :=
  fun _ _ _ run h => ⟨run.ranged h.1, run.anchored h.1 h.2⟩

theorem not_isStandIn {e : Env} (anchored : e.Anchored) (proper : e.isProblemType t = false) : ¬e.IsStandIn t := by
  rintro ⟨name, b, rfl, reason, entry⟩
  cases proper.symm.trans (anchored.standIns _ entry)

theorem resolveAnchor_triple {anchor : PendingAnchor} :
    Triple (ℓ + 4) (fun e => e.Ranged ∧ e.Anchored) (resolveAnchor f anchor) fun t e => e.Locates t := by
  refine .framed_bind followPath_triple stable_anchored (fun _ _ _ => nofun) fun reached => ?_
  cases reached with
  | none => exact problemType_locates
  | some reached =>
    refine .get_bind fun e => ?_
    split
    · exact problemType_locates
    · next proper =>
      refine (roleAtAnchor_triple (ℓ := ℓ + 3)).pre ?_
      rintro _ ⟨rfl, known, ranged, anchored⟩
      exact ⟨ranged, known reached rfl, not_isStandIn anchored (by simpa using proper)⟩

theorem lawful_roleAtAnchor {path role : String} {fields : List FieldId} :
    Lawful (ℓ + 1) (roleAtAnchor f path role t fields) := by
  refine .bind .get fun e => ?_
  extract_lets field
  split
  · exact .bind lawful_reportFor fun _ => lawful_problemType
  · refine .bind lawful_findMemberType fun _ => .bind .get fun _ => ?_
    split
    · exact .pure
    · exact .bind lawful_reportFor fun _ => lawful_problemType

theorem lawful_resolveAnchor {anchor : PendingAnchor} : Lawful (ℓ + 4) (resolveAnchor f anchor) := by
  refine .bind (Triple.lawful (followPath_triple.pre fun _ _ _ => nofun)) fun reached => ?_
  cases reached with
  | none => exact lawful_problemType
  | some reached => exact .bind .get fun _ => .ite lawful_problemType lawful_roleAtAnchor

theorem marked_apply {x : Resolve Ty} {g : Ty → Resolve Ty} {o : Oracle} {e : Env} :
    (do modify (·.beginAnchor f)
        let outcome ← attempt x
        modify (·.endAnchor f)
        match outcome with
        | .error abort => throw abort
        | .ok t => g t : Resolve Ty) o e =
      match x o (e.beginAnchor f) with
      | (.error cause, d) => (.error cause, d.endAnchor f)
      | (.ok t, d) => g t o (d.endAnchor f) := by
  have marked : (modify (·.beginAnchor f) : Resolve PUnit) o e = (.ok ⟨⟩, e.beginAnchor f) := rfl
  have cleared (d : Env) : (modify (·.endAnchor f) : Resolve PUnit) o d = (.ok ⟨⟩, d.endAnchor f) := rfl
  rw [bind_apply_ok marked]
  rcases outcome : x o (e.beginAnchor f) with ⟨result, d⟩
  have tried : attempt x o (e.beginAnchor f) = (.ok result, d) := by rw [attempt, outcome]
  rw [bind_apply_ok tried, bind_apply_ok (cleared d)]
  cases result <;> rfl

theorem settle_triple {x : Resolve Ty} {e : Env} (lawful : Lawful (ℓ + 4) x)
    (locates : Triple (ℓ + 4) (fun e => e.Ranged ∧ e.Anchored) x fun t e => e.Locates t)
    (idle : f ∉ e.anchorsInProgress) (pending : (e.field f).pendingAnchor ≠ none) :
    Triple (ℓ + 4) (fun e' => e' = e)
      (do modify (·.beginAnchor f)
          let outcome ← attempt x
          modify (·.endAnchor f)
          match outcome with
          | .error abort => throw abort
          | .ok t =>
            updateField f (Field.settle t)
            return t)
      (Query.fieldType f).Holds := by
  rintro o ho e' rfl
  have inside : f.index < e'.fields.size := by
    refine Env.lt_size_of_field_ne fun outside => pending ?_
    rw [outside]
    rfl
  have begun : e'.Same (e'.beginAnchor f) := Env.same_of_kept rfl
  have ranged (h : e'.Ranged) : (e'.beginAnchor f).Ranged := (Step.quiet (ℓ := 0) begun).ranged h
  have run := lawful o ho (e'.beginAnchor f)
  have located (h : e'.Ranged) (anchored : e'.Anchored) :=
    (locates o ho (e'.beginAnchor f) ⟨ranged h, anchored.of_same h begun rfl⟩).2
  rw [marked_apply]
  rcases outcome : x o (e'.beginAnchor f) with ⟨cause | t, d⟩
  all_goals rw [outcome] at run
  · exact ⟨run.anchor idle, nofun⟩
  rw [outcome] at located
  have ended : d.Same (d.endAnchor f) := Env.same_of_kept rfl
  -- The field was marked all the time, so nothing has changed it on the way.
  have same : (d.endAnchor f).field f = e'.field f := run.fields.waiting f List.mem_cons_self inside
  have cleared : f ∉ (d.endAnchor f).anchorsInProgress := by simp [Env.endAnchor]
  refine ⟨(run.anchor idle).settle (Nat.le_add_left 4 ℓ) cleared (same ▸ pending) fun h anchored => ?_, ?_⟩
  · have located := located h anchored t rfl
    exact (located.of_resembles (run.ranged (ranged h)) ended.lasts.resembles (.of_fields rfl)).anchors
  · rintro _ ⟨⟩
    have settled : ((d.endAnchor f).updateField f (Field.settle t)).field f = ((d.endAnchor f).field f).settle t := by
      rw [Env.field_updateField, if_pos ⟨rfl, Nat.lt_of_lt_of_le inside run.fields.size⟩]
    exact .inr ⟨congrArg Field.pendingAnchor settled, congrArg Field.type settled⟩

theorem fieldType_triple : Triple (ℓ + 4) (fun _ => True) (fieldType f) (Query.fieldType f).Holds := by
  refine .get_bind fun e => ?_
  extract_lets field
  split
  · next none =>
    refine .pure ?_
    rintro _ ⟨rfl, -⟩
    exact .inr ⟨none, rfl⟩
  · next anchor pending =>
    split
    · exact (lawful_reportFor.before fun _ => problemType_triple).post fun _ _ => .inl
    · next idle =>
      refine (settle_triple lawful_resolveAnchor resolveAnchor_triple (by simpa using idle) ?_).pre fun _ h => h.1
      exact fun none => nomatch pending.symm.trans none

end Anchors

end TeamRoles.Resolve
