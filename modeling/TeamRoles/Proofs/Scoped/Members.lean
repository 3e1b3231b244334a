import TeamRoles.Proofs.Scoped.Variables
import TeamRoles.Roles.Anchor

/-!
Tsuper roles, fields and their anchors.
-/

namespace TeamRoles.Resolve

variable {e : Env}

theorem calm_superTeams {σ : Type} {start : List BindingId} {found : σ} {visit : σ → BindingId → Resolve σ}
    (h : ∀ s b, Calm (visit s b)) : Calm (superTeams start found visit) := by
  refine calm_walk (fun _ => .bind calm_superclassOf fun _ => .pure) _ _ fun s b => ?_
  exact .bind .get fun _ => .ite (.bind (h s b) fun _ => .pure) .pure

theorem calm_setTsuperRoles {role : BindingId} {slot : Slot (List BindingId)} : Calm (setTsuperRoles role slot) :=
  calm_updateBinding fun _ => ⟨fun _ => rfl, fun _ _ _ fits => { fits with }, fun _ _ => id⟩

theorem roleNamed_from {team : BindingId} {simple : String} :
    From e (roleNamed team simple) fun found d => ∀ b ∈ found, d.HasType b :=
  memberTypes_from.bind fun _ _ _ known => .get_bind fun _ hc => .pure fun _ hc' b found =>
    (hc.trans hc').hasType (known b (List.mem_of_find?_eq_some found))

theorem calm_tsuperRoles {role : BindingId} : Calm (tsuperRoles role) := by
  refine .bind .get fun e => ?_
  extract_lets x
  split
  · exact .pure
  · split
    · exact .pure
    · exact From.calm fun _ => reentrant_from (Q := fun _ _ => True)
    · refine .bind calm_setTsuperRoles fun _ => .bind calm_superclassOf fun above => ?_
      refine .bind (calm_superTeams fun _ _ => .bind calm_memberTypes fun _ => .bind .get fun _ => .pure) fun _ => ?_
      exact .bind calm_setTsuperRoles fun _ => .pure

theorem rebindRole_from {role team : BindingId} (inside : e.HasType role) :
    From e (rebindRole role team) fun b d => d.HasType b := by
  refine .get_bind fun d le => ?_
  have inside := le.hasType inside
  split
  · exact .pure fun _ hc => hc.hasType inside
  · refine .ite (fun _ => .pure fun _ hc => hc.hasType inside) fun _ => ?_
    refine roleNamed_from.bind fun found c hc known => .pure fun _ hc' => ?_
    cases found with
    | some b => exact hc'.hasType (known b rfl)
    | none => exact (hc.trans hc').hasType inside

theorem rebindType_from {team : BindingId} {t : Ty} (rooted : e.Rooted t) :
    From e (rebindType team t) fun t d => d.Rooted t := by
  fun_induction rebindType team t with
  | case1 b => exact (rebindRole_from rooted).bind fun _ _ _ inside => .pure fun _ hc => hc.hasType inside
  | case2 component ih => exact (ih rooted).bind fun _ _ _ rooted => .pure fun _ hc => hc.rooted rooted
  | case3 role path ih => exact (ih rooted).bind fun _ _ _ rooted => .pure fun _ hc => hc.rooted rooted
  | case4 t => exact .pure fun _ le => le.rooted rooted

theorem calm_rebindRole {role team : BindingId} : Calm (rebindRole role team) := by
  refine .bind .get fun e => ?_
  split
  · exact .pure
  · exact .ite .pure (.bind (From.calm fun _ => roleNamed_from) fun _ => .pure)

theorem calm_rebindType {team : BindingId} {t : Ty} : Calm (rebindType team t) := by
  fun_induction rebindType team t with
  | case1 b => exact .bind calm_rebindRole fun _ => .pure
  | case2 component ih => exact .bind ih fun _ => .pure
  | case3 role path ih => exact .bind ih fun _ => .pure
  | case4 t => exact .pure

theorem calm_teamOf {role : BindingId} : Calm (teamOf role) := by
  refine .bind .get fun _ => ?_
  split
  · exact .pure
  · exact .throw

theorem Site.fits_body {b : BindingId} {unit : UnitId} {span : Span} (inside : e.HasType b) :
    (Site.body b unit span).Fits e :=
  ⟨fun _ same => Option.mem_some.1 same ▸ inside, nofun⟩

theorem append_hasField {fields : List FieldId} {f : FieldId} (known : ∀ f ∈ fields, e.HasField f)
    (new : e.HasField f) : ∀ g ∈ fields ++ [f], e.HasField g :=
  List.forall_mem_append.2 ⟨known, List.forall_mem_singleton.2 new⟩

theorem lasting_fields (fields : List FieldId) : Lasting fun e => ∀ f ∈ fields, e.HasField f :=
  fun _ _ le known f hf => le.fields f (known f hf)

theorem declareField_from {b : BindingId} {unit : UnitId} {fields : List FieldId} {decl : FieldDecl}
    (inside : e.HasType b) (known : ∀ f ∈ fields, e.HasField f) :
    From e (declareField b unit fields decl) fun fields d => ∀ f ∈ fields, d.HasField f := by
  refine .get_bind fun d le => .ite (fun _ => ?_) fun _ => ?_
  · exact .after calm_reportInUnit fun _ _ hc => .pure fun _ hc' => lasting_fields fields (le.trans (hc.trans hc')) known
  · refine (typeOfSpec_from (Site.fits_body (le.hasType inside)) _).bind fun type c hc rooted => ?_
    refine (addField_from rooted).bind fun f c' hc' new => .pure fun _ last => ?_
    have le := le.trans (hc.trans (hc'.trans last))
    exact append_hasField (lasting_fields fields le known) (last.fields f new)

theorem compiledFieldType_from {b : BindingId} {d : Descriptor} {m : Descriptor.Member} :
    From e (compiledFieldType b d m) fun t d => d.Rooted t := by
  unfold compiledFieldType
  split
  · exact typeOfSig_from SignatureScope.fits_of_owner _
  · exact .after calm_reportFor fun _ _ _ => problemType_from

theorem compiledField_from {b : BindingId} {d : Descriptor} {m : Descriptor.Member} :
    From e (compiledField b d m) fun found d => ∀ f ∈ found, d.HasField f := by
  refine .get_bind fun c le => .ite (fun _ => ?_) fun _ => .pure fun _ _ => nofun
  refine compiledFieldType_from.bind fun type c _ rooted => .get_bind fun c' hc' => ?_
  refine (addField_from (hc'.rooted rooted)).bind fun f _ _ new => .pure fun _ last _ same => ?_
  cases same
  exact last.fields f new

theorem copyField_from {role team : BindingId} {fields : List FieldId} {inherited : FieldId}
    (known : ∀ f ∈ fields, e.HasField f) (source : e.HasField inherited) :
    From e (copyField role team fields inherited) fun fields d => ∀ f ∈ fields, d.HasField f := by
  refine .get_bind fun d le => .ite (fun _ => .pure fun _ hc => lasting_fields fields (le.trans hc) known) fun _ => ?_
  refine (rebindType_from (le.fields inherited source).type).bind fun type c hc rooted => ?_
  refine (addField_from rooted).bind fun f c' hc' new => .pure fun _ last => ?_
  have le := le.trans (hc.trans (hc'.trans last))
  exact append_hasField (lasting_fields fields le known) (last.fields f new)

theorem copyFields_from {role : BindingId} {fields : List FieldId} (known : ∀ f ∈ fields, e.HasField f) :
    From e (copyFields role fields) fun fields d => ∀ f ∈ fields, d.HasField f := by
  refine .after calm_teamOf fun team d le => .after calm_tsuperRoles fun roles c hc => ?_
  refine .foldlM (fun tsuper _ fields d _ known => ?_) lasting_fields (lasting_fields fields (le.trans hc) known)
  refine ask_fields.bind fun inherited c hc source => ?_
  refine .foldlM (fun f hf fields d hd known => copyField_from known ?_) lasting_fields (lasting_fields fields hc known)
  exact hd.fields f (source f hf)

theorem calm_fields {b : BindingId} : Calm (fields b) := by
  refine From.calm (Q := fun _ _ => True) fun e => known_from.bind fun x d _ ⟨inside, _⟩ => ?_
  split
  · exact Calm.pure d
  · exact reentrant_from
  · refine (updateBinding_from ?_).bind fun _ c hc _ => ?_
    · exact ⟨fun _ => rfl, fun _ _ _ fits => { fits with fields := nofun }, fun _ _ => id⟩
    have inside := hc.hasType inside
    extract_lets finish complete
    have finished (list : List FieldId) (e : Env) (known : ∀ f ∈ list, e.HasField f) :
        From e (finish list) fun _ _ => True := by
      refine (updateBinding_from ?_).bind fun _ d _ _ => ?_
      · refine ⟨fun _ => rfl, fun d x le fits => { fits with fields := ?_ }, fun _ _ => id⟩
        rintro _ ⟨⟩
        exact lasting_fields list le known
      · exact Calm.bind (.forM fun _ => .discard (.ask _)) (fun _ => .pure) d
    have completed (own : List FieldId) (e : Env) (known : ∀ f ∈ own, e.HasField f) :
        From e (complete own) fun _ _ => True := by
      refine .ite (fun _ => (copyFields_from known).bind fun list d _ known => finished list d known) fun _ => ?_
      exact .pure_bind (finished own e known)
    split
    · refine From.bind (.foldlM (I := fun list d => ∀ f ∈ list, d.HasField f) ?_ lasting_fields nofun)
        fun own d _ => completed own d
      exact fun _ _ _ _ hd known => declareField_from (hd.hasType inside) known
    · exact (From.filterMapM (fun _ _ => compiledField_from) lasting_hasField).bind fun own d _ => completed own d
    · exact .pure_bind (completed [] c nofun)

theorem calm_findFieldInScope {b : BindingId} {name : String} : Calm (findFieldInScope b name) :=
  .bind .get fun _ => .findSomeM? fun _ => calm_findField

theorem calm_followPath {f : FieldId} {path : String} {reached : Option (Ty × List FieldId)} {names : List String} :
    Calm (followPath f path reached names) := by
  induction names generalizing reached with
  | nil => exact .pure
  | cons name rest ih =>
    rw [followPath]
    refine .bind .get fun e => ?_
    extract_lets field before follow
    have followed (found : Option FieldId) : Calm (follow found) := by
      dsimp only [follow]
      split
      · exact .bind calm_reportFor fun _ => .pure
      · refine .bind .get fun _ => .ite (.bind (.ask _) fun _ => ih) (.bind calm_reportFor fun _ => .pure)
    split
    · exact .bind calm_findFieldInScope followed
    · split
      · exact .bind calm_findField followed
      · exact .bind .pure followed

theorem roleAtAnchor_from {f : FieldId} {path role : String} {t : Ty} {fields : List FieldId} :
    From e (roleAtAnchor f path role t fields) fun t d => d.Rooted t := by
  refine .get_bind fun d _ => ?_
  extract_lets field
  split
  · exact .after calm_reportFor fun _ _ _ => problemType_from
  · refine findMemberType_from.bind fun found c _ known => .get_bind fun c' hc => ?_
    split
    · next b found =>
      exact .pure fun _ hc' => (hc.trans hc').hasType (known b (Option.mem_filter_iff.1 found).1)
    · exact .after calm_reportFor fun _ _ _ => problemType_from

theorem resolveAnchor_from {f : FieldId} {anchor : PendingAnchor} :
    From e (resolveAnchor f anchor) fun t d => d.Rooted t := by
  refine .after calm_followPath fun reached d _ => ?_
  cases reached with
  | none => exact problemType_from
  | some reached => exact .get_bind fun _ _ => .ite (fun _ => problemType_from) fun _ => roleAtAnchor_from

theorem From.attempt {α : Type} {x : Resolve α} {Q : α → Env → Prop} (h : From e x Q) :
    From e (attempt x) fun r d => ∀ a, r = .ok a → Q a d := by
  intro o ho d hd
  obtain ⟨develops, holds⟩ := h o ho d hd
  refine ⟨develops, ?_⟩
  rintro _ ⟨⟩
  exact holds

theorem fieldType_from {f : FieldId} : From e (fieldType f) fun t d => e.HasField f → d.Rooted t := by
  refine .get_bind fun d le => ?_
  extract_lets field
  split
  · exact .pure fun _ hc known => hc.rooted (le.fields f known).type
  · next anchor _ =>
    refine .ite (fun _ => .after calm_reportFor fun _ _ _ => problemType_from.post fun _ _ _ rooted _ => rooted)
      fun _ => ?_
    refine .after (.quiet ?_) fun _ c _ => resolveAnchor_from.attempt.bind fun outcome c _ holds => ?_
    · exact fun _ => rfl
    refine .after (.quiet ?_) fun _ c' hc => ?_
    · exact fun _ => rfl
    cases outcome with
    | error cause => exact .throw
    | ok type =>
      have rooted := hc.rooted (holds type rfl)
      refine (updateField_from ?_).bind fun _ _ le _ => .pure fun _ hc' _ => (le.trans hc').rooted rooted
      exact fun _ le _ => le.rooted rooted

end TeamRoles.Resolve
