import TeamRoles.Proofs.Env.Lawful
import TeamRoles.Proofs.Env.Offers
import TeamRoles.Proofs.Scoped.Steps

/-!
Resolutions that keep everything in scope, with what they leave when they are not aborted. What is known of an
environment is known of all that develop from it, so a resolution is looked at from any environment before it.
-/

namespace TeamRoles

structure Oracle.Sound (o : Oracle) : Prop extends o.Lawful where
  develops {α : Type} (q : Query α) (e : Env) : e.Scoped → e.Develops (o.ask q e).2
  rooted (f : FieldId) (e : Env) (t : Ty) : e.Scoped → e.HasField f →
    (o.ask (.fieldType f) e).1 = .ok t → (o.ask (.fieldType f) e).2.Rooted t

namespace Resolve

variable {α β σ : Type} {ℓ : Nat} {e d : Env}

/-- What the resolution leaves in an environment that has developed from the given one. -/
def From (e : Env) (x : Resolve α) (Q : α → Env → Prop) : Prop :=
  ∀ o : Oracle, o.Sound → ∀ d, e.Develops d →
    d.Develops (x o d).2 ∧ ∀ a, (x o d).1 = .ok a → Q a (x o d).2

def Calm (x : Resolve α) : Prop := ∀ e, From e x fun _ _ => True

def Lasting (P : Env → Prop) : Prop := ∀ ⦃e d : Env⦄, e.Develops d → P e → P d

section Rules

variable {Q Q' : α → Env → Prop} {R : β → Env → Prop} {x y : Resolve α} {f : α → Resolve β}

theorem From.mono (h : From e x Q) (le : e.Develops d) : From d x Q :=
  fun o ho c hc => h o ho c (le.trans hc)

theorem From.post (h : From e x Q) (post : ∀ a d, e.Develops d → Q a d → Q' a d) : From e x Q' := by
  intro o ho d hd
  obtain ⟨develops, holds⟩ := h o ho d hd
  exact ⟨develops, fun a ha => post a _ (hd.trans develops) (holds a ha)⟩

theorem From.quietly (h : From e x Q) : From e x fun _ _ => True := h.post fun _ _ _ _ => trivial

theorem From.calm (h : ∀ e, From e x Q) : Calm x := fun e => (h e).quietly

theorem From.pure {a : α} (h : ∀ d, e.Develops d → Q a d) : From e (pure a) Q := by
  refine fun o _ d hd => ⟨.refl hd.closed, ?_⟩
  rintro _ ⟨⟩
  exact h d hd

theorem From.throw {cause : Abort} : From e (throw cause : Resolve α) Q :=
  fun _ _ _ hd => ⟨.refl hd.closed, nofun⟩

theorem From.bind (hx : From e x Q) (hf : ∀ a d, e.Develops d → Q a d → From d (f a) R) :
    From e (x >>= f) R :=
  fun o ho d hd => ends_bind (S := fun _ => d.Develops) (hx o ho d hd) fun a d' develops known =>
    (hf a d' (hd.trans develops) known o ho d' (.refl develops.closed)).imp_left develops.trans

theorem From.pure_bind {a : α} (h : From e (f a) R) : From e (Pure.pure a >>= f) R := h

theorem From.after (hx : Calm x) (hf : ∀ a d, e.Develops d → From d (f a) R) : From e (x >>= f) R :=
  (hx e).bind fun a d le _ => hf a d le

theorem From.start (h : ∀ d, e.Develops d → From d x Q) : From e x Q :=
  fun o ho d hd => h d hd o ho d (.refl hd.closed)

theorem From.get_bind {f : Env → Resolve β} (h : ∀ d, e.Develops d → From d (f d) R) : From e (get >>= f) R :=
  fun o ho d hd => h d hd o ho d (.refl hd.closed)

theorem From.ite {c : Prop} [Decidable c] (hx : c → From e x Q) (hy : ¬c → From e y Q) :
    From e (if c then x else y) Q := by
  split
  · next h => exact hx h
  · next h => exact hy h

theorem From.modifyGet {f : Env → α × Env}
    (h : ∀ d, e.Develops d → d.Develops (f d).2 ∧ Q (f d).1 (f d).2) : From e (modifyGet f) Q := by
  refine fun o _ d hd => ⟨(h d hd).1, ?_⟩
  rintro _ ⟨⟩
  exact (h d hd).2

theorem From.modify {f : Env → Env} (h : ∀ d, e.Develops d → d.Develops (f d)) :
    From e (modify f) fun _ _ => True :=
  .modifyGet fun d hd => ⟨h d hd, trivial⟩

theorem From.of_triple (calm : From e x fun _ _ => True) (triple : Triple ℓ (fun _ => True) x Q) : From e x Q :=
  fun o ho d hd => ⟨(calm o ho d hd).1, (triple o ho.toLawful d trivial).2⟩

end Rules

namespace Calm

variable {x y : Resolve α} {f : α → Resolve β}

theorem pure {a : α} : Calm (pure a) := fun _ => .pure fun _ _ => trivial

theorem throw {cause : Abort} : Calm (throw cause : Resolve α) := fun _ => .throw

theorem bind (hx : Calm x) (hf : ∀ a, Calm (f a)) : Calm (x >>= f) :=
  fun _ => .after hx fun a d _ => hf a d

theorem map {g : α → β} (hx : Calm x) : Calm (g <$> x) := hx.bind fun _ => pure

theorem discard (hx : Calm x) : Calm (discard x) := hx.map

theorem get : Calm (get : Resolve Env) := fun _ _ _ _ hd => ⟨.refl hd.closed, fun _ _ => trivial⟩

theorem depth : Calm depth := fun _ _ _ _ hd => ⟨.refl hd.closed, fun _ _ => trivial⟩

theorem ask (q : Query α) : Calm (ask q) :=
  fun _ _ ho d hd => ⟨ho.develops q d hd.closed, fun _ _ => trivial⟩

theorem ite {c : Prop} [Decidable c] (hx : Calm x) (hy : Calm y) : Calm (if c then x else y) :=
  fun e => .ite (fun _ => hx e) fun _ => hy e

theorem quiet {f : Env → Env} (h : ∀ e, (f e).scope = e.scope) : Calm (modify f) :=
  fun _ => .modify fun d hd => hd.closed.develops_of_scope (h d)

theorem quietGet {f : Env → α × Env} (h : ∀ e, (f e).2.scope = e.scope) : Calm (modifyGet f) :=
  fun _ => .modifyGet fun d hd => ⟨hd.closed.develops_of_scope (h d), trivial⟩

end Calm

section Lists

variable {l : List α}

theorem From.foldlM {f : σ → α → Resolve σ} {I : σ → Env → Prop} {s : σ}
    (hf : ∀ a ∈ l, ∀ s d, e.Develops d → I s d → From d (f s a) I) (lasting : ∀ s, Lasting (I s))
    (start : I s e) : From e (l.foldlM f s) I := by
  induction l generalizing s e with
  | nil => exact .pure fun _ hd => lasting s hd start
  | cons a l ih =>
    have first : From e (f s a) I := .start fun d hd => hf a List.mem_cons_self s d hd (lasting s hd start)
    refine first.bind fun s d le hs => ih (fun b hb s c hc => ?_) hs
    exact hf b (List.mem_cons_of_mem a hb) s c (le.trans hc)

theorem From.mapM {f : α → Resolve β} {Q : β → Env → Prop} (hf : ∀ a ∈ l, From e (f a) Q)
    (lasting : ∀ b, Lasting (Q b)) : From e (l.mapM f) fun bs d => ∀ b ∈ bs, Q b d := by
  suffices loop : ∀ bs, (∀ b ∈ bs, Q b e) → From e (List.mapM.loop f l bs) fun bs d => ∀ b ∈ bs, Q b d from
    loop [] nofun
  induction l generalizing e with
  | nil => exact fun bs known => .pure fun d hd b hb => lasting b hd (known b (List.mem_reverse.1 hb))
  | cons a l ih =>
    refine fun bs known => (hf a List.mem_cons_self).bind fun b d le hb => ?_
    refine ih (fun c hc => (hf c (List.mem_cons_of_mem a hc)).mono le) (b :: bs) ?_
    exact List.forall_mem_cons.2 ⟨hb, fun c hc => lasting c le (known c hc)⟩

theorem From.filterMapM {f : α → Resolve (Option β)} {Q : β → Env → Prop}
    (hf : ∀ a ∈ l, From e (f a) fun found d => ∀ b ∈ found, Q b d) (lasting : ∀ b, Lasting (Q b)) :
    From e (l.filterMapM f) fun bs d => ∀ b ∈ bs, Q b d := by
  suffices loop : ∀ bs, (∀ b ∈ bs, Q b e) →
      From e (List.filterMapM.loop f l bs) fun bs d => ∀ b ∈ bs, Q b d from loop [] nofun
  induction l generalizing e with
  | nil => exact fun bs known => .pure fun d hd b hb => lasting b hd (known b (List.mem_reverse.1 hb))
  | cons a l ih =>
    refine fun bs known => (hf a List.mem_cons_self).bind fun found d le hb => ?_
    have rest := @ih d fun c hc => (hf c (List.mem_cons_of_mem a hc)).mono le
    have known (b : β) (h : b ∈ bs) : Q b d := lasting b le (known b h)
    cases found with
    | none => exact rest bs known
    | some b => exact rest (b :: bs) (List.forall_mem_cons.2 ⟨hb b rfl, known⟩)

theorem From.findSomeM? {f : α → Resolve (Option β)} {Q : β → Env → Prop}
    (hf : ∀ a ∈ l, From e (f a) fun found d => ∀ b ∈ found, Q b d) (lasting : ∀ b, Lasting (Q b)) :
    From e (l.findSomeM? f) fun found d => ∀ b ∈ found, Q b d := by
  induction l generalizing e with
  | nil => exact .pure fun _ _ => nofun
  | cons a l ih =>
    refine (hf a List.mem_cons_self).bind fun found d le hb => ?_
    cases found with
    | none => exact ih fun c hc => (hf c (List.mem_cons_of_mem a hc)).mono le
    | some b => exact .pure fun c hc b' same => lasting b' hc (hb b' same)

theorem From.forM {f : α → Resolve PUnit} (hf : ∀ a ∈ l, From e (f a) fun _ _ => True) :
    From e (l.forM f) fun _ _ => True := by
  induction l generalizing e with
  | nil => exact .pure fun _ _ => trivial
  | cons a l ih =>
    refine (hf a List.mem_cons_self).bind fun _ d le _ => ih fun c hc => ?_
    exact (hf c (List.mem_cons_of_mem a hc)).mono le

end Lists

namespace Calm

variable {l : List α}

theorem forM {f : α → Resolve PUnit} (hf : ∀ a, Calm (f a)) : Calm (l.forM f) :=
  fun e => .forM fun a _ => hf a e

theorem optionForM {o : Option α} {f : α → Resolve PUnit} (hf : ∀ a, Calm (f a)) : Calm (o.forM f) := by
  cases o with
  | none => exact pure
  | some a => exact hf a

theorem foldlM {f : σ → α → Resolve σ} (hf : ∀ s a, Calm (f s a)) (s : σ) : Calm (l.foldlM f s) :=
  fun _ => .foldlM (I := fun _ _ => True) (fun a _ s d _ _ => hf s a d) (fun _ _ _ _ => id) trivial

theorem mapM {f : α → Resolve β} (hf : ∀ a, Calm (f a)) : Calm (l.mapM f) :=
  fun e => (From.mapM (Q := fun _ _ => True) (fun a _ => hf a e) fun _ _ _ _ => id).quietly

theorem filterMapM {f : α → Resolve (Option β)} (hf : ∀ a, Calm (f a)) : Calm (l.filterMapM f) := by
  refine fun e => (From.filterMapM (Q := fun _ _ => True) (fun a _ => ?_) fun _ _ _ _ => id).quietly
  exact (hf a e).post fun _ _ _ _ _ _ => trivial

theorem findSomeM? {f : α → Resolve (Option β)} (hf : ∀ a, Calm (f a)) : Calm (l.findSomeM? f) := by
  refine fun e => (From.findSomeM? (Q := fun _ _ => True) (fun a _ => ?_) fun _ _ _ _ => id).quietly
  exact (hf a e).post fun _ _ _ _ _ _ => trivial

end Calm

section Walks

variable [BEq α] {order : WalkOrder} {above : α → Resolve (List α)}
  {visit : σ → α → Resolve (Visit σ)} {I : σ → Env → Prop}

theorem From.walkFrom (hAbove : ∀ a, Calm (above a))
    (hVisit : ∀ s a d, e.Develops d → I s d → From d (visit s a) fun v => I v.found)
    (lasting : ∀ s, Lasting (I s)) {fuel : Nat} {seen todo : List α} {found : σ} (start : I found e) :
    From e (walkFrom order above visit fuel seen todo found) I := by
  induction fuel generalizing seen todo found e with
  | zero =>
    cases todo with
    | nil => exact .pure fun _ hd => lasting found hd start
    | cons a todo => exact .throw
  | succ fuel ih =>
    cases todo with
    | nil => exact .pure fun _ hd => lasting found hd start
    | cons a todo =>
      rw [Resolve.walkFrom]
      refine .ite (fun _ => ih hVisit start) fun _ => ?_
      have visited : From e (visit found a) fun v => I v.found :=
        .start fun d hd => hVisit found a d hd (lasting found hd start)
      refine visited.bind fun next d le found => ?_
      cases next with
      | stop s => exact .pure fun _ hd => lasting s hd found
      | leaf s => exact ih (fun s a c hc => hVisit s a c (le.trans hc)) found
      | inner s =>
        refine .after (hAbove a) fun _ c hc => ih (fun s a c' hc' => ?_) (lasting s hc found)
        exact hVisit s a c' (le.trans (hc.trans hc'))

theorem From.walk (hAbove : ∀ a, Calm (above a))
    (hVisit : ∀ s a d, e.Develops d → I s d → From d (visit s a) fun v => I v.found)
    (lasting : ∀ s, Lasting (I s)) {start : List α} {found : σ} (known : I found e) :
    From e (walk order above start found visit) I :=
  .after .depth fun _ _ le => .walkFrom hAbove (fun s a d hd => hVisit s a d (le.trans hd)) lasting (lasting _ le known)

theorem calm_walk (hAbove : ∀ a, Calm (above a)) (start : List α) (found : σ)
    (hVisit : ∀ s a, Calm (visit s a)) : Calm (walk order above start found visit) :=
  fun _ => .walk (I := fun _ _ => True) hAbove (fun s a d _ _ => hVisit s a d) (fun _ _ _ _ => id) trivial

end Walks

theorem lasting_hasType (b : BindingId) : Lasting fun e => e.HasType b := fun _ _ le => le.hasType

theorem lasting_hasVar (v : TypeVarId) : Lasting fun e => e.HasVar v := fun _ _ le => le.hasVar

theorem lasting_rooted (t : Ty) : Lasting fun e => e.Rooted t := fun _ _ le => le.rooted

theorem lasting_hasField (f : FieldId) : Lasting fun e => e.HasField f := fun _ _ le => le.fields f

theorem From.ask (q : Query α) : From e (ask q) q.Holds := .of_triple (Calm.ask q e) (.ask (ℓ := q.level) q (Nat.le_refl _))

theorem ask_findType {name : String} : From e (ask (.findType name)) fun found d => ∀ b ∈ found, d.HasType b := by
  refine (From.ask (.findType name)).post fun found d le denotes b hb => ?_
  rcases denotes b hb with bound | ⟨_, -, bound⟩
  · exact le.closed.byName _ bound
  · exact le.closed.byName _ bound

theorem ask_typeVariables {b : BindingId} :
    From e (ask (.typeVariables b)) fun vars d => ∀ v ∈ vars, d.HasVar v :=
  (From.ask (.typeVariables b)).post fun vars _ le resolved => (le.closed.bindings b).typeVariables vars resolved

theorem ask_fields {b : BindingId} : From e (ask (.fields b)) fun list d => ∀ f ∈ list, d.HasField f :=
  (From.ask (.fields b)).post fun list _ le resolved => (le.closed.bindings b).fields list resolved

theorem ask_methods {b : BindingId} : From e (ask (.methods b)) fun list d => ∀ m ∈ list, d.HasMethod m :=
  (From.ask (.methods b)).post fun list _ le resolved => (le.closed.bindings b).methods list resolved

theorem ask_fieldType {f : FieldId} (known : e.HasField f) :
    From e (ask (.fieldType f)) fun t d => d.Rooted t :=
  fun _ ho d hd => ⟨ho.develops _ d hd.closed, fun t => ho.rooted f d t hd.closed (hd.fields f known)⟩

theorem addBinding_from {x : Binding} (fits : e.Fits x) (bare : ∀ list, x.methods = .resolved list → list = []) :
    From e (addBinding x) fun b d => d.HasType b :=
  .modifyGet fun d le => ⟨le.closed.addBinding (le.widens.fits fits) bare, by
    simp [Env.HasType, Env.nextBinding]⟩

theorem bindName_from {name : String} {b : BindingId} (known : e.HasType b) :
    From e (bindName name b) fun _ _ => True :=
  .modify fun _ le => le.closed.bindName (le.hasType known)

/-- The change of a binding puts nothing into it but what is there, and no methods. -/
structure Modest (e : Env) (f : Binding → Binding) : Prop where
  name : ∀ x, (f x).name = x.name
  fits : ∀ d x, e.Develops d → d.Fits x → d.Fits (f x)
  methods : ∀ x list, (f x).methods = .resolved list → x.methods = .resolved list

theorem updateBinding_from {b : BindingId} {f : Binding → Binding} (h : Modest e f) :
    From e (updateBinding b f) fun _ _ => True :=
  .modify fun d le => le.closed.update (h.name _) (h.fits d _ le (le.closed.bindings b)) fun list resolved =>
    .inl (h.methods _ list resolved)

theorem calm_updateBinding {b : BindingId} {f : Binding → Binding} (h : ∀ e, Modest e f) : Calm (updateBinding b f) :=
  fun e => updateBinding_from (h e)

theorem addMethod_from {x : Method} (params : ∀ t ∈ x.declared.params, e.Rooted t)
    (woven : ∀ t ∈ x.woven.params, e.Rooted t) :
    From e (addMethod x) fun m d => d.HasMethod m ∧ (d.method m).name = x.name ∧ (d.method m).origin = x.origin := by
  refine .modifyGet fun d le => ⟨le.closed.addMethod, ?_⟩
  have made : (d.addMethod x).method d.nextMethod = x := Env.method_addMethod_self
  refine ⟨Env.hasMethod_addMethod (fun t ht => le.rooted (params t ht)) fun t ht => le.rooted (woven t ht), ?_⟩
  exact ⟨congrArg Method.name made, congrArg Method.origin made⟩

theorem calm_addMethod {x : Method} : Calm (addMethod x) :=
  fun _ => .modifyGet fun _ le => ⟨le.closed.addMethod, trivial⟩

theorem calm_updateMethod {m : MethodId} {f : Method → Method} (fixed : ∀ x, (f x).fixed = x.fixed) :
    Calm (updateMethod m f) :=
  fun _ => .modify fun _ le => le.closed.updateMethod (fixed _)

theorem addField_from {f : Field} (fits : e.Rooted f.type) : From e (addField f) fun i d => d.HasField i :=
  .modifyGet fun _ le => ⟨le.closed.addField, Env.hasField_addField (le.rooted fits)⟩

theorem calm_addField {f : Field} : Calm (addField f) :=
  fun _ => .modifyGet fun _ le => ⟨le.closed.addField, trivial⟩

theorem updateField_from {i : FieldId} {f : Field → Field}
    (fits : ∀ d, e.Develops d → d.HasField i → d.Rooted (f (d.field i)).type) :
    From e (updateField i f) fun _ _ => True :=
  .modify fun d le => le.closed.updateField (fits d le)

theorem updateUnit_from {u : UnitId} {f : SourceUnit → SourceUnit}
    (fits : ∀ d x, e.Develops d → d.FitsUnit x → d.FitsUnit (f x)) : From e (updateUnit u f) fun _ _ => True :=
  .modify fun d le => le.closed.updateUnit (fits d _ le (le.closed.units u))

theorem calm_updateUnit {u : UnitId} {f : SourceUnit → SourceUnit} (types : ∀ x, (f x).types = x.types)
    (imports : ∀ x, (f x).imports = x.imports) : Calm (updateUnit u f) := by
  refine fun _ => updateUnit_from fun d x _ fits => ⟨fun b hb => ?_, fun i hi => ?_⟩
  · exact fits.types b (types x ▸ hb)
  · exact fits.imports i (imports x ▸ hi)

theorem addTypeVar_from {v : TypeVar} (none : v.bounds = []) :
    From e (addTypeVar v) fun w d => e.typeVars.size ≤ w.index ∧ d.HasVar w := by
  refine .modifyGet fun d le => ⟨le.closed.addTypeVar ?_, le.vars, by simp [Env.HasVar]⟩
  rw [none]
  nofun

theorem calm_addCapture {c : Capture} : Calm (addCapture c) := .quietGet fun _ => rfl

theorem calm_addMapping {m : Mapping} : Calm (addMapping m) := .quietGet fun _ => rfl

theorem calm_reportInFile {file : Option String} {p : ProblemId} {span : Span} {arguments : List String} :
    Calm (reportInFile file p span arguments) :=
  .quiet fun _ => rfl

theorem calm_reportInUnit {unit : UnitId} {p : ProblemId} {span : Span} {arguments : List String} :
    Calm (reportInUnit unit p span arguments) :=
  .bind .get fun _ => calm_reportInFile

theorem calm_reportFor {b : BindingId} {p : ProblemId} {span : Span} {arguments : List String} :
    Calm (reportFor b p span arguments) :=
  .bind .get fun _ => calm_reportInFile

theorem reentrant_from {b : BindingId} {c : Component} {Q : α → Env → Prop} :
    From e (reentrant b c : Resolve α) Q :=
  .get_bind fun _ _ => .throw

theorem calm_known {b : BindingId} : Calm (known b) := .bind .get fun _ => .ite .throw .pure

theorem known_from {b : BindingId} : From e (known b) fun x d => d.HasType b ∧ d.Fits x := by
  refine .get_bind fun d le => .ite (fun _ => .throw) fun inside => .pure fun c hc => ⟨?_, ?_⟩
  · exact hc.hasType (Nat.lt_of_not_le inside)
  · exact hc.widens.fits (le.closed.bindings b)

theorem knownUnit_from {u : UnitId} : From e (knownUnit u) fun x d => d.FitsUnit x :=
  .get_bind fun _ le => .ite (fun _ => .throw) fun _ => .pure fun _ hc => hc.widens.fitsUnit (le.closed.units u)

theorem problemBinding_from {name : String} {reason : ProblemReason} :
    From e (problemBinding name reason) fun b d => d.HasType b := by
  refine .get_bind fun d le => ?_
  split
  · next b found => exact .pure fun c hc => hc.hasType (le.closed.problems _ (Env.mem_of_lookup found))
  · refine (addBinding_from Env.fits_standIn ?_).bind fun b c _ inside => ?_
    · rintro _ ⟨⟩
      rfl
    · have named : From c (modify (·.nameProblem name reason b)) fun _ _ => True :=
        .modify fun _ hc => hc.closed.nameProblem (hc.hasType inside)
      exact named.bind fun _ _ hc _ => .pure fun _ hc' => hc'.hasType (hc.hasType inside)

theorem problemType_from {name : String} {reason : ProblemReason} :
    From e (problemType name reason) fun t d => d.Rooted t :=
  problemBinding_from.bind fun _ _ _ inside => .pure fun _ hc => hc.hasType inside

theorem findTypeOrProblem_from {name : String} : From e (findTypeOrProblem name) fun b d => d.HasType b := by
  refine ask_findType.bind fun found d _ inside => ?_
  cases found with
  | some b => exact .pure fun _ hc => hc.hasType (inside b rfl)
  | none => exact problemBinding_from

theorem wellKnown_from {name : WellKnownNames → String} : From e (wellKnown name) fun b d => d.HasType b :=
  .get_bind fun _ _ => findTypeOrProblem_from

theorem wellKnownType_from {name : WellKnownNames → String} : From e (wellKnownType name) fun t d => d.Rooted t :=
  wellKnown_from.bind fun _ _ _ inside => .pure fun _ hc => hc.hasType inside

theorem objectType_from : From e objectType fun t d => d.Rooted t := wellKnownType_from

theorem calm_findTypeOrProblem {name : String} : Calm (findTypeOrProblem name) :=
  From.calm fun _ => findTypeOrProblem_from

theorem calm_wellKnown {name : WellKnownNames → String} : Calm (wellKnown name) := From.calm fun _ => wellKnown_from

theorem calm_wellKnownType {name : WellKnownNames → String} : Calm (wellKnownType name) :=
  From.calm fun _ => wellKnownType_from

theorem calm_objectType : Calm objectType := calm_wellKnownType

end Resolve

end TeamRoles
