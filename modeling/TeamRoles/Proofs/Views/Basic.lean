import TeamRoles.Proofs.Hierarchy.Supertypes
import TeamRoles.Proofs.Lawful.Methods

/-!
Signatures and views of methods. A method is woven when it is made, and shows what is woven; resolution
changes neither the signatures of the methods that are there nor which of them is shown.
-/

namespace TeamRoles

def Method.signatures (m : Method) : Modifiers × MethodType × Option MethodType × Nat :=
  (m.modifiers, m.declared, m.enhanced, m.viewDepth)

namespace Env

/-- The type is what is found under a well-known name, or stands for it. -/
def Provides (e : Env) (name : WellKnownNames → String) (b : BindingId) : Prop :=
  e.Denotes (name e.options.wellKnown) b ∨ e.StandsFor (name e.options.wellKnown) b

def Enhances (e : Env) : EnhancingArg → Ty → Prop
  | .baseArg, t => ∃ b, e.Provides (·.boundBase) b ∧ t = .declared b
  | .teams, t => ∃ b, e.Provides (·.team) b ∧ t = .array (.declared b)
  | .index, t | .boundMethodId, t => t = .primitive .int
  | .callinIds, t => t = .array (.primitive .int)
  | .args, t => ∃ b, e.Provides (·.object) b ∧ t = .array (.declared b)

structure Weaves (e : Env) (declared woven : MethodType) : Prop where
  params : ∃ extra, List.Forall₂ e.Enhances e.options.weavingScheme.enhancingArgs extra ∧
    woven.params = extra ++ declared.params
  ret : declared.ret = .primitive .void ∧ woven.ret = .primitive .void ∨
    ∃ b, e.Provides (·.object) b ∧ woven.ret = .declared b

/-- Callin methods are woven if that adds anything to them; no other method is. -/
structure IsWoven (e : Env) (x : Method) : Prop where
  enhanced : x.enhanced.isSome = true ↔
    x.isCallin = true ∧ e.options.weavingScheme.enhancingArgs ≠ []
  signature : ∀ s ∈ x.enhanced, e.Weaves x.declared s

/-- What resolution makes of methods: those that are there keep their signatures and show what they showed,
and those that are new are woven and show it. -/
structure ViewsLast (e e' : Env) : Prop where
  options : e'.options = e.options
  provider : e'.provider = e.provider
  byName : ∀ entry ∈ e.byName, entry ∈ e'.byName
  problems : ∀ entry ∈ e.problemBindings, entry ∈ e'.problemBindings
  size : e.methods.size ≤ e'.methods.size
  kept : ∀ m, m.index < e.methods.size → (e'.method m).signatures = (e.method m).signatures
  fresh : ∀ m, e.methods.size ≤ m.index → m.index < e'.methods.size →
    (e'.method m).viewDepth = 0 ∧ e'.IsWoven (e'.method m)

variable {e e' e'' : Env} {m : MethodId} {x : Method} {f : Method → Method}

theorem Weaves.length {declared woven : MethodType} (h : e.Weaves declared woven) :
    woven.params.length = e.options.weavingScheme.enhancingArgs.length + declared.params.length := by
  obtain ⟨extra, shaped, params⟩ := h.params
  rw [params, List.length_append, shaped.length_eq]

namespace IsWoven

theorem congr {y : Method} (h : e.IsWoven x) (modifiers : y.modifiers = x.modifiers)
    (declared : y.declared = x.declared) (enhanced : y.enhanced = x.enhanced) : e.IsWoven y where
  enhanced := by rw [enhanced, Method.isCallin, modifiers, ← Method.isCallin, h.enhanced]
  signature s hs := declared ▸ h.signature s (enhanced ▸ hs)

theorem with_methods {methods : Array Method} (h : e.IsWoven x) : IsWoven { e with methods } x :=
  ⟨h.enhanced, fun s hs => ⟨(h.signature s hs).params, (h.signature s hs).ret⟩⟩

end IsWoven

namespace ViewsLast

theorem of_methods_eq (options : e'.options = e.options) (provider : e'.provider = e.provider)
    (byName : ∀ entry ∈ e.byName, entry ∈ e'.byName)
    (problems : ∀ entry ∈ e.problemBindings, entry ∈ e'.problemBindings)
    (methods : e'.methods = e.methods) : e.ViewsLast e' where
  options := options
  provider := provider
  byName := byName
  problems := problems
  size := Nat.le_of_eq (congrArg Array.size methods.symm)
  kept m _ := by rw [method, methods, method]
  fresh m new inside := by
    rw [methods] at inside
    exact absurd inside (Nat.not_lt_of_le new)

theorem refl (e : Env) : e.ViewsLast e := of_methods_eq rfl rfl (fun _ => id) (fun _ => id) rfl

theorem provides {name : WellKnownNames → String} {b : BindingId} (h : e.ViewsLast e')
    (provided : e.Provides name b) : e'.Provides name b := by
  rw [Provides, h.options]
  rcases provided with (bound | ⟨d, found, bound⟩) | ⟨reason, stands⟩
  · exact .inl (.inl (h.byName _ bound))
  · exact .inl (.inr ⟨d, by rw [h.provider, found], h.byName _ bound⟩)
  · exact .inr ⟨reason, h.problems _ stands⟩

theorem enhances {arg : EnhancingArg} {t : Ty} (h : e.ViewsLast e') (shape : e.Enhances arg t) :
    e'.Enhances arg t := by
  cases arg with
  | baseArg | teams | args => exact shape.imp fun _ => And.imp_left h.provides
  | index | callinIds | boundMethodId => exact shape

theorem weaves {declared woven : MethodType} (h : e.ViewsLast e') (weaves : e.Weaves declared woven) :
    e'.Weaves declared woven where
  params := by
    rw [h.options]
    exact weaves.params.imp fun _ => And.imp_left fun shaped => shaped.imp fun _ _ => h.enhances
  ret := weaves.ret.imp_right fun ret => ret.imp fun _ => And.imp_left h.provides

theorem isWoven (h : e.ViewsLast e') (woven : e.IsWoven x) : e'.IsWoven x where
  enhanced := by rw [woven.enhanced, h.options]
  signature s hs := h.weaves (woven.signature s hs)

theorem trans (h : e.ViewsLast e') (h' : e'.ViewsLast e'') : e.ViewsLast e'' where
  options := h'.options.trans h.options
  provider := h'.provider.trans h.provider
  byName entry he := h'.byName entry (h.byName entry he)
  problems entry he := h'.problems entry (h.problems entry he)
  size := Nat.le_trans h.size h'.size
  kept m inside := (h'.kept m (Nat.lt_of_lt_of_le inside h.size)).trans (h.kept m inside)
  fresh m new inside := by
    by_cases between : m.index < e'.methods.size
    · -- A method that was new before is an old one since.
      obtain ⟨depth, woven⟩ := h.fresh m new between
      have same := h'.kept m between
      simp only [Method.signatures, Prod.mk.injEq] at same
      obtain ⟨modifiers, declared, enhanced, viewDepth⟩ := same
      exact ⟨viewDepth.trans depth, (h'.isWoven woven).congr modifiers declared enhanced⟩
    · exact h'.fresh m (Nat.le_of_not_lt between) inside

theorem add (depth : x.viewDepth = 0) (woven : e.IsWoven x) : e.ViewsLast (e.addMethod x) where
  options := rfl
  provider := rfl
  byName _ := id
  problems _ := id
  size := by simp [addMethod]
  kept m inside := by rw [method_addMethod_of_lt inside]
  fresh m new inside := by
    have last : m = e.nextMethod := (eq_nextMethod_or_lt inside).resolve_right (Nat.not_lt_of_le new)
    rw [last, method_addMethod_self]
    exact ⟨depth, woven.with_methods⟩

theorem update (same : ∀ x, (f x).signatures = x.signatures) : e.ViewsLast (e.updateMethod m f) where
  options := rfl
  provider := rfl
  byName _ := id
  problems _ := id
  size := Nat.le_of_eq size_updateMethod.symm
  kept n _ := method_updateMethod_proj (same _)
  fresh n new inside := by
    rw [size_updateMethod] at inside
    exact absurd inside (Nat.not_lt_of_le new)

end ViewsLast

theorem viewsLast_of_runs {ℓ : Nat} {r : Option Abort} (runs : Runs ℓ e r e') (low : ℓ < 5) : e.ViewsLast e' :=
  .of_methods_eq runs.lasts.options runs.lasts.provider runs.lasts.byName runs.lasts.problems (runs.methods_eq low)

end Env

structure Oracle.KeepsViews (o : Oracle) : Prop extends o.Lawful where
  views {α : Type} (q : Query α) (e : Env) : e.ViewsLast (o.ask q e).2

namespace Resolve

variable {α β σ : Type} {ℓ : Nat}

/-- The resolution leaves views as they are, even if it is aborted. -/
def KeepsViews (x : Resolve α) : Prop := ∀ o : Oracle, o.KeepsViews → ∀ e : Env, e.ViewsLast (x o e).2

namespace KeepsViews

variable {x : Resolve α} {f : α → Resolve β}

theorem of_lawful (h : Lawful 4 x) : KeepsViews x := fun o ho e =>
  Env.viewsLast_of_runs (h o ho.toLawful e).runs (by simp)

theorem pure {a : α} : KeepsViews (pure a) := fun _ _ e => .refl e

theorem throw {cause : Abort} : KeepsViews (throw cause : Resolve α) := fun _ _ e => .refl e

theorem ask {q : Query α} : KeepsViews (ask q) := fun _ ho e => ho.views q e

theorem bind (hx : KeepsViews x) (hf : ∀ a, KeepsViews (f a)) : KeepsViews (x >>= f) :=
  fun o ho e => after_bind .trans (hx o ho e) fun a e' => hf a o ho e'

theorem map {g : α → β} (hx : KeepsViews x) : KeepsViews (g <$> x) := hx.bind fun _ => pure

theorem discard (hx : KeepsViews x) : KeepsViews (discard x) := hx.map

theorem get_bind {f : Env → Resolve β} (h : ∀ e, KeepsViews (f e)) : KeepsViews (get >>= f) :=
  fun o ho e => h e o ho e

theorem modify {g : Env → Env} (h : ∀ e : Env, e.ViewsLast (g e)) : KeepsViews (modify g) := fun _ _ e => h e

theorem ite {c : Prop} [Decidable c] {y : Resolve α} (hx : KeepsViews x) (hy : KeepsViews y) :
    KeepsViews (if c then x else y) := by
  split
  · exact hx
  · exact hy

theorem compositional : Compositional KeepsViews where
  pure := pure
  bind := bind
  tooDeep := throw
  depth := .of_lawful .depth

section Lists

variable {l : List α}

theorem forM {f : α → Resolve PUnit} (hf : ∀ a, KeepsViews (f a)) : KeepsViews (l.forM f) :=
  compositional.forM fun a _ => hf a

theorem optionForM {o : Option α} {f : α → Resolve PUnit} (hf : ∀ a, KeepsViews (f a)) : KeepsViews (o.forM f) :=
  compositional.optionForM hf

theorem foldlM {f : σ → α → Resolve σ} (hf : ∀ s a, KeepsViews (f s a)) (s : σ) : KeepsViews (l.foldlM f s) :=
  compositional.foldlM (fun s a _ => hf s a) s

theorem mapM {f : α → Resolve β} (hf : ∀ a, KeepsViews (f a)) : KeepsViews (l.mapM f) :=
  compositional.mapM fun a _ => hf a

theorem filterMapM {f : α → Resolve (Option β)} (hf : ∀ a, KeepsViews (f a)) : KeepsViews (l.filterMapM f) :=
  compositional.filterMapM fun a _ => hf a

end Lists

end KeepsViews

section Walks

variable [BEq α] {order : WalkOrder} {above : α → Resolve (List α)} {visit : σ → α → Resolve (Visit σ)}

theorem keepsViews_walk (hAbove : ∀ a, KeepsViews (above a)) (start : List α) (found : σ)
    (hVisit : ∀ s a, KeepsViews (visit s a)) : KeepsViews (walk order above start found visit) :=
  KeepsViews.compositional.walk hAbove start found hVisit

end Walks

theorem keepsViews_updateMethod {m : MethodId} {f : Method → Method}
    (same : ∀ x, (f x).signatures = x.signatures) : KeepsViews (updateMethod m f) :=
  .modify fun _ => .update same

theorem keepsViews_elsewhere {g : Env → Env} (options : ∀ e, (g e).options = e.options)
    (provider : ∀ e, (g e).provider = e.provider) (byName : ∀ e, (g e).byName = e.byName)
    (problems : ∀ e, (g e).problemBindings = e.problemBindings) (methods : ∀ e, (g e).methods = e.methods) :
    KeepsViews (modify g) :=
  .modify fun e => .of_methods_eq (options e) (provider e) (by simp [byName]) (by simp [problems]) (methods e)

theorem keepsViews_updateBinding {b : BindingId} {f : Binding → Binding} : KeepsViews (updateBinding b f) :=
  keepsViews_elsewhere (fun _ => rfl) (fun _ => rfl) (fun _ => rfl) (fun _ => rfl) fun _ => rfl

theorem keepsViews_updateUnit {u : UnitId} {f : SourceUnit → SourceUnit} : KeepsViews (updateUnit u f) :=
  keepsViews_elsewhere (fun _ => rfl) (fun _ => rfl) (fun _ => rfl) (fun _ => rfl) fun _ => rfl

theorem wellKnownType_triple {name : WellKnownNames → String} :
    Triple ℓ (fun _ => True) (wellKnownType name) fun t e => ∃ b, e.Provides name b ∧ t = .declared b :=
  wellKnown_triple.bind fun b => .pure fun _ h => ⟨b, h, rfl⟩

theorem enhancingArgType_triple {arg : EnhancingArg} :
    Triple ℓ (fun _ => True) (enhancingArgType arg) fun t e => e.Enhances arg t := by
  have array {name : WellKnownNames → String} :
      Triple ℓ (fun _ => True) (do return Ty.array (← wellKnownType name)) fun t e =>
        ∃ b, e.Provides name b ∧ t = .array (.declared b) := by
    refine wellKnownType_triple.bind fun t => .pure ?_
    rintro _ ⟨b, provided, rfl⟩
    exact ⟨b, provided, rfl⟩
  cases arg with
  | baseArg => exact wellKnownType_triple
  | teams => exact array
  | index => exact .pure fun _ _ => rfl
  | callinIds => exact .pure fun _ _ => rfl
  | boundMethodId => exact .pure fun _ _ => rfl
  | args => exact array

theorem stable_enhances {arg : EnhancingArg} {t : Ty} : Stable 0 fun e => e.Enhances arg t :=
  fun _ _ _ runs shape => (Env.viewsLast_of_runs runs.runs (by simp)).enhances shape

theorem enhancingArgTypes_triple : Triple 0 (fun _ => True) enhancingArgTypes fun extra e =>
    List.Forall₂ e.Enhances e.options.weavingScheme.enhancingArgs extra := by
  refine .get_bind fun start => ?_
  refine (Triple.mapM_forall₂ (P := fun e => e.options = start.options) (R := Env.Enhances)
    (fun arg => ?_) fun _ _ => stable_enhances).pre ?_ |>.post ?_
  · exact (enhancingArgType_triple.frame (stable_options _)).pre fun _ same => ⟨trivial, same⟩
  · rintro _ ⟨rfl, -⟩
    rfl
  · rintro extra e ⟨shaped, same⟩
    rwa [same]

theorem enhance_triple {declared : MethodType} : Triple 0 (fun _ => True) (enhance declared) fun enhanced e =>
    (enhanced.isSome = true ↔ e.options.weavingScheme.enhancingArgs ≠ []) ∧
      ∀ s ∈ enhanced, e.Weaves declared s := by
  refine enhancingArgTypes_triple.bind fun extra => ?_
  have shapes : Stable 0 fun e => List.Forall₂ e.Enhances e.options.weavingScheme.enhancingArgs extra := by
    intro e r e' runs shaped
    rw [runs.lasts.options]
    exact shaped.imp fun _ _ => stable_enhances runs
  split
  · next empty =>
    obtain rfl : extra = [] := List.isEmpty_iff.1 empty
    refine .pure fun e shaped => ⟨?_, nofun⟩
    simpa using List.forall₂_nil_right_iff.1 shaped
  · next more =>
    extract_lets finish
    have finished (ret : Ty) : Triple 0 (fun e =>
        (declared.ret = .primitive .void ∧ ret = .primitive .void ∨
          ∃ b, e.Provides (·.object) b ∧ ret = .declared b) ∧
        List.Forall₂ e.Enhances e.options.weavingScheme.enhancingArgs extra) (finish ret) fun enhanced e =>
          (enhanced.isSome = true ↔ e.options.weavingScheme.enhancingArgs ≠ []) ∧
            ∀ s ∈ enhanced, e.Weaves declared s := by
      refine .pure ?_
      rintro e ⟨returns, shaped⟩
      refine ⟨iff_of_true rfl fun none => ?_, ?_⟩
      · rw [none, List.forall₂_nil_left_iff] at shaped
        exact more (List.isEmpty_iff.2 shaped)
      · rintro _ ⟨⟩
        exact ⟨⟨extra, shaped, rfl⟩, returns⟩
    split
    · next isVoid => exact .bind (.pure fun _ h => ⟨.inl ⟨isVoid, isVoid⟩, h⟩) finished
    · exact .bind ((wellKnownType_triple.framed shapes fun _ _ => trivial).post
        fun _ _ => And.imp_left .inr) finished

theorem keepsViews_newMethod {m : Method} (depth : m.viewDepth = 0) : KeepsViews (newMethod m) := by
  have add {x : Resolve (Option MethodType)} {P : Option MethodType → Env → Prop}
      (made : Triple 0 (fun _ => True) x P)
      (woven : ∀ enhanced e, P enhanced e → e.IsWoven { m with enhanced }) :
      KeepsViews (x >>= fun enhanced => addMethod { m with enhanced }) := by
    intro o ho e
    obtain ⟨runs, holds⟩ := made o ho.toLawful e trivial
    rcases outcome : x o e with ⟨cause | enhanced, e'⟩
    · rw [bind_apply_error outcome]
      rw [outcome] at runs
      exact Env.viewsLast_of_runs runs.runs (by simp)
    · rw [bind_apply_ok outcome]
      rw [outcome] at runs holds
      exact (Env.viewsLast_of_runs runs.runs (by simp)).trans (.add depth (woven _ _ (holds _ rfl)))
  unfold newMethod
  split
  · next isCallin =>
    refine add enhance_triple fun enhanced e ⟨present, weaves⟩ => ⟨?_, weaves⟩
    exact present.trans (and_iff_right isCallin).symm
  · next other =>
    refine add (P := fun enhanced _ => enhanced = none) (.pure fun _ _ => rfl) ?_
    rintro _ e rfl
    exact ⟨iff_of_false nofun fun h => other h.1, nofun⟩

end Resolve

end TeamRoles
