import TeamRoles.Proofs.Env.Anchors
import TeamRoles.Proofs.Scoped.Basic

/-!
Single changes of an environment. Each leaves everything in scope that was, if what it brings in refers to what
is there.
-/

namespace TeamRoles

namespace Env

variable {e d : Env} {b : BindingId} {x : Binding} {m : MethodId}

theorem Widens.of_eq (types : e.bindings.size ≤ d.bindings.size) (vars : e.typeVars.size ≤ d.typeVars.size)
    (fields : d.fields = e.fields) (methods : d.methods = e.methods) : e.Widens d where
  types := types
  vars := vars
  fields f hf := by
    have same : d.field f = e.field f := by rw [field, fields, field]
    refine ⟨?_, ?_⟩
    · rw [fields]
      exact hf.inside
    · rw [same]
      exact hf.type.of_size_le types vars
  methods m hm := by
    have same : d.method m = e.method m := by rw [method, methods, method]
    refine ⟨?_, ?_, ?_⟩
    · rw [methods]
      exact hm.inside
    all_goals rw [same]
    · exact fun t ht => (hm.params t ht).of_size_le types vars
    · exact fun t ht => (hm.woven t ht).of_size_le types vars

def scope (e : Env) :=
  (e.options, e.bindings, e.methods, e.fields, e.typeVars, e.units, e.byName, e.problemBindings)

theorem Scoped.develops_of_scope (h : e.Scoped) (same : d.scope = e.scope) : e.Develops d := by
  obtain ⟨options, bindings, methods, fields, typeVars, units, byName, problems⟩ :
      d.options = e.options ∧ d.bindings = e.bindings ∧ d.methods = e.methods ∧ d.fields = e.fields ∧
        d.typeVars = e.typeVars ∧ d.units = e.units ∧ d.byName = e.byName ∧
        d.problemBindings = e.problemBindings := by
    simpa only [scope, Prod.mk.injEq] using same
  have binding (b : BindingId) : d.binding b = e.binding b := by rw [binding, bindings, binding]
  have typeVar (v : TypeVarId) : d.typeVar v = e.typeVar v := by rw [typeVar, typeVars, typeVar]
  have method (m : MethodId) : d.method m = e.method m := by rw [method, methods, method]
  have types : e.bindings.size ≤ d.bindings.size := Nat.le_of_eq (by rw [bindings])
  have vars : e.typeVars.size ≤ d.typeVars.size := Nat.le_of_eq (by rw [typeVars])
  have widens : e.Widens d := .of_eq types vars fields methods
  refine ⟨⟨options, types, fun b _ => by rw [binding], vars, fun v _ => by rw [typeVar], widens.fields,
    Nat.le_of_eq (by rw [methods]), fun m _ => by rw [method]⟩, ?_, fun b list resolved => ?_⟩
  · refine widens.closed h (fun b => .inl (binding b)) (fun u => .inl ?_) (fun v => .inl (typeVar v)) ?_ ?_
    · rw [unit, units, unit]
    · exact fun entry he => .inl (byName ▸ he)
    · exact fun entry he => .inl (problems ▸ he)
  · exact .inl (by rwa [← binding])

theorem Scoped.addBinding (h : e.Scoped) (fits : e.Fits x)
    (bare : ∀ list, x.methods = .resolved list → list = []) : e.Develops (e.addBinding x) := by
  have types : e.bindings.size ≤ (e.addBinding x).bindings.size := by simp [Env.addBinding]
  have widens : e.Widens (e.addBinding x) := .of_eq types (Nat.le_refl _) rfl rfl
  have binding (b : BindingId) : (e.addBinding x).binding b = e.binding b ∨ (e.addBinding x).binding b = x := by
    by_cases new : b = e.nextBinding
    · exact .inr (by rw [new, binding_addBinding_self])
    · exact .inl (binding_addBinding_of_ne new)
  refine { Preserves.refl e with
    types := types, name := fun b hb => ?_, fields := widens.fields, closed := ?_, lists := fun b list resolved => ?_ }
  · rw [binding_addBinding_of_ne]
    rintro rfl
    exact Nat.lt_irrefl _ hb
  · refine widens.closed h (fun b => (binding b).imp_right ?_) (fun _ => .inl rfl) (fun _ => .inl rfl)
      (fun _ => .inl) fun _ => .inl
    intro new
    rw [new]
    exact widens.fits fits
  · rcases binding b with old | new
    · exact .inl (by rwa [← old])
    · rw [bare list (new ▸ resolved)]
      exact .inr .nil

theorem fits_standIn {name : String} {reason : ProblemReason} : e.Fits (.standIn name reason) where
  enclosing := by rintro _ ⟨⟩
  roles := by rintro _ ⟨⟩
  memberTypes := by rintro _ ⟨⟩ _ ⟨⟩
  typeVariables := by rintro _ ⟨⟩ _ ⟨⟩
  fields := by rintro _ ⟨⟩ _ ⟨⟩
  methods := by rintro _ ⟨⟩ _ ⟨⟩

theorem Scoped.update {f : Binding → Binding} (h : e.Scoped) (name : (f (e.binding b)).name = (e.binding b).name)
    (fits : e.Fits (f (e.binding b)))
    (lists : ∀ list, (f (e.binding b)).methods = .resolved list →
      (e.binding b).methods = .resolved list ∨ e.Distinct list) : e.Develops (e.update b f) := by
  have types : e.bindings.size ≤ (e.update b f).bindings.size := Nat.le_of_eq size_update.symm
  have widens : e.Widens (e.update b f) := .of_eq types (Nat.le_refl _) rfl rfl
  have preserves : e.Preserves (e.update b f) := by
    refine { Preserves.refl e with types := types, name := fun c _ => ?_, fields := widens.fields }
    rw [binding_update]
    split
    next here => rw [here.1, name]
    next => rfl
  refine ⟨preserves, ?_, fun c list resolved => ?_⟩
  · refine widens.closed h (fun c => ?_) (fun _ => .inl rfl) (fun _ => .inl rfl) (fun _ => .inl) fun _ => .inl
    rw [binding_update]
    split
    next here => exact .inr (here.1 ▸ widens.fits fits)
    next => exact .inl rfl
  · rw [binding_update] at resolved
    split at resolved
    next here =>
      rw [here.1] at resolved ⊢
      exact (lists list resolved).imp_right (preserves.distinct h (fits.methods list resolved))
    next => exact .inl resolved

theorem Scoped.bindName {name : String} (h : e.Scoped) (inside : e.HasType b) : e.Develops (e.bindName name b) := by
  have widens : e.Widens (e.bindName name b) := .of_eq (Nat.le_refl _) (Nat.le_refl _) rfl rfl
  refine { Preserves.refl e with fields := widens.fields, closed := ?_, lists := fun _ _ => .inl }
  refine widens.closed h (fun _ => .inl rfl) (fun _ => .inl rfl) (fun _ => .inl rfl) ?_ fun _ => .inl
  exact List.forall_mem_cons.2 ⟨.inr inside, fun _ => .inl⟩

def nameProblem (e : Env) (name : String) (reason : ProblemReason) (b : BindingId) : Env :=
  { e with problemBindings := ((name, reason), b) :: e.problemBindings }

theorem Scoped.nameProblem {name : String} {reason : ProblemReason} (h : e.Scoped) (inside : e.HasType b) :
    e.Develops (e.nameProblem name reason b) := by
  have widens : e.Widens (e.nameProblem name reason b) := .of_eq (Nat.le_refl _) (Nat.le_refl _) rfl rfl
  refine { Preserves.refl e with fields := widens.fields, closed := ?_, lists := fun _ _ => .inl }
  refine widens.closed h (fun _ => .inl rfl) (fun _ => .inl rfl) (fun _ => .inl rfl) (fun _ => .inl) ?_
  exact List.forall_mem_cons.2 ⟨.inr inside, fun _ => .inl⟩

theorem Scoped.addUnit {u : SourceUnit} (h : e.Scoped) (fits : e.FitsUnit u) :
    e.Develops { e with units := e.units.push u } := by
  have widens : e.Widens { e with units := e.units.push u } := .of_eq (Nat.le_refl _) (Nat.le_refl _) rfl rfl
  refine { Preserves.refl e with fields := widens.fields, closed := ?_, lists := fun _ _ => .inl }
  refine widens.closed h (fun _ => .inl rfl) (fun v => ?_) (fun _ => .inl rfl) (fun _ => .inl) fun _ => .inl
  rw [unit, getD_push]
  split
  · exact .inr (widens.fitsUnit fits)
  · exact .inl rfl

theorem Scoped.updateUnit {u : UnitId} {f : SourceUnit → SourceUnit} (h : e.Scoped)
    (fits : e.FitsUnit (f (e.unit u))) : e.Develops (e.updateUnit u f) := by
  have widens : e.Widens (e.updateUnit u f) := .of_eq (Nat.le_refl _) (Nat.le_refl _) rfl rfl
  refine { Preserves.refl e with fields := widens.fields, closed := ?_, lists := fun _ _ => .inl }
  refine widens.closed h (fun _ => .inl rfl) (fun v => ?_) (fun _ => .inl rfl) (fun _ => .inl) fun _ => .inl
  rw [unit_updateUnit]
  split
  next here => exact .inr (here.1 ▸ widens.fitsUnit fits)
  next => exact .inl rfl

def addTypeVar (e : Env) (v : TypeVar) : Env := { e with typeVars := e.typeVars.push v }

def updateTypeVar (e : Env) (v : TypeVarId) (f : TypeVar → TypeVar) : Env :=
  { e with typeVars := e.typeVars.modify v.index f }

theorem Scoped.addTypeVar {v : TypeVar} (h : e.Scoped) (fits : ∀ t ∈ v.bounds, e.Rooted t) :
    e.Develops (e.addTypeVar v) := by
  have vars : e.typeVars.size ≤ (e.addTypeVar v).typeVars.size := by simp [Env.addTypeVar]
  have widens : e.Widens (e.addTypeVar v) := .of_eq (Nat.le_refl _) vars rfl rfl
  refine { Preserves.refl e with
    vars := vars, bounds := fun w hw => ?_, fields := widens.fields, closed := ?_, lists := fun _ _ => .inl }
  · rw [typeVar, Env.addTypeVar, getD_push, if_neg (Nat.ne_of_lt hw), typeVar]
  · refine widens.closed h (fun _ => .inl rfl) (fun _ => .inl rfl) (fun w => ?_) (fun _ => .inl) fun _ => .inl
    rw [typeVar, Env.addTypeVar, getD_push]
    split
    · exact .inr fun t ht => widens.rooted (fits t ht)
    · exact .inl rfl

theorem Develops.updateTypeVar {v : TypeVarId} {bounds : List Ty} (h : e.Develops d)
    (lists : ∀ b list, (d.binding b).methods = .resolved list →
      (e.binding b).methods = .resolved list ∨ list = [])
    (new : e.typeVars.size ≤ v.index) (fits : ∀ t ∈ bounds, d.Rooted t) :
    e.Develops (d.updateTypeVar v ({ · with bounds })) := by
  have vars : d.typeVars.size ≤ (d.updateTypeVar v ({ · with bounds })).typeVars.size := by
    simp [Env.updateTypeVar]
  have widens : d.Widens (d.updateTypeVar v ({ · with bounds })) := .of_eq (Nat.le_refl _) vars rfl rfl
  refine { h with
    vars := Nat.le_trans h.vars vars, bounds := fun w hw => ?_
    fields := fun f hf => widens.fields f (h.fields f hf), closed := ?_, lists := fun b list resolved => ?_ }
  · rw [← h.bounds w hw, typeVar, Env.updateTypeVar, getD_modify, if_neg, typeVar]
    rintro ⟨same, -⟩
    exact Nat.lt_irrefl _ (Nat.lt_of_lt_of_le (same ▸ hw) new)
  · refine widens.closed h.closed (fun _ => .inl rfl) (fun _ => .inl rfl) (fun w => ?_) (fun _ => .inl)
      fun _ => .inl
    rw [typeVar, Env.updateTypeVar, getD_modify]
    split
    · exact .inr fun t ht => widens.rooted (fits t ht)
    · exact .inl rfl
  · refine (lists b list resolved).imp_right ?_
    rintro rfl
    exact .nil

theorem hasField_addField {f : Field} (fits : e.Rooted f.type) : (e.addField f).HasField ⟨e.fields.size⟩ := by
  refine ⟨by simp [addField], ?_⟩
  rw [field, addField, getD_push, if_pos rfl]
  exact fits.of_size_le (Nat.le_refl _) (Nat.le_refl _)

theorem Scoped.develops_of_fields (h : e.Scoped) {fields : Array Field}
    (kept : ∀ f, e.HasField f → HasField { e with fields } f) : e.Develops { e with fields } := by
  have widens : e.Widens { e with fields } := by
    refine ⟨Nat.le_refl _, Nat.le_refl _, kept, fun m hm => ⟨hm.inside, fun t ht => ?_, fun t ht => ?_⟩⟩
    · exact (hm.params t ht).of_size_le (Nat.le_refl _) (Nat.le_refl _)
    · exact (hm.woven t ht).of_size_le (Nat.le_refl _) (Nat.le_refl _)
  refine { Preserves.refl e with fields := kept, closed := ?_, lists := fun _ _ => .inl }
  exact widens.closed h (fun _ => .inl rfl) (fun _ => .inl rfl) (fun _ => .inl rfl) (fun _ => .inl) fun _ => .inl

theorem Scoped.addField {f : Field} (h : e.Scoped) : e.Develops (e.addField f) := by
  refine h.develops_of_fields fun i hi => ⟨?_, ?_⟩
  · rw [Array.size_push]
    exact Nat.lt_succ_of_lt hi.inside
  · rw [field, getD_push, if_neg (Nat.ne_of_lt hi.inside)]
    exact hi.type.of_size_le (Nat.le_refl _) (Nat.le_refl _)

theorem Scoped.updateField {i : FieldId} {f : Field → Field} (h : e.Scoped)
    (fits : e.HasField i → e.Rooted (f (e.field i)).type) : e.Develops (e.updateField i f) := by
  refine h.develops_of_fields fun j hj => ⟨?_, ?_⟩
  · rw [Array.size_modify]
    exact hj.inside
  · rw [field, getD_modify]
    split
    next here =>
      have same : j = i := congrArg FieldId.mk here.1
      subst same
      exact (fits hj).of_size_le (Nat.le_refl _) (Nat.le_refl _)
    next => exact hj.type.of_size_le (Nat.le_refl _) (Nat.le_refl _)

theorem Scoped.develops_of_methods (h : e.Scoped) {methods : Array Method} (size : e.methods.size ≤ methods.size)
    (fixed : ∀ m, m.index < e.methods.size → (method { e with methods } m).fixed = (e.method m).fixed) :
    e.Develops { e with methods } := by
  have fields (f : FieldId) (hf : e.HasField f) : HasField { e with methods } f :=
    ⟨hf.inside, hf.type.of_size_le (Nat.le_refl _) (Nat.le_refl _)⟩
  have widens : e.Widens { e with methods } := by
    refine ⟨Nat.le_refl _, Nat.le_refl _, fields, fun m hm => ?_⟩
    have declared := congrArg Method.declared (fixed m hm.inside)
    have woven := congrArg Method.woven (fixed m hm.inside)
    change (method { e with methods } m).declared = (e.method m).declared at declared
    change (method { e with methods } m).woven = (e.method m).woven at woven
    refine ⟨Nat.lt_of_lt_of_le hm.inside size, fun t ht => ?_, fun t ht => ?_⟩
    · exact (hm.params t (declared ▸ ht)).of_size_le (Nat.le_refl _) (Nat.le_refl _)
    · exact (hm.woven t (woven ▸ ht)).of_size_le (Nat.le_refl _) (Nat.le_refl _)
  refine { Preserves.refl e with
    fields := fields, size := size, fixed := fixed, closed := ?_, lists := fun _ _ => .inl }
  exact widens.closed h (fun _ => .inl rfl) (fun _ => .inl rfl) (fun _ => .inl rfl) (fun _ => .inl) fun _ => .inl

theorem Scoped.addMethod {x : Method} (h : e.Scoped) : e.Develops (e.addMethod x) := by
  refine h.develops_of_methods (by simp) fun m hm => ?_
  exact congrArg Method.fixed (method_addMethod_of_lt hm)

theorem Scoped.updateMethod {f : Method → Method} (h : e.Scoped)
    (fixed : (f (e.method m)).fixed = (e.method m).fixed) : e.Develops (e.updateMethod m f) :=
  h.develops_of_methods (by simp) fun _ _ => method_updateMethod_proj fixed

theorem hasMethod_addMethod {x : Method} (params : ∀ t ∈ x.declared.params, e.Rooted t)
    (woven : ∀ t ∈ x.woven.params, e.Rooted t) : (e.addMethod x).HasMethod e.nextMethod := by
  refine ⟨by simp [addMethod, nextMethod], ?_, ?_⟩
  all_goals rw [method_addMethod_self]
  · exact fun t ht => (params t ht).of_size_le (Nat.le_refl _) (Nat.le_refl _)
  · exact fun t ht => (woven t ht).of_size_le (Nat.le_refl _) (Nat.le_refl _)

end Env

end TeamRoles
