import TeamRoles.Proofs.Pairing.Reporting
import TeamRoles.Proofs.Session.Memo

/-!
Pairings: relations between environments that differ at most in how problems are weighed. A resolution
keeps a pairing if, run in both environments of a pair, it has the same outcome and leaves a pair. What a
pairing has to bear is what resolution does to an environment, change by change; all resolutions that
are made of such changes then keep it.
-/

namespace TeamRoles

namespace Binding

/-- The parts in which references to types are written have all been asked for. -/
structure Begun (x : Binding) : Prop where
  supertypes : x.supertypes ≠ .unresolved
  typeVariables : x.typeVariables ≠ .unresolved
  fields : x.fields ≠ .unresolved
  methods : x.methods ≠ .unresolved
  baseClass : x.baseClass ≠ .unresolved

theorem isSource_of_origin {x : Binding} {decl : TypeDecl} {unit : UnitId}
    (h : x.origin = .source decl unit) : x.isSource = true := by
  simp [isSource, unit?, h]

/-- A change that neither takes a part back nor says what the members of a type are. -/
structure Steady (f : Binding → Binding) : Prop where
  origin (x : Binding) : (f x).origin = x.origin
  team (x : Binding) : (f x).team = x.team
  memberTypes {x : Binding} {list : List BindingId} :
    (f x).memberTypes = .resolved list → x.memberTypes = .resolved list
  begun {x : Binding} : x.Begun → (f x).Begun

namespace Steady

theorem setSupertypes {s : Slot Supertypes} (h : s ≠ .unresolved) :
    Steady ({ · with supertypes := s }) :=
  ⟨fun _ => rfl, fun _ => rfl, id, fun begun => { begun with supertypes := h }⟩

theorem setTypeVariables {s : Slot (List TypeVarId)} (h : s ≠ .unresolved) :
    Steady ({ · with typeVariables := s }) :=
  ⟨fun _ => rfl, fun _ => rfl, id, fun begun => { begun with typeVariables := h }⟩

theorem setFields {s : Slot (List FieldId)} (h : s ≠ .unresolved) :
    Steady ({ · with fields := s }) :=
  ⟨fun _ => rfl, fun _ => rfl, id, fun begun => { begun with fields := h }⟩

theorem setMethods {s : Slot (List MethodId)} (h : s ≠ .unresolved) :
    Steady ({ · with methods := s }) :=
  ⟨fun _ => rfl, fun _ => rfl, id, fun begun => { begun with methods := h }⟩

theorem setBaseClass {s : Slot (Option Ty)} (h : s ≠ .unresolved) :
    Steady ({ · with baseClass := s }) :=
  ⟨fun _ => rfl, fun _ => rfl, id, fun begun => { begun with baseClass := h }⟩

theorem beginMemberTypes : Steady ({ · with memberTypes := .inProgress }) :=
  ⟨fun _ => rfl, fun _ => rfl, nofun, fun begun => { begun with }⟩

theorem markProblems : Steady ({ · with hierarchyHasProblems := true }) :=
  ⟨fun _ => rfl, fun _ => rfl, id, fun begun => { begun with }⟩

theorem setTsuperRoles {s : Slot (List BindingId)} :
    Steady fun x => { x with role := x.role.map ({ · with tsuperRoles := s }) } :=
  ⟨fun _ => rfl, fun _ => rfl, id, fun begun => { begun with }⟩

section Updates

variable {e : Env} {b c : BindingId} {f : Binding → Binding}

theorem origin_update (h : Steady f) : ((e.update b f).binding c).origin = (e.binding c).origin :=
  Env.binding_update_proj h.origin c

theorem isSource_update (h : Steady f) :
    ((e.update b f).binding c).isSource = (e.binding c).isSource := by
  rw [isSource, unit?, h.origin_update, isSource, unit?]

end Updates

end Steady

end Binding

/-- A change that does not say what a unit declares, and does not take back that it was verified. -/
structure SourceUnit.Steady (f : SourceUnit → SourceUnit) : Prop where
  types (u : SourceUnit) : (f u).types = u.types
  verified {u : SourceUnit} : u.baseImportsVerified = true → (f u).baseImportsVerified = true

/-- The methods that the mappings of a type name, each with the place of its mapping. -/
def TypeDecl.designators (decl : TypeDecl) : List (MethodSpec × Span) :=
  (decl.callins.flatMap fun d => (d.roleMethod :: d.baseMethods).map (·, d.span)) ++
    decl.callouts.flatMap fun d =>
      (d.roleMethod :: if d.kind = .method then [d.base] else []).map (·, d.span)

namespace Env

/-- The same units with the same types; what has been verified stays so. -/
structure SameUnits (e e' : Env) : Prop where
  added : e'.added = e.added
  size : e'.units.size = e.units.size
  types (u : UnitId) : (e'.unit u).types = (e.unit u).types
  verified {u : UnitId} : (e.unit u).baseImportsVerified = true →
    (e'.unit u).baseImportsVerified = true

theorem SameUnits.of_eq {e e' : Env} (h : e'.units = e.units) (added : e'.added = e.added) : e.SameUnits e' where
  added := added
  size := by rw [h]
  types u := by rw [unit, h, unit]
  verified := by simp only [unit, h, imp_self, implies_true]

theorem SameUnits.trans {e e' e'' : Env} (h : e.SameUnits e') (h' : e'.SameUnits e'') :
    e.SameUnits e'' where
  added := h'.added.trans h.added
  size := h'.size.trans h.size
  types u := (h'.types u).trans (h.types u)
  verified := fun verified => h'.verified (h.verified verified)

theorem sameUnits_updateUnit {e : Env} {u : UnitId} {f : SourceUnit → SourceUnit}
    (h : SourceUnit.Steady f) :
    e.SameUnits { e with units := e.units.modify u.index f } := by
  have changed (v : UnitId) :
      Env.unit { e with units := e.units.modify u.index f } v = f (e.unit v) ∨
      Env.unit { e with units := e.units.modify u.index f } v = e.unit v := by
    simp only [unit, Array.getElem?_modify]
    split
    · cases e.units[v.index]? with
      | none => exact .inr rfl
      | some x => exact .inl rfl
    · exact .inr rfl
  refine ⟨rfl, Array.size_modify, fun v => ?_, fun {v} verified => ?_⟩
  · rcases changed v with same | same
    · rw [same, h.types]
    · rw [same]
  · rcases changed v with same | same
    · rw [same]
      exact h.verified verified
    · rwa [same]

/-- A change of something else than types, problems and checks that are left for later. -/
structure Apart (g : Env → Env) : Prop where
  under (e : Env) (r : Reporting) : g (e.under r) = (g e).under r
  bindings (e : Env) : (g e).bindings = e.bindings
  boundChecks (e : Env) : (g e).boundChecks = e.boundChecks
  diagnostics (e : Env) : (g e).diagnostics = e.diagnostics

def core (e : Env) :
    Array Binding × Array SourceUnit × List BoundCheck × Diagnostics × Array Capture × List UnitId :=
  (e.bindings, e.units, e.boundChecks, e.diagnostics, e.captures, e.added)

section Core

variable {g : Env → Env}

theorem apart_of_core (under : ∀ e r, g (e.under r) = (g e).under r)
    (same : ∀ e, (g e).core = e.core) : Apart g where
  under := under
  bindings e := congrArg (·.1) (same e)
  boundChecks e := congrArg (·.2.2.1) (same e)
  diagnostics e := congrArg (·.2.2.2.1) (same e)

theorem captures_of_core (same : ∀ e, (g e).core = e.core) (e : Env) : (g e).captures = e.captures :=
  congrArg (·.2.2.2.2.1) (same e)

theorem sameUnits_of_core (same : ∀ e, (g e).core = e.core) (e : Env) : e.SameUnits (g e) :=
  .of_eq (congrArg (·.2.1) (same e)) (congrArg (·.2.2.2.2.2) (same e))

theorem apart_units {units : Env → Array SourceUnit} (same : ∀ e r, units (e.under r) = units e) :
    Apart fun e => { e with units := units e } := by
  refine ⟨fun e r => ?_, fun _ => rfl, fun _ => rfl, fun _ => rfl⟩
  rw [same]
  rfl

end Core

def report (e : Env) (file : Option String) (p : ProblemId) (span : Span)
    (arguments : List String) : Env :=
  { e with
    diagnostics := ((e.diagnostics.setFile file).report p span arguments).setFile
      e.diagnostics.currentFile }

end Env

structure Pairing where
  Pairs : Env → Env → Prop
  /-- Type arguments may be left for a later check at this place. -/
  Queues : UnitId → Span → Prop
  Builds : Prop
  Opens : Prop
  alike {e e' : Env} : Pairs e e' → e' = e ∨ ∃ r, e' = e.under r
  /-- Only where references can be left for later, a declared type has parts that nobody asked for. -/
  begun {e e' : Env} {b : BindingId} : Pairs e e' → b.index < e.bindings.size →
    (e.binding b).isSource = true → (e.binding b).Begun ∨ ∀ unit span, Queues unit span
  designator {e e' : Env} {role : BindingId} {decl : TypeDecl} {unit : UnitId} {spec : MethodSpec}
    {span : Span} : Pairs e e' → (e.binding role).origin = .source decl unit →
    (spec, span) ∈ decl.designators → spec.params.isSome = true → Queues unit span
  apart {e e' : Env} {g : Env → Env} : Env.Apart g → (∀ e, Env.SameUnits e (g e)) ∨ Builds →
    (∀ e, (g e).captures = e.captures) ∨ Opens → Pairs e e' → Pairs (g e) (g e')
  report {e e' : Env} {file : Option String} {p : ProblemId} {span : Span}
    {arguments : List String} : Pairs e e' →
    Pairs (e.report file p span arguments) (e'.report file p span arguments)
  update {e e' : Env} {b : BindingId} {f : Binding → Binding} : Binding.Steady f → Pairs e e' →
    Pairs (e.update b f) (e'.update b f)
  /-- The members of a team are those of its role files at least. -/
  members {e e' : Env} {b : BindingId} {list : List BindingId} : Pairs e e' →
    (∀ model ∈ (e.binding b).team, ∀ role ∈ model.roleFileRoles, role ∈ list) →
    Pairs (e.setSlot (.memberTypes b) (.resolved list)) (e'.setSlot (.memberTypes b) (.resolved list))
  add {e e' : Env} {x : Binding} : (x.isSource = true → Builds) → Pairs e e' →
    Pairs (e.addBinding x) (e'.addBinding x)
  attach {e e' : Env} {b : BindingId} {team : Option BindingId} : (e.binding b).team = none →
    Pairs e e' → Pairs (e.update b (·.attach team)) (e'.update b (·.attach team))
  roleFile {e e' : Env} {team : BindingId} {unit : UnitId} {roles : List BindingId} : Builds →
    Pairs e e' → Pairs (e.addRoleFile team unit roles) (e'.addRoleFile team unit roles)
  queue {e e' : Env} {t : Ty} {unit : UnitId} {span : Span} : Queues unit span → Pairs e e' →
    Pairs { e with boundChecks := e.boundChecks ++ [⟨t, unit, span⟩] }
      { e' with boundChecks := e'.boundChecks ++ [⟨t, unit, span⟩] }
  drain {e e' : Env} : Pairs e e' →
    Pairs { e with boundChecks := [] } { e' with boundChecks := [] }

namespace Pairing

variable (p : Pairing)

def Agree {α : Type} (x y : Except Abort α × Env) : Prop := y.1 = x.1 ∧ p.Pairs x.2 y.2

/-- The oracle gives the same answers in both environments of a pair. -/
def Trusts (o : Oracle) : Prop :=
  ∀ {α : Type} (q : Query α) (e e' : Env), p.Pairs e e' → p.Agree (o.ask q e) (o.ask q e')

def Holds (e : Env) : Prop := ∃ e', p.Pairs e e'

def QueuesAll : Prop := ∀ unit span, p.Queues unit span

variable {p}

theorem eq_of_pairs {α : Sort*} {e e' : Env} {f : Env → α} (h : p.Pairs e e')
    (same : ∀ e r, f (e.under r) = f e) : f e' = f e := by
  rcases p.alike h with rfl | ⟨r, rfl⟩
  · rfl
  · exact same e r

end Pairing

namespace Resolve

variable {α β σ : Type} {p : Pairing}

def Keeps (p : Pairing) (x : Resolve α) : Prop :=
  ∀ o, p.Trusts o → ∀ e e', p.Pairs e e' → p.Agree (x o e) (x o e')

def KeepsFrom (p : Pairing) (P : Env → Prop) (x : Resolve α) : Prop :=
  ∀ o, p.Trusts o → ∀ e e', p.Pairs e e' → P e → p.Agree (x o e) (x o e')

section Conditions

variable {P Q : Env → Prop} {x : Resolve α} {f : α → Resolve β}

theorem Keeps.under (h : Keeps p x) : KeepsFrom p P x := fun o ho e e' pairs _ => h o ho e e' pairs

theorem KeepsFrom.keeps (h : KeepsFrom p (fun _ => True) x) : Keeps p x :=
  fun o ho e e' pairs => h o ho e e' pairs trivial

theorem KeepsFrom.bind (hx : KeepsFrom p P x) (hf : ∀ a, Keeps p (f a)) :
    KeepsFrom p P (x >>= f) := by
  intro o ho e e' pairs he
  have agree := hx o ho e e' pairs he
  rcases first : x o e with ⟨outcome, d⟩
  rcases second : x o e' with ⟨outcome', d'⟩
  rw [first, second] at agree
  obtain ⟨same, paired⟩ := agree
  cases same
  cases outcome with
  | error cause =>
    rw [bind_apply_error first, bind_apply_error second]
    exact ⟨rfl, paired⟩
  | ok a =>
    rw [bind_apply_ok first, bind_apply_ok second]
    exact hf a o ho d d' paired

theorem KeepsFrom.get_bind {f : Env → Resolve β}
    (same : ∀ e r, f (e.under r) = f e) (h : ∀ e, p.Holds e → P e → KeepsFrom p (· = e) (f e)) :
    KeepsFrom p P (get >>= f) := by
  intro o ho e e' pairs he
  have agree : p.Agree (f e o e) (f e o e') := h e ⟨e', pairs⟩ he o ho e e' pairs rfl
  change p.Agree (f e o e) (f e' o e')
  rwa [Pairing.eq_of_pairs pairs same]

theorem KeepsFrom.modify_bind {g : Env → Env} {f : PUnit → Resolve β}
    (h : ∀ e e', P e → p.Pairs e e' → p.Pairs (g e) (g e')) (hf : KeepsFrom p Q (f ⟨⟩))
    (leaves : ∀ e, P e → Q (g e)) : KeepsFrom p P (modify g >>= f) :=
  fun o ho e e' pairs he => hf o ho (g e) (g e') (h e e' he pairs) (leaves e he)

theorem KeepsFrom.apart_bind {g : Env → Env} {f : PUnit → Resolve β}
    (under : ∀ e r, g (e.under r) = (g e).under r) (same : ∀ e, (g e).core = e.core)
    (hf : KeepsFrom p P (f ⟨⟩)) (stays : ∀ e, P e → P (g e)) : KeepsFrom p P (modify g >>= f) :=
  .modify_bind (fun _ _ _ => p.apart (Env.apart_of_core under same)
    (.inl (Env.sameUnits_of_core same)) (.inl (Env.captures_of_core same))) hf stays

end Conditions

namespace Keeps

variable {x : Resolve α} {f : α → Resolve β}

theorem pure {a : α} : Keeps p (pure a) := fun _ _ _ _ pairs => ⟨rfl, pairs⟩

theorem throw {cause : Abort} : Keeps p (throw cause : Resolve α) :=
  fun _ _ _ _ pairs => ⟨rfl, pairs⟩

theorem depth : Keeps p depth := fun _ _ _ _ pairs => ⟨rfl, pairs⟩

theorem ask {q : Query α} : Keeps p (ask q) := fun _ ho e e' pairs => ho q e e' pairs

theorem bind (hx : Keeps p x) (hf : ∀ a, Keeps p (f a)) : Keeps p (x >>= f) :=
  (hx.under.bind hf).keeps

theorem map {g : α → β} (hx : Keeps p x) : Keeps p (g <$> x) := hx.bind fun _ => pure

theorem discard (hx : Keeps p x) : Keeps p (discard x) := hx.map

theorem get_bind {f : Env → Resolve β} (same : ∀ e r, f (e.under r) = f e)
    (h : ∀ e, p.Holds e → Keeps p (f e)) : Keeps p (get >>= f) :=
  (KeepsFrom.get_bind same fun e holds _ => (h e holds).under).keeps

theorem modify {g : Env → Env} (h : ∀ e e', p.Pairs e e' → p.Pairs (g e) (g e')) :
    Keeps p (modify g) :=
  fun _ _ e e' pairs => ⟨rfl, h e e' pairs⟩

theorem modifyGet {g : Env → α × Env}
    (h : ∀ e e', p.Pairs e e' → (g e').1 = (g e).1 ∧ p.Pairs (g e).2 (g e').2) :
    Keeps p (modifyGet g) := by
  intro o _ e e' pairs
  obtain ⟨same, paired⟩ := h e e' pairs
  exact ⟨congrArg Except.ok same, paired⟩

theorem attempt (hx : Keeps p x) : Keeps p (attempt x) := by
  intro o ho e e' pairs
  obtain ⟨same, paired⟩ := hx o ho e e' pairs
  exact ⟨congrArg Except.ok same, paired⟩

theorem ite {c : Prop} [Decidable c] {y : Resolve α} (hx : Keeps p x) (hy : Keeps p y) :
    Keeps p (if c then x else y) := by
  split
  · exact hx
  · exact hy

theorem compositional : Compositional (Keeps p) where
  pure := pure
  bind := bind
  tooDeep := throw
  depth := depth

section Lists

variable {l : List α}

theorem forM {α : Type*} {l : List α} {f : α → Resolve PUnit} (hf : ∀ a ∈ l, Keeps p (f a)) : Keeps p (l.forM f) :=
  compositional.forM hf

theorem optionForM {o : Option α} {f : α → Resolve PUnit} (hf : ∀ a, Keeps p (f a)) : Keeps p (o.forM f) :=
  compositional.optionForM hf

theorem foldlM {f : σ → α → Resolve σ} (hf : ∀ s, ∀ a ∈ l, Keeps p (f s a)) (s : σ) : Keeps p (l.foldlM f s) :=
  compositional.foldlM hf s

theorem mapM {f : α → Resolve β} (hf : ∀ a ∈ l, Keeps p (f a)) : Keeps p (l.mapM f) := compositional.mapM hf

theorem filterMapM {f : α → Resolve (Option β)} (hf : ∀ a ∈ l, Keeps p (f a)) : Keeps p (l.filterMapM f) :=
  compositional.filterMapM hf

theorem findSomeM? {f : α → Resolve (Option β)} (hf : ∀ a ∈ l, Keeps p (f a)) : Keeps p (l.findSomeM? f) :=
  compositional.findSomeM? hf

end Lists

end Keeps

section Walks

variable [BEq α] {order : WalkOrder} {above : α → Resolve (List α)}
  {visit : σ → α → Resolve (Visit σ)}

theorem keeps_walk (hAbove : ∀ a, Keeps p (above a)) (start : List α) (found : σ)
    (hVisit : ∀ s a, Keeps p (visit s a)) : Keeps p (walk order above start found visit) :=
  Keeps.compositional.walk hAbove start found hVisit

end Walks

section Changes

variable {g : Env → Env} (under : ∀ e r, g (e.under r) = (g e).under r)
  (same : ∀ e, (g e).core = e.core)

include under same

theorem keeps_apart : Keeps p (modify g) :=
  .modify fun _ _ => p.apart (Env.apart_of_core under same) (.inl (Env.sameUnits_of_core same))
    (.inl (Env.captures_of_core same))

theorem keeps_place {place : Env → α} (read : ∀ e r, place (e.under r) = place e) :
    Keeps p (modifyGet fun e => (place e, g e)) :=
  .modifyGet fun _ _ pairs => ⟨Pairing.eq_of_pairs pairs read,
    p.apart (Env.apart_of_core under same) (.inl (Env.sameUnits_of_core same)) (.inl (Env.captures_of_core same))
      pairs⟩

end Changes

theorem keeps_addMethod {m : Method} : Keeps p (addMethod m) := by
  refine keeps_place (fun _ _ => ?_) (fun _ => ?_) fun _ _ => ?_ <;> rfl

theorem keeps_addField {f : Field} : Keeps p (addField f) := by
  refine keeps_place (fun _ _ => ?_) (fun _ => ?_) fun _ _ => ?_ <;> rfl

theorem keeps_addTypeVar {v : TypeVar} : Keeps p (addTypeVar v) := by
  refine keeps_place (fun _ _ => ?_) (fun _ => ?_) fun _ _ => ?_ <;> rfl

theorem keeps_addCapture (opens : p.Opens) {c : Capture} : Keeps p (addCapture c) :=
  .modifyGet fun _ _ pairs => ⟨Pairing.eq_of_pairs pairs (f := fun e => CaptureId.mk e.captures.size) fun _ _ => rfl,
    p.apart (g := fun e => { e with captures := e.captures.push c })
      ⟨fun _ _ => rfl, fun _ => rfl, fun _ => rfl, fun _ => rfl⟩ (.inl fun _ => .of_eq rfl rfl) (.inr opens) pairs⟩

theorem keeps_addMapping {m : Mapping} : Keeps p (addMapping m) := by
  refine keeps_place (fun _ _ => ?_) (fun _ => ?_) fun _ _ => ?_ <;> rfl

theorem keeps_addBinding {x : Binding} (h : x.isSource = true → p.Builds) :
    Keeps p (addBinding x) :=
  .modifyGet fun _ _ pairs =>
    ⟨Pairing.eq_of_pairs (f := Env.nextBinding) pairs fun _ _ => rfl, p.add h pairs⟩

theorem keeps_addBinding_bind {x : Binding} {f : BindingId → Resolve β}
    (h : x.isSource = true → p.Builds) (hf : ∀ b, KeepsFrom p (fun e => e.binding b = x) (f b)) :
    Keeps p (addBinding x >>= f) := by
  intro o ho e e' pairs
  have same : e'.nextBinding = e.nextBinding := Pairing.eq_of_pairs pairs fun _ _ => rfl
  have added (d : Env) : addBinding x o d = (.ok d.nextBinding, d.addBinding x) := rfl
  rw [bind_apply_ok (added e), bind_apply_ok (added e'), same]
  exact hf e.nextBinding o ho _ _ (p.add h pairs) Env.binding_addBinding_self

theorem keeps_updateMethod {m : MethodId} {f : Method → Method} : Keeps p (updateMethod m f) :=
  keeps_apart (fun _ _ => rfl) fun _ => rfl

theorem keeps_updateField {i : FieldId} {f : Field → Field} : Keeps p (updateField i f) :=
  keeps_apart (fun _ _ => rfl) fun _ => rfl

theorem keeps_updateTypeVar {v : TypeVarId} {f : TypeVar → TypeVar} :
    Keeps p (updateTypeVar v f) :=
  keeps_apart (fun _ _ => rfl) fun _ => rfl

theorem keeps_updateUnit {u : UnitId} {f : SourceUnit → SourceUnit}
    (h : SourceUnit.Steady f) : Keeps p (updateUnit u f) :=
  .modify fun _ _ => p.apart (Env.apart_units fun _ _ => rfl)
    (.inl fun _ => Env.sameUnits_updateUnit h) (.inl fun _ => rfl)

theorem keeps_updateBinding {b : BindingId} {f : Binding → Binding} (h : Binding.Steady f) :
    Keeps p (updateBinding b f) :=
  .modify fun _ _ => p.update h

theorem keeps_updateBinding_bind {b : BindingId} {f : Binding → Binding} {g : Unit → Resolve β}
    {P Q : Env → Prop} (h : Binding.Steady f) (hg : KeepsFrom p Q (g ()))
    (leaves : ∀ e, P e → Q (e.update b f)) : KeepsFrom p P (updateBinding b f >>= g) :=
  fun o ho e _ pairs he => hg o ho _ _ (p.update h pairs) (leaves e he)

theorem keeps_bindName {name : String} {b : BindingId} : Keeps p (bindName name b) :=
  keeps_apart (fun _ _ => rfl) fun _ => rfl

theorem keeps_reportInFile {file : Option String} {id : ProblemId} {span : Span}
    {arguments : List String} : Keeps p (reportInFile file id span arguments) :=
  .modify fun _ _ => p.report

theorem keeps_reportInUnit {unit : UnitId} {id : ProblemId} {span : Span}
    {arguments : List String} : Keeps p (reportInUnit unit id span arguments) :=
  .get_bind (fun _ _ => rfl) fun _ _ => keeps_reportInFile

theorem keeps_reportFor {b : BindingId} {id : ProblemId} {span : Span} {arguments : List String} :
    Keeps p (reportFor b id span arguments) :=
  .get_bind (fun _ _ => rfl) fun _ _ => keeps_reportInFile

theorem keeps_reentrant {b : BindingId} {c : Component} : Keeps p (reentrant b c : Resolve α) :=
  .get_bind (fun _ _ => rfl) fun _ _ => .throw

theorem known_bind_outside {o : Oracle} {e : Env} {b : BindingId} {f : Binding → Resolve β}
    (outside : e.bindings.size ≤ b.index) : (known b >>= f) o e =
      (.error (.internal ("no type has the number " ++ b.index.repr)), e) := by
  refine bind_apply_error ?_
  change (if e.bindings.size ≤ b.index then _ else _ : Resolve Binding) o e = _
  rw [if_pos outside]
  rfl

theorem keeps_known_bind_from {b : BindingId} {f : Binding → Resolve β}
    (h : ∀ x, (x.isSource = true → x.Begun ∨ p.QueuesAll) →
      KeepsFrom p (fun e => e.binding b = x) (f x)) : Keeps p (known b >>= f) := by
  intro o ho e e' pairs
  have bindings : e'.bindings = e.bindings := Pairing.eq_of_pairs pairs fun _ _ => rfl
  have binding : e'.binding b = e.binding b := by rw [Env.binding, bindings, Env.binding]
  rcases Nat.lt_or_ge b.index e.bindings.size with inside | outside
  · rw [known_bind_apply inside, known_bind_apply (by rwa [bindings]), binding]
    exact h (e.binding b) (p.begun pairs inside) o ho e e' pairs rfl
  · rw [known_bind_outside outside, known_bind_outside (by rwa [bindings])]
    exact ⟨rfl, pairs⟩

theorem keeps_known_bind {b : BindingId} {f : Binding → Resolve β}
    (h : ∀ x, (x.isSource = true → x.Begun ∨ p.QueuesAll) → Keeps p (f x)) :
    Keeps p (known b >>= f) :=
  keeps_known_bind_from fun x ready => (h x ready).under

theorem keeps_knownUnit {u : UnitId} : Keeps p (knownUnit u) :=
  .get_bind (fun _ _ => rfl) fun _ _ => .ite .throw .pure

theorem keeps_problemBinding {name : String} {reason : ProblemReason} :
    Keeps p (problemBinding name reason) := by
  refine .get_bind (fun _ _ => rfl) fun e _ => ?_
  split
  · exact .pure
  · refine (keeps_addBinding (by simp [Binding.isSource, Binding.unit?])).bind fun _ => ?_
    exact .bind (keeps_apart (fun _ _ => rfl) fun _ => rfl) fun _ => .pure

theorem keeps_problemType {name : String} {reason : ProblemReason} :
    Keeps p (problemType name reason) :=
  keeps_problemBinding.bind fun _ => .pure

theorem keeps_findTypeOrProblem {name : String} : Keeps p (findTypeOrProblem name) := by
  refine Keeps.ask.bind fun found => ?_
  cases found with
  | some b => exact .pure
  | none => exact keeps_problemBinding

theorem keeps_wellKnown {name : WellKnownNames → String} : Keeps p (wellKnown name) :=
  .get_bind (fun _ _ => rfl) fun _ _ => keeps_findTypeOrProblem

theorem keeps_wellKnownType {name : WellKnownNames → String} : Keeps p (wellKnownType name) :=
  keeps_wellKnown.bind fun _ => .pure

theorem keeps_objectType : Keeps p objectType := keeps_wellKnownType

end Resolve

end TeamRoles
