import TeamRoles.Proofs.Env.Methods
import TeamRoles.Proofs.Pairing.Reporting

/-!
Types in scope. Whatever an environment has stored, and types are compared by, refers to types, variables and
members that are there. As a variable that is there keeps its bounds, such a type erases to the same whatever
else is resolved.
-/

namespace TeamRoles

namespace Env

variable {e d : Env} {t : Ty} {m n : MethodId} {list : List MethodId}

def erasedParams (e : Env) (m : MethodId) : List ErasedType :=
  (e.method m).declared.params.map (e.erasedKey erasureDepth)

theorem sameErasure_eq_true_iff {a b : Ty} :
    e.sameErasure a b = true ↔ e.erasedKey erasureDepth a = e.erasedKey erasureDepth b := by
  simp only [sameErasure, Bool.or_eq_true, beq_iff_eq, or_iff_right_iff_imp]
  exact congrArg _

theorem sameErasures_eq_true_iff {as bs : List Ty} :
    e.sameErasures as bs = true ↔ as.map (e.erasedKey erasureDepth) = bs.map (e.erasedKey erasureDepth) := by
  rw [sameErasures]
  induction as generalizing bs with
  | nil => cases bs <;> simp
  | cons a as ih =>
    cases bs with
    | nil => simp
    | cons b bs =>
      rw [List.map_cons, List.map_cons, List.cons.injEq, ← ih, ← sameErasure_eq_true_iff]
      simp [and_left_comm]

theorem sameParameters_eq_true_iff : e.sameParameters m n = true ↔ e.erasedParams m = e.erasedParams n :=
  sameErasures_eq_true_iff

/-- No method that is written has the name and the erased parameters of one before it. -/
def Distinct (e : Env) (list : List MethodId) : Prop :=
  list.Pairwise fun m n => (e.method n).isSource = true → (e.method m).name = (e.method n).name →
    e.erasedParams m ≠ e.erasedParams n

def HasType (e : Env) (b : BindingId) : Prop := b.index < e.bindings.size

def HasVar (e : Env) (v : TypeVarId) : Prop := v.index < e.typeVars.size

/-- All that the erasure of the type rests on is there. -/
def Rooted (e : Env) : Ty → Prop
  | .declared b => e.HasType b
  | .variable v => e.HasVar v
  | .wildcard _ (some bound) => e.Rooted bound
  | .captured _ => False
  | .array component => e.Rooted component
  | .anchored role _ => e.Rooted role
  | _ => True

structure HasField (e : Env) (f : FieldId) : Prop where
  inside : f.index < e.fields.size
  type : e.Rooted (e.field f).type

structure HasMethod (e : Env) (m : MethodId) : Prop where
  inside : m.index < e.methods.size
  params : ∀ t ∈ (e.method m).declared.params, e.Rooted t
  woven : ∀ t ∈ (e.method m).woven.params, e.Rooted t

structure HasImports (e : Env) (i : Imports) : Prop where
  single : ∀ entry ∈ i.single, e.HasType entry.2
  base : ∀ b ∈ i.base, e.HasType b.binding

theorem hasImports_empty : e.HasImports {} := ⟨List.forall_mem_nil _, List.forall_mem_nil _⟩

structure Fits (e : Env) (x : Binding) : Prop where
  enclosing : ∀ b ∈ x.enclosing, e.HasType b
  roles : ∀ model ∈ x.team, ∀ r ∈ model.roleFileRoles, e.HasType r
  memberTypes : ∀ list, x.memberTypes = .resolved list → ∀ b ∈ list, e.HasType b
  typeVariables : ∀ list, x.typeVariables = .resolved list → ∀ v ∈ list, e.HasVar v
  fields : ∀ list, x.fields = .resolved list → ∀ f ∈ list, e.HasField f
  methods : ∀ list, x.methods = .resolved list → ∀ m ∈ list, e.HasMethod m

structure FitsUnit (e : Env) (u : SourceUnit) : Prop where
  types : ∀ b ∈ u.types, e.HasType b
  imports : ∀ i, u.imports = .resolved i → e.HasImports i

structure Scoped (e : Env) : Prop where
  bindings : ∀ b, e.Fits (e.binding b)
  units : ∀ u, e.FitsUnit (e.unit u)
  bounds : ∀ v, ∀ t ∈ (e.typeVar v).bounds, e.Rooted t
  byName : ∀ entry ∈ e.byName, e.HasType entry.2
  problems : ∀ entry ∈ e.problemBindings, e.HasType entry.2

structure Widens (e d : Env) : Prop where
  types : e.bindings.size ≤ d.bindings.size
  vars : e.typeVars.size ≤ d.typeVars.size
  fields : ∀ f, e.HasField f → d.HasField f
  methods : ∀ m, e.HasMethod m → d.HasMethod m

theorem Rooted.of_size_le (h : e.Rooted t) (types : e.bindings.size ≤ d.bindings.size)
    (vars : e.typeVars.size ≤ d.typeVars.size) : d.Rooted t := by
  fun_induction Rooted e t with
  | case1 b => exact Nat.lt_of_lt_of_le h types
  | case2 v => exact Nat.lt_of_lt_of_le h vars
  | case3 kind bound ih => exact ih h
  | case4 => exact h.elim
  | case5 component ih => exact ih h
  | case6 role path ih => exact ih h
  | case7 t => unfold Rooted; split <;> simp_all

namespace Widens

theorem hasType {b : BindingId} (w : e.Widens d) (h : e.HasType b) : d.HasType b :=
  Nat.lt_of_lt_of_le h w.types

theorem hasVar {v : TypeVarId} (w : e.Widens d) (h : e.HasVar v) : d.HasVar v :=
  Nat.lt_of_lt_of_le h w.vars

theorem rooted (w : e.Widens d) (h : e.Rooted t) : d.Rooted t := h.of_size_le w.types w.vars

theorem hasImports {i : Imports} (w : e.Widens d) (h : e.HasImports i) : d.HasImports i :=
  ⟨fun entry he => w.hasType (h.single entry he), fun b hb => w.hasType (h.base b hb)⟩

theorem fits {x : Binding} (w : e.Widens d) (h : e.Fits x) : d.Fits x where
  enclosing b hb := w.hasType (h.enclosing b hb)
  roles model hm r hr := w.hasType (h.roles model hm r hr)
  memberTypes list hl b hb := w.hasType (h.memberTypes list hl b hb)
  typeVariables list hl v hv := w.hasVar (h.typeVariables list hl v hv)
  fields list hl f hf := w.fields f (h.fields list hl f hf)
  methods list hl m hm := w.methods m (h.methods list hl m hm)

theorem fitsUnit {u : SourceUnit} (w : e.Widens d) (h : e.FitsUnit u) : d.FitsUnit u :=
  ⟨fun b hb => w.hasType (h.types b hb), fun i hi => w.hasImports (h.imports i hi)⟩

theorem closed (w : e.Widens d) (h : e.Scoped) (bindings : ∀ b, d.binding b = e.binding b ∨ d.Fits (d.binding b))
    (units : ∀ u, d.unit u = e.unit u ∨ d.FitsUnit (d.unit u))
    (bounds : ∀ v, d.typeVar v = e.typeVar v ∨ ∀ t ∈ (d.typeVar v).bounds, d.Rooted t)
    (byName : ∀ entry ∈ d.byName, entry ∈ e.byName ∨ d.HasType entry.2)
    (problems : ∀ entry ∈ d.problemBindings, entry ∈ e.problemBindings ∨ d.HasType entry.2) : d.Scoped where
  bindings b := (bindings b).elim (fun same => same ▸ w.fits (h.bindings b)) id
  units u := (units u).elim (fun same => same ▸ w.fitsUnit (h.units u)) id
  bounds v := (bounds v).elim (fun same t ht => w.rooted (h.bounds v t (same ▸ ht))) id
  byName entry he := (byName entry he).elim (fun old => w.hasType (h.byName entry old)) id
  problems entry he := (problems entry he).elim (fun old => w.hasType (h.problems entry old)) id

end Widens

/-- What was there keeps its name, its bounds and its signature. -/
structure Preserves (e d : Env) : Prop where
  options : d.options = e.options
  types : e.bindings.size ≤ d.bindings.size
  name : ∀ b, e.HasType b → (d.binding b).name = (e.binding b).name
  vars : e.typeVars.size ≤ d.typeVars.size
  bounds : ∀ v, e.HasVar v → (d.typeVar v).bounds = (e.typeVar v).bounds
  fields : ∀ f, e.HasField f → d.HasField f
  size : e.methods.size ≤ d.methods.size
  fixed : ∀ m, m.index < e.methods.size → (d.method m).fixed = (e.method m).fixed

namespace Preserves

theorem refl (e : Env) : e.Preserves e :=
  ⟨rfl, Nat.le_refl _, fun _ _ => rfl, Nat.le_refl _, fun _ _ => rfl, fun _ => id, Nat.le_refl _, fun _ _ => rfl⟩

theorem proj_eq {α : Type} {g : Method → α} (h : e.Preserves d) (inside : m.index < e.methods.size)
    (fixed : ∀ x, g (Method.fixed x) = g x) : g (d.method m) = g (e.method m) := by
  rw [← fixed, h.fixed m inside, fixed]

theorem widens (h : e.Preserves d) : e.Widens d where
  types := h.types
  vars := h.vars
  fields := h.fields
  methods m hm := by
    have declared := h.proj_eq (g := Method.declared) hm.inside fun _ => rfl
    have woven := h.proj_eq (g := Method.woven) hm.inside fun _ => rfl
    refine ⟨Nat.lt_of_lt_of_le hm.inside h.size, fun t ht => ?_, fun t ht => ?_⟩
    · exact (hm.params t (declared ▸ ht)).of_size_le h.types h.vars
    · exact (hm.woven t (woven ▸ ht)).of_size_le h.types h.vars

theorem erasedKey_eq (h : e.Preserves d) (closed : e.Scoped) {steps : Nat} (rooted : e.Rooted t) :
    d.erasedKey steps t = e.erasedKey steps t := by
  fun_induction erasedKey e steps t with
  | case1 => rfl
  | case2 => rfl
  | case3 => rfl
  | case4 steps b isObject =>
    rw [erasedKey, if_pos]
    rwa [Env.isObject, h.name b rooted, h.options]
  | case5 steps b other =>
    rw [erasedKey, if_neg]
    rwa [Env.isObject, h.name b rooted, h.options]
  | case6 => rfl
  | case7 => rfl
  | case8 steps v bound first ih =>
    rw [erasedKey, h.bounds v rooted, first]
    exact ih (closed.bounds v bound (List.mem_of_head? first))
  | case9 steps v none => rw [erasedKey, h.bounds v rooted, none]
  | case10 steps bound ih =>
    rw [erasedKey]
    exact ih rooted
  | case11 => simp_all [erasedKey]
  | case12 => exact rooted.elim
  | case13 steps component ih => rw [erasedKey, ih rooted]
  | case14 steps role path ih =>
    rw [erasedKey]
    exact ih rooted

theorem erasedParams_eq (h : e.Preserves d) (closed : e.Scoped) (hm : e.HasMethod m) :
    d.erasedParams m = e.erasedParams m := by
  rw [erasedParams, h.proj_eq (g := Method.declared) hm.inside fun _ => rfl, erasedParams]
  exact List.map_congr_left fun t ht => h.erasedKey_eq closed (hm.params t ht)

theorem distinct (h : e.Preserves d) (closed : e.Scoped) (listed : ∀ m ∈ list, e.HasMethod m)
    (differ : e.Distinct list) : d.Distinct list := by
  refine differ.imp_of_mem fun {m n} hm hn differ => ?_
  have name (m : MethodId) (hm : m ∈ list) := h.proj_eq (g := Method.name) (listed m hm).inside fun _ => rfl
  rw [h.proj_eq (g := Method.isSource) (listed n hn).inside fun _ => rfl, name m hm, name n hn,
    h.erasedParams_eq closed (listed m hm), h.erasedParams_eq closed (listed n hn)]
  exact differ

theorem trans {c : Env} (h : e.Preserves d) (h' : d.Preserves c) : e.Preserves c where
  options := h'.options.trans h.options
  types := Nat.le_trans h.types h'.types
  name b hb := (h'.name b (h.widens.hasType hb)).trans (h.name b hb)
  vars := Nat.le_trans h.vars h'.vars
  bounds v hv := (h'.bounds v (h.widens.hasVar hv)).trans (h.bounds v hv)
  fields f hf := h'.fields f (h.fields f hf)
  size := Nat.le_trans h.size h'.size
  fixed m hm := (h'.fixed m (Nat.lt_of_lt_of_le hm h.size)).trans (h.fixed m hm)

end Preserves

structure Develops (e d : Env) : Prop extends Preserves e d where
  closed : d.Scoped
  /-- Methods that are made part of a type are told apart. -/
  lists : ∀ b list, (d.binding b).methods = .resolved list →
    (e.binding b).methods = .resolved list ∨ d.Distinct list

namespace Develops

theorem refl (h : e.Scoped) : e.Develops e := ⟨.refl e, h, fun _ _ => .inl⟩

theorem hasType {b : BindingId} (h : e.Develops d) : e.HasType b → d.HasType b := h.widens.hasType

theorem hasVar {v : TypeVarId} (h : e.Develops d) : e.HasVar v → d.HasVar v := h.widens.hasVar

theorem rooted (h : e.Develops d) : e.Rooted t → d.Rooted t := h.widens.rooted

theorem hasMethod (h : e.Develops d) : e.HasMethod m → d.HasMethod m := h.widens.methods m

theorem trans {c : Env} (h : e.Develops d) (h' : d.Develops c) : e.Develops c where
  toPreserves := h.toPreserves.trans h'.toPreserves
  closed := h'.closed
  lists b list resolved := by
    rcases h'.lists b list resolved with known | differ
    · refine (h.lists b list known).imp_right ?_
      exact h'.distinct h.closed ((h.closed.bindings b).methods list known)
    · exact .inr differ

end Develops

end Env

end TeamRoles
