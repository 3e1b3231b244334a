import Mathlib.Logic.Relation
import TeamRoles.Hierarchy.Search

/-!
How resolution changes an environment, as far as names and supertypes are concerned. The relation
follows the nesting of resolutions: the supertypes of a type are in progress while they are resolved,
and no resolution inside can end that.
-/

namespace TeamRoles

/-- What a binding is called, where it comes from and what lies above it. -/
structure Binding.SameHead (x y : Binding) : Prop where
  name : y.name = x.name
  origin : y.origin = x.origin
  supertypes : y.supertypes = x.supertypes

namespace Env

def Above (e : Env) (b c : BindingId) : Prop :=
  ∃ s, (e.binding b).supertypes = .resolved s ∧ c ∈ s.bindings

/-- A type shows its supertypes, or none while they are being resolved. -/
inductive Shows (e : Env) (b : BindingId) : Supertypes → Prop
  | resolved {s : Supertypes} : (e.binding b).supertypes = .resolved s → Shows e b s
  | inProgress : (e.binding b).supertypes = .inProgress → Shows e b {}

/-- Nothing above `c` is `b`, and all of it is resolved or in progress. -/
def Clear (e : Env) (b c : BindingId) : Prop :=
  ∀ d, Relation.ReflTransGen e.Above c d → d ≠ b ∧ ∃ s, e.Shows d s

def Named (e : Env) (name : String) (b : BindingId) : Prop :=
  b.index < e.bindings.size ∧ (e.binding b).name = name

def Denotes (e : Env) (name : String) (b : BindingId) : Prop :=
  (name, b) ∈ e.byName ∨ ∃ d, e.provider.find name = .ok (some d) ∧ (d.name, b) ∈ e.byName

def StandsFor (e : Env) (name : String) (b : BindingId) : Prop :=
  ∃ reason, ((name, reason), b) ∈ e.problemBindings

inductive Admits (e : Env) (b c : BindingId) : Prop
  | problem : (e.binding c).isProblem = true → Admits e b c
  | root : e.Denotes e.options.wellKnown.object c → Admits e b c
  | rootProblem : e.StandsFor e.options.wellKnown.object c → Admits e b c
  | clear : e.Clear b c → Admits e b c

def Keeps (e : Env) (b : BindingId) (t : Ty) : Prop := ∃ c, bindingOf? t = some c ∧ e.Admits b c

inductive MayBind (e : Env) (name : String) (b : BindingId) : Prop
  | named : e.Named name b → MayBind e name b
  | problem : e.StandsFor name b → MayBind e name b
  | otherName (d : Descriptor) : e.provider.find name = .ok (some d) → d.name ≠ name →
    (d.name, b) ∈ e.byName → MayBind e name b

def update (e : Env) (b : BindingId) (f : Binding → Binding) : Env :=
  { e with bindings := e.bindings.modify b.index f }

def setSupertypes (e : Env) (b : BindingId) (slot : Slot Supertypes) : Env :=
  e.update b ({ · with supertypes := slot })

def addBinding (e : Env) (x : Binding) : Env := { e with bindings := e.bindings.push x }

def addProblem (e : Env) (x : Binding) (name : String) (reason : ProblemReason) : Env :=
  { e.addBinding x with problemBindings := ((name, reason), e.nextBinding) :: e.problemBindings }

def bindName (e : Env) (name : String) (b : BindingId) : Env :=
  { e with byName := (name, b) :: e.byName }

structure SameHierarchy (e e' : Env) : Prop where
  options : e'.options = e.options
  provider : e'.provider = e.provider
  size : e'.bindings.size = e.bindings.size
  binding : ∀ b, (e.binding b).SameHead (e'.binding b)
  byName : e'.byName = e.byName
  problems : e'.problemBindings = e.problemBindings

/-- What a resolution makes of an environment, whether or not it is aborted. -/
inductive Evolves : Env → Env → Prop
  | refl (e : Env) : Evolves e e
  | trans {e e' e'' : Env} : Evolves e e' → Evolves e' e'' → Evolves e e''
  | quiet {e e' : Env} : e.SameHierarchy e' → Evolves e e'
  | add {e : Env} {x : Binding} : x.isProblem = false → x.supertypes = .unresolved →
    Evolves e (e.addBinding x)
  | problem {e : Env} {x : Binding} {reason : ProblemReason} : x.origin = .problem reason →
    x.supertypes = .resolved {} → Evolves e (e.addProblem x x.name reason)
  | bind {e : Env} {name : String} {b : BindingId} : e.MayBind name b →
    Evolves e (e.bindName name b)
  | supertypes {e e' : Env} {b : BindingId} {s : Supertypes} : b.index < e.bindings.size →
    (e.binding b).supertypes = .unresolved → Evolves (e.setSupertypes b .inProgress) e' →
    (∀ c ∈ s.bindings, e'.Admits b c) → Evolves e (e'.setSupertypes b (.resolved s))
  | abort {e e' : Env} {b : BindingId} : b.index < e.bindings.size →
    (e.binding b).supertypes = .unresolved → Evolves (e.setSupertypes b .inProgress) e' →
    Evolves e e'

section Bindings

variable {e : Env} {b c : BindingId} {x : Binding} {f : Binding → Binding} {slot : Slot Supertypes}

theorem binding_of_size_le (h : e.bindings.size ≤ b.index) : e.binding b = default := by
  rw [binding, Array.getElem?_eq_none h]
  rfl

theorem binding_addBinding_self : (e.addBinding x).binding e.nextBinding = x := by
  simp [binding, addBinding, nextBinding]

theorem binding_addBinding_of_ne (h : b ≠ e.nextBinding) :
    (e.addBinding x).binding b = e.binding b := by
  have index : b.index ≠ e.bindings.size := by
    intro same
    exact h (by cases b; cases same; rfl)
  simp [binding, addBinding, Array.getElem?_push, index]

theorem named_addBinding : (e.addBinding x).Named x.name e.nextBinding := by
  refine ⟨by simp [addBinding, nextBinding], ?_⟩
  rw [binding_addBinding_self]

theorem binding_update_self (h : b.index < e.bindings.size) :
    (e.update b f).binding b = f (e.binding b) := by
  rw [binding, binding, update, Array.getElem?_modify, if_pos rfl, Array.getElem?_eq_getElem h]
  rfl

theorem binding_update_of_ne (h : c ≠ b) : (e.update b f).binding c = e.binding c := by
  have index : b.index ≠ c.index := by
    intro same
    exact h (by cases b; cases c; cases same; rfl)
  rw [binding, binding, update, Array.getElem?_modify, if_neg index]

theorem size_update : (e.update b f).bindings.size = e.bindings.size := Array.size_modify

theorem binding_update_proj {α : Type} {g : Binding → α} (h : ∀ x, g (f x) = g x) (c : BindingId) :
    g ((e.update b f).binding c) = g (e.binding c) := by
  by_cases same : c = b
  · subst same
    by_cases inside : c.index < e.bindings.size
    · rw [binding_update_self inside, h]
    · have outside := Nat.le_of_not_lt inside
      rw [binding_of_size_le outside, binding_of_size_le (Nat.le_trans (Nat.le_of_eq size_update) outside)]
  · rw [binding_update_of_ne same]

theorem sameHierarchy_update (h : ∀ x : Binding, x.SameHead (f x)) :
    e.SameHierarchy (e.update b f) where
  options := rfl
  provider := rfl
  size := size_update
  binding c :=
    ⟨binding_update_proj (fun x => (h x).name) c, binding_update_proj (fun x => (h x).origin) c,
      binding_update_proj (fun x => (h x).supertypes) c⟩
  byName := rfl
  problems := rfl

theorem name_setSupertypes : ((e.setSupertypes b slot).binding c).name = (e.binding c).name :=
  binding_update_proj (f := ({ · with supertypes := slot })) (g := Binding.name) (fun _ => rfl) c

theorem origin_setSupertypes :
    ((e.setSupertypes b slot).binding c).origin = (e.binding c).origin :=
  binding_update_proj (f := ({ · with supertypes := slot })) (g := Binding.origin) (fun _ => rfl) c

theorem supertypes_setSupertypes_self (h : b.index < e.bindings.size) :
    ((e.setSupertypes b slot).binding b).supertypes = slot := by
  rw [setSupertypes, binding_update_self h]

theorem supertypes_setSupertypes_of_ne (h : c ≠ b) :
    ((e.setSupertypes b slot).binding c).supertypes = (e.binding c).supertypes := by
  rw [setSupertypes, binding_update_of_ne h]

end Bindings

/-- The part of an environment that the hierarchy is read off. -/
def hierarchy (e : Env) :=
  (e.options, e.provider, e.bindings, e.byName, e.problemBindings)

theorem sameHierarchy_of_eq {e e' : Env} (h : e'.hierarchy = e.hierarchy) :
    e.SameHierarchy e' := by
  obtain ⟨options, provider, bindings, byName, problems⟩ :
      e'.options = e.options ∧ e'.provider = e.provider ∧ e'.bindings = e.bindings ∧
        e'.byName = e.byName ∧ e'.problemBindings = e.problemBindings := by
    simpa only [hierarchy, Prod.mk.injEq] using h
  refine ⟨options, provider, congrArg Array.size bindings, fun b => ?_, byName, problems⟩
  have same : e'.binding b = e.binding b := by
    rw [Env.binding, bindings, Env.binding]
  rw [same]
  exact ⟨rfl, rfl, rfl⟩

structure Extends (e e' : Env) : Prop where
  options : e'.options = e.options
  provider : e'.provider = e.provider
  size : e.bindings.size ≤ e'.bindings.size
  name : ∀ b, b.index < e.bindings.size → (e'.binding b).name = (e.binding b).name
  origin : ∀ b, b.index < e.bindings.size → (e'.binding b).origin = (e.binding b).origin
  supertypes : ∀ b, (e.binding b).supertypes ≠ .unresolved →
    (e'.binding b).supertypes = (e.binding b).supertypes
  byName : ∀ entry ∈ e.byName, entry ∈ e'.byName
  problems : ∀ entry ∈ e.problemBindings, entry ∈ e'.problemBindings

theorem Extends.refl (e : Env) : e.Extends e := by
  constructor <;> simp

theorem Extends.trans {e e' e'' : Env} (h : e.Extends e') (h' : e'.Extends e'') :
    e.Extends e'' where
  options := h'.options.trans h.options
  provider := h'.provider.trans h.provider
  size := Nat.le_trans h.size h'.size
  name b hb := (h'.name b (Nat.lt_of_lt_of_le hb h.size)).trans (h.name b hb)
  origin b hb := (h'.origin b (Nat.lt_of_lt_of_le hb h.size)).trans (h.origin b hb)
  supertypes b hb := by
    rw [h'.supertypes b (by rwa [h.supertypes b hb]), h.supertypes b hb]
  byName entry he := h'.byName entry (h.byName entry he)
  problems entry he := h'.problems entry (h.problems entry he)

theorem SameHierarchy.extends {e e' : Env} (h : e.SameHierarchy e') : e.Extends e' where
  options := h.options
  provider := h.provider
  size := Nat.le_of_eq h.size.symm
  name b _ := (h.binding b).name
  origin b _ := (h.binding b).origin
  supertypes b _ := (h.binding b).supertypes
  byName entry he := by rwa [h.byName]
  problems entry he := by rwa [h.problems]

theorem extends_addBinding {e : Env} {x : Binding} : e.Extends (e.addBinding x) := by
  have kept (b : BindingId) (hb : b.index < e.bindings.size) :
      (e.addBinding x).binding b = e.binding b := by
    apply binding_addBinding_of_ne
    rintro rfl
    exact Nat.lt_irrefl _ hb
  refine ⟨rfl, rfl, ?_, ?_, ?_, ?_, fun _ h => h, fun _ h => h⟩
  · simp [addBinding]
  · intro b hb
    rw [kept b hb]
  · intro b hb
    rw [kept b hb]
  · intro b hb
    rw [kept b]
    refine Nat.lt_of_not_le fun outside => hb ?_
    rw [binding_of_size_le outside]
    rfl

section Brackets

variable {e e' : Env} {b : BindingId} {slot : Slot Supertypes}

theorem Extends.of_setSupertypes (fresh : (e.binding b).supertypes = .unresolved)
    (h : (e.setSupertypes b slot).Extends e') : e.Extends e' where
  options := h.options
  provider := h.provider
  size := Nat.le_trans (Nat.le_of_eq size_update.symm) h.size
  name c hc := (h.name c (Nat.lt_of_lt_of_eq hc size_update.symm)).trans name_setSupertypes
  origin c hc := (h.origin c (Nat.lt_of_lt_of_eq hc size_update.symm)).trans origin_setSupertypes
  supertypes c hc := by
    have other : c ≠ b := by
      rintro rfl
      exact hc fresh
    have kept : ((e.setSupertypes b slot).binding c).supertypes = (e.binding c).supertypes :=
      supertypes_setSupertypes_of_ne other
    rw [h.supertypes c (by rwa [kept]), kept]
  byName := h.byName
  problems := h.problems

theorem Extends.setSupertypes (fresh : (e.binding b).supertypes = .unresolved)
    (h : e.Extends e') : e.Extends (e'.setSupertypes b slot) where
  options := h.options
  provider := h.provider
  size := Nat.le_trans h.size (Nat.le_of_eq size_update.symm)
  name c hc := name_setSupertypes.trans (h.name c hc)
  origin c hc := origin_setSupertypes.trans (h.origin c hc)
  supertypes c hc := by
    have other : c ≠ b := by
      rintro rfl
      exact hc fresh
    rw [supertypes_setSupertypes_of_ne other]
    exact h.supertypes c hc
  byName := h.byName
  problems := h.problems

end Brackets

theorem Evolves.extends {e e' : Env} (h : e.Evolves e') : e.Extends e' := by
  induction h with
  | refl e => exact .refl e
  | trans _ _ ih ih' => exact ih.trans ih'
  | quiet same => exact same.extends
  | add => exact extends_addBinding
  | @problem e x reason =>
    exact { @extends_addBinding e x with problems := fun _ => List.mem_cons_of_mem _ }
  | @bind e name b => exact { Extends.refl e with byName := fun _ => List.mem_cons_of_mem _ }
  | supertypes _ fresh _ _ ih => exact (ih.of_setSupertypes fresh).setSupertypes fresh
  | abort _ fresh _ ih => exact ih.of_setSupertypes fresh

section Stability

variable {e e' : Env} {b c : BindingId} {s : Supertypes} {name : String}

theorem Extends.shows (h : e.Extends e') (shown : e.Shows b s) : e'.Shows b s := by
  cases shown with
  | resolved hs => exact .resolved (by rw [h.supertypes b (by simp [hs]), hs])
  | inProgress hs => exact .inProgress (by rw [h.supertypes b (by simp [hs]), hs])

theorem Shows.above_iff (shown : e.Shows b s) : e.Above b c ↔ c ∈ s.bindings := by
  cases shown with
  | resolved hs => simp [Above, hs]
  | inProgress hs => simp [Above, hs, Supertypes.bindings, Supertypes.all]

theorem Clear.stable (h : e.Extends e') (clear : e.Clear b c) : e'.Clear b c := by
  intro d path
  -- What lies above `c` was all known, so every way from there is an old one.
  have before : Relation.ReflTransGen e.Above c d := by
    induction path with
    | refl => exact .refl
    | tail _ edge ih =>
      obtain ⟨-, s, shown⟩ := clear _ ih
      rw [(h.shows shown).above_iff, ← shown.above_iff] at edge
      exact ih.tail edge
  obtain ⟨other, s, shown⟩ := clear d before
  exact ⟨other, s, h.shows shown⟩

theorem Named.stable (h : e.Extends e') (named : e.Named name b) : e'.Named name b :=
  ⟨Nat.lt_of_lt_of_le named.1 h.size, by rw [h.name b named.1, named.2]⟩

theorem Denotes.stable (h : e.Extends e') (denotes : e.Denotes name b) : e'.Denotes name b := by
  rcases denotes with bound | ⟨d, found, bound⟩
  · exact .inl (h.byName _ bound)
  · exact .inr ⟨d, by rw [h.provider, found], h.byName _ bound⟩

theorem StandsFor.stable (h : e.Extends e') (stands : e.StandsFor name b) :
    e'.StandsFor name b := by
  obtain ⟨reason, entry⟩ := stands
  exact ⟨reason, h.problems _ entry⟩

theorem lt_size_of_isProblem (h : (e.binding b).isProblem = true) :
    b.index < e.bindings.size := by
  refine Nat.lt_of_not_le fun outside => ?_
  rw [binding_of_size_le outside] at h
  cases h

theorem Extends.isProblem_eq (h : e.Extends e') (inside : b.index < e.bindings.size) :
    (e'.binding b).isProblem = (e.binding b).isProblem := by
  rw [Binding.isProblem, h.origin b inside, Binding.isProblem]

theorem Admits.stable (h : e.Extends e') (admits : e.Admits b c) : e'.Admits b c := by
  cases admits with
  | problem hc => exact .problem (by rw [h.isProblem_eq (lt_size_of_isProblem hc), hc])
  | root hc => exact .root (by rw [h.options]; exact hc.stable h)
  | rootProblem hc => exact .rootProblem (by rw [h.options]; exact hc.stable h)
  | clear hc => exact .clear (hc.stable h)

theorem Keeps.stable {t : Ty} (h : e.Extends e') (keeps : e.Keeps b t) : e'.Keeps b t := by
  obtain ⟨c, named, admits⟩ := keeps
  exact ⟨c, named, admits.stable h⟩

theorem admits_of_keeps (h : ∀ t ∈ s.all, e.Keeps b t) : ∀ c ∈ s.bindings, e.Admits b c := by
  intro c hc
  obtain ⟨t, ht, named⟩ := List.mem_filterMap.1 hc
  obtain ⟨c', named', admits⟩ := h t ht
  cases named.symm.trans named'
  exact admits

end Stability

end Env

end TeamRoles
