import TeamRoles.Proofs.Env.Parts

/-!
What lasts of methods. A method is what it is from the start, but for its links: those to what it was
copied from and to its surrogate are made while the methods of its type are in progress, and stay when
these have been resolved. No type gets a method of its own after that.

Of a role, every callin method has a surrogate among its methods then, though two of them may share one;
and no two methods that are written or inherited have the same name and the same parameters.
-/

namespace TeamRoles

namespace Method

def fixed (m : Method) : Method :=
  { m with
    viewDepth := 0, copySource := none, overriddenTsupers := [], surrogate := none
    boundBaseMethods := [] }

/-- What a method is once the methods of its type have been resolved. -/
def settled (m : Method) : Method :=
  { m with viewDepth := 0, overriddenTsupers := [], boundBaseMethods := [] }

theorem fixed_of_settled {m n : Method} (h : n.settled = m.settled) : n.fixed = m.fixed :=
  congrArg (fun x => { x with copySource := none, surrogate := none }) h

def isInstance (m : Method) : Bool := match m.origin with
  | .parameterized _ => true
  | _ => false

/-- Can the method stand for the base methods of a callin method? -/
def Serves (s m : Method) : Prop :=
  s.name = Name.surrogate m.name ∧ s.declared.params.length = m.woven.params.length

/-- Do two callin methods have one surrogate? Parameter types do not matter, and a surrogate is found again
only by a name that is recognised. -/
def Shares (m n : Method) : Prop :=
  m.name = n.name ∧ m.woven.params.length = n.woven.params.length ∧
    Name.isSurrogate (Name.surrogate m.name) = true

def Alike (m n : Method) : Prop := m.name = n.name ∧ m.declared.params = n.declared.params

/-- Two methods that are alike. Surrogates whose names are not recognised may be so. -/
def Clashes (m n : Method) : Prop :=
  m.Alike n ∧ (Name.isSurrogate m.name = true ∨ m.isSurrogate = false ∧ n.isSurrogate = false)

theorem Clashes.symm {m n : Method} (h : m.Clashes n) : n.Clashes m := by
  obtain ⟨⟨name, params⟩, surrogates⟩ := h
  refine ⟨⟨name.symm, params.symm⟩, ?_⟩
  rwa [← name, and_comm]

end Method

namespace Env

def nextMethod (e : Env) : MethodId := ⟨e.methods.size⟩

def addMethod (e : Env) (m : Method) : Env := { e with methods := e.methods.push m }

def updateMethod (e : Env) (m : MethodId) (f : Method → Method) : Env :=
  { e with methods := e.methods.modify m.index f }

section Lookup

variable {e : Env} {m n : MethodId} {x : Method} {f : Method → Method}

theorem method_of_size_le (outside : e.methods.size ≤ m.index) : e.method m = default := by
  simp [method, Nat.not_lt_of_le outside]

theorem method_addMethod_self : (e.addMethod x).method e.nextMethod = x := by
  simp [method, addMethod, nextMethod]

theorem method_addMethod_of_ne (other : m ≠ e.nextMethod) : (e.addMethod x).method m = e.method m := by
  have differ : m.index ≠ e.methods.size := fun same => other (congrArg MethodId.mk same)
  simp [method, addMethod, Array.getElem?_push, differ]

theorem method_addMethod_of_lt (inside : m.index < e.methods.size) :
    (e.addMethod x).method m = e.method m := by
  apply method_addMethod_of_ne
  rintro rfl
  exact Nat.lt_irrefl _ inside

theorem size_addMethod : (e.addMethod x).methods.size = e.methods.size + 1 := by
  simp [addMethod]

theorem method_updateMethod : (e.updateMethod m f).method n =
    if n = m ∧ m.index < e.methods.size then f (e.method n) else e.method n := by
  cases m
  cases n
  simp only [method, updateMethod, Array.getElem?_modify]
  grind

theorem method_updateMethod_of_ne (differ : n ≠ m) : (e.updateMethod m f).method n = e.method n := by
  rw [method_updateMethod, if_neg (differ ·.1)]

theorem method_updateMethod_proj {α : Type} {g : Method → α}
    (same : g (f (e.method m)) = g (e.method m)) :
    g ((e.updateMethod m f).method n) = g (e.method n) := by
  rw [method_updateMethod]
  split
  · next here => rw [here.1, same]
  · rfl

theorem size_updateMethod : (e.updateMethod m f).methods.size = e.methods.size := by
  simp [updateMethod]

theorem eq_nextMethod_or_lt (inside : m.index < (e.addMethod x).methods.size) :
    m = e.nextMethod ∨ m.index < e.methods.size := by
  rw [size_addMethod] at inside
  by_cases old : m.index < e.methods.size
  · exact .inr old
  · have last : m.index = e.methods.size := by omega
    exact .inl (congrArg MethodId.mk last)

end Lookup

structure MethodsLast (e e' : Env) : Prop where
  size : e.methods.size ≤ e'.methods.size
  fixed : ∀ m, m.index < e.methods.size → (e'.method m).fixed = (e.method m).fixed
  settled : ∀ m list, m.index < e.methods.size →
    e.slot (.methods (e.method m).declaring) = .resolved list →
    (e'.method m).settled = (e.method m).settled
  fresh : ∀ m list, e.methods.size ≤ m.index → m.index < e'.methods.size →
    (e'.method m).isInstance = false → e.slot (.methods (e'.method m).declaring) ≠ .resolved list

namespace MethodsLast

variable {e e' e'' : Env} {m : MethodId} {x : Method} {f : Method → Method}

theorem of_eq (h : e'.methods = e.methods) : e.MethodsLast e' := by
  have same (m : MethodId) : e'.method m = e.method m := by rw [method, h, method]
  refine ⟨Nat.le_of_eq (by rw [h]), fun m _ => by rw [same], fun m _ _ _ => by rw [same], ?_⟩
  intro m list new inside
  rw [h] at inside
  exact absurd inside (Nat.not_lt_of_le new)

theorem proj_eq {α : Type} {g : Method → α} (h : e.MethodsLast e') (inside : m.index < e.methods.size)
    (fixed : ∀ x, g (Method.fixed x) = g x) : g (e'.method m) = g (e.method m) := by
  rw [← fixed, h.fixed m inside, fixed]

theorem trans (h : e.MethodsLast e') (h' : e'.MethodsLast e'')
    (slots : ∀ b list, e.slot (.methods b) = .resolved list → e'.slot (.methods b) = .resolved list) :
    e.MethodsLast e'' where
  size := Nat.le_trans h.size h'.size
  fixed m inside := (h'.fixed m (Nat.lt_of_lt_of_le inside h.size)).trans (h.fixed m inside)
  settled m list inside resolved := by
    rw [h'.settled m list (Nat.lt_of_lt_of_le inside h.size), h.settled m list inside resolved]
    rw [h.proj_eq (g := Method.declaring) inside fun _ => rfl]
    exact slots _ list resolved
  fresh m list new inside other resolved := by
    by_cases between : m.index < e'.methods.size
    · rw [h'.proj_eq (g := Method.isInstance) between fun _ => rfl] at other
      rw [h'.proj_eq (g := Method.declaring) between fun _ => rfl] at resolved
      exact h.fresh m list new between other resolved
    · exact h'.fresh m list (Nat.le_of_not_lt between) inside other (slots _ list resolved)

theorem add (pending : x.isInstance = false → ∀ list, e.slot (.methods x.declaring) ≠ .resolved list) :
    e.MethodsLast (e.addMethod x) where
  size := by simp [addMethod]
  fixed m inside := by rw [method_addMethod_of_lt inside]
  settled m list inside _ := by rw [method_addMethod_of_lt inside]
  fresh m list new inside other := by
    have last : m = e.nextMethod := (eq_nextMethod_or_lt inside).resolve_right (Nat.not_lt_of_le new)
    rw [last, method_addMethod_self] at other ⊢
    exact pending other list

theorem update (fixed : (f (e.method m)).fixed = (e.method m).fixed)
    (settled : (f (e.method m)).settled = (e.method m).settled ∨
      ∀ list, e.slot (.methods (e.method m).declaring) ≠ .resolved list) :
    e.MethodsLast (e.updateMethod m f) where
  size := by simp [updateMethod]
  fixed n _ := method_updateMethod_proj fixed
  settled n list _ resolved := by
    rcases settled with settled | pending
    · exact method_updateMethod_proj settled
    · rw [method_updateMethod_of_ne]
      rintro rfl
      exact pending list resolved
  fresh n list new inside := by
    rw [size_updateMethod] at inside
    exact absurd inside (Nat.not_lt_of_le new)

end MethodsLast

structure Owns (e : Env) (b : BindingId) (m : MethodId) : Prop where
  inside : m.index < e.methods.size
  declaring : (e.method m).declaring = b
  proper : (e.method m).isInstance = false

theorem Owns.of_lasts {e e' : Env} {b : BindingId} {m : MethodId} (h : e.Owns b m)
    (lasts : e.MethodsLast e') : e'.Owns b m where
  inside := Nat.lt_of_lt_of_le h.inside lasts.size
  declaring := (lasts.proj_eq h.inside fun _ => rfl).trans h.declaring
  proper := (lasts.proj_eq h.inside fun _ => rfl).trans h.proper

theorem Owns.before {e e' : Env} {b : BindingId} {m : MethodId} {list : List MethodId} (h : e'.Owns b m)
    (lasts : e.MethodsLast e') (resolved : e.slot (.methods b) = .resolved list) : e.Owns b m := by
  have inside : m.index < e.methods.size := by
    refine Nat.lt_of_not_le fun new => lasts.fresh m list new h.inside h.proper ?_
    rwa [h.declaring]
  refine ⟨inside, ?_, ?_⟩
  · rw [← lasts.proj_eq (g := Method.declaring) inside fun _ => rfl, h.declaring]
  · rw [← lasts.proj_eq (g := Method.isInstance) inside fun _ => rfl, h.proper]

def IsSettled (e : Env) (m : MethodId) : Prop :=
  ∃ b list, e.Owns b m ∧ e.slot (.methods b) = .resolved list

/-- The method of an instantiation is what has become of a method of the generic type. -/
structure Specializes (e : Env) (generic : BindingId) (g s : MethodId) : Prop where
  inside : s.index < e.methods.size
  origin : (e.method s).origin = .parameterized g
  name : e.Owns generic g → (e.method s).name = (e.method g).name

theorem Specializes.of_lasts {e e' : Env} {generic : BindingId} {g s : MethodId} {list : List MethodId}
    (h : e.Specializes generic g s) (lasts : e.MethodsLast e')
    (resolved : e.slot (.methods generic) = .resolved list) : e'.Specializes generic g s where
  inside := Nat.lt_of_lt_of_le h.inside lasts.size
  origin := (lasts.proj_eq h.inside fun _ => rfl).trans h.origin
  name owns := by
    have owns := owns.before lasts resolved
    rw [lasts.proj_eq (g := Method.name) h.inside fun _ => rfl, h.name owns,
      lasts.proj_eq (g := Method.name) owns.inside fun _ => rfl]

structure Offers (e : Env) (b : BindingId) (list : List MethodId) : Prop where
  listed : ∀ m ∈ list, e.Owns b m
  distinct : (e.binding b).isSource = true →
    list.Pairwise fun m n => ¬ (e.method m).Clashes (e.method n)
  paired : (e.binding b).isRole = true → ∀ m ∈ list, (e.method m).isCallin = true →
    (e.method m).isSurrogate = false →
    ∃ s ∈ list, (e.method m).surrogate = some s ∧ (e.method s).Serves (e.method m)
  shared : (e.binding b).isRole = true → ∀ m ∈ list, ∀ n ∈ list, m ≠ n →
    (e.method m).isCallin = true → (e.method m).isSurrogate = false →
    (e.method n).isCallin = true → (e.method n).isSurrogate = false →
    ((e.method m).surrogate = (e.method n).surrogate ↔ (e.method m).Shares (e.method n))
  made : (e.binding b).isRole = true → ∀ s ∈ list, ∀ c, (e.method s).origin = .surrogate c →
    c ∈ list ∧ (e.method s).declared = (e.method c).woven

theorem offers_nil {e : Env} {b : BindingId} : e.Offers b [] :=
  ⟨nofun, fun _ => .nil, fun _ => nofun, fun _ => nofun, fun _ => nofun⟩

/-- Methods are listed by the types that declare them. Copies are named as what they were made from, which
was settled by then, and surrogates are named after the callin methods of their types. -/
structure Linked (e : Env) : Prop where
  listed : ∀ b list, e.slot (.methods b) = .resolved list → ∀ m ∈ list, e.Owns b m
  source : ∀ m s, (e.method m).copySource = some s →
    e.IsSettled s ∧ (e.method s).name = (e.method m).name
  surrogate : ∀ m s, (e.method m).surrogate = some s →
    e.Owns (e.method m).declaring s ∧ (e.method s).name = Name.surrogate (e.method m).name

/-- The new method is one of an instantiation or of a type whose methods are not resolved yet, and a copy
is named as what it is made from. -/
structure MayAdd (e : Env) (x : Method) : Prop where
  pending : x.isInstance = false → ∀ list, e.slot (.methods x.declaring) ≠ .resolved list
  source : e.Linked → ∀ s, x.copySource = some s → e.IsSettled s ∧ (e.method s).name = x.name
  surrogate : x.surrogate = none

structure MayUpdate (e : Env) (m : MethodId) (f : Method → Method) : Prop where
  fixed : (f (e.method m)).fixed = (e.method m).fixed
  settled : (f (e.method m)).settled = (e.method m).settled ∨
    ∀ list, e.slot (.methods (e.method m).declaring) ≠ .resolved list
  linked : e.Linked → (e.updateMethod m f).Linked

namespace Linked

variable {e : Env} {m : MethodId} {x : Method} {f : Method → Method}

theorem add (h : e.Linked) (may : e.MayAdd x) : (e.addMethod x).Linked := by
  have lasts : e.MethodsLast (e.addMethod x) := .add may.pending
  have settled {s : MethodId} {name : String} (known : e.IsSettled s ∧ (e.method s).name = name) :
      (e.addMethod x).IsSettled s ∧ ((e.addMethod x).method s).name = name := by
    obtain ⟨⟨b, list, owns, resolved⟩, name⟩ := known
    rw [method_addMethod_of_lt owns.inside]
    exact ⟨⟨b, list, owns.of_lasts lasts, resolved⟩, name⟩
  refine ⟨fun b list resolved m mem => ?_, fun m s link => ?_, fun m s link => ?_⟩
  · exact (h.listed b list resolved m mem).of_lasts lasts
  · by_cases new : m = e.nextMethod
    · rw [new, method_addMethod_self] at link ⊢
      exact settled (may.source h s link)
    · rw [method_addMethod_of_ne new] at link ⊢
      exact settled (h.source m s link)
  · by_cases new : m = e.nextMethod
    · rw [new, method_addMethod_self, may.surrogate] at link
      cases link
    · rw [method_addMethod_of_ne new] at link ⊢
      obtain ⟨owns, name⟩ := h.surrogate m s link
      rw [method_addMethod_of_lt owns.inside]
      exact ⟨owns.of_lasts lasts, name⟩

theorem update (h : e.Linked) (fixed : (f (e.method m)).fixed = (e.method m).fixed)
    (source : ∀ s, (f (e.method m)).copySource = some s →
      e.IsSettled s ∧ (e.method s).name = (e.method m).name)
    (surrogate : ∀ s, (f (e.method m)).surrogate = some s →
      e.Owns (e.method m).declaring s ∧ (e.method s).name = Name.surrogate (e.method m).name) :
    (e.updateMethod m f).Linked := by
  have same {α : Type} (g : Method → α) (known : ∀ x, g (Method.fixed x) = g x) (n : MethodId) :
      g ((e.updateMethod m f).method n) = g (e.method n) :=
    method_updateMethod_proj (by rw [← known, fixed, known])
  have name := same Method.name fun _ => rfl
  have declaring := same Method.declaring fun _ => rfl
  have owns {b : BindingId} {n : MethodId} (h : e.Owns b n) : (e.updateMethod m f).Owns b n := by
    refine ⟨by rw [size_updateMethod]; exact h.inside, ?_, ?_⟩
    · rw [declaring, h.declaring]
    · rw [same Method.isInstance fun _ => rfl, h.proper]
  have settled {n : MethodId} : e.IsSettled n → (e.updateMethod m f).IsSettled n := by
    rintro ⟨b, list, owned, resolved⟩
    exact ⟨b, list, owns owned, resolved⟩
  refine ⟨fun b list resolved n mem => owns (h.listed b list resolved n mem), fun n s link => ?_,
    fun n s link => ?_⟩
  · rw [name, name]
    refine And.imp_left settled ?_
    rw [method_updateMethod] at link
    split at link
    · next here =>
      rw [here.1] at link ⊢
      exact source s link
    · exact h.source n s link
  · rw [name, name, declaring]
    refine And.imp_left owns ?_
    rw [method_updateMethod] at link
    split at link
    · next here =>
      rw [here.1] at link ⊢
      exact surrogate s link
    · exact h.surrogate n s link

end Linked

theorem MayUpdate.of_settled {e : Env} {m : MethodId} {f : Method → Method}
    (settled : (f (e.method m)).settled = (e.method m).settled) : e.MayUpdate m f where
  fixed := Method.fixed_of_settled settled
  settled := .inl settled
  linked h := by
    have source : (f (e.method m)).copySource = (e.method m).copySource :=
      (congrArg Method.copySource settled :)
    have surrogate : (f (e.method m)).surrogate = (e.method m).surrogate :=
      (congrArg Method.surrogate settled :)
    refine h.update (Method.fixed_of_settled settled) ?_ ?_
    · rw [source]
      exact h.source m
    · rw [surrogate]
      exact h.surrogate m

end Env

end TeamRoles
