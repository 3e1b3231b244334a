import TeamRoles.Proofs.Generics.Ascent
import TeamRoles.Proofs.Types.Table

/-!
Substitutions without raw layers compose. A session that numbers its types gives one number to both ways of
substituting, and makes no new type where no variable is replaced.
-/

namespace TeamRoles

namespace Ty

variable {σ τ : TypeVarId → Ty}

mutual

theorem subst_congr (t : Ty) (h : ∀ v ∈ t.vars, σ v = τ v) : t.subst σ = t.subst τ := by
  match t with
  | .parameterized generic args enclosing =>
    have inner : ∀ v ∈ varsOfArgs args ++ varsOfOption enclosing, σ v = τ v := h
    simp only [List.mem_append] at inner
    rw [subst, subst, substArgs_congr args fun v hv => inner v (.inl hv),
      substOption_congr enclosing fun v hv => inner v (.inr hv)]
  | .raw generic enclosing => rw [subst, subst, substOption_congr enclosing h]
  | .wildcard kind bound => rw [subst, subst, substOption_congr bound h]
  | .array component => rw [subst, subst, subst_congr component h]
  | .anchored role path => rw [subst, subst, subst_congr role h]
  | .variable v => exact h v (List.mem_singleton.2 rfl)
  | .primitive _ | .null | .declared _ | .captured _ => rfl

theorem substArgs_congr (ts : List Ty) (h : ∀ v ∈ varsOfArgs ts, σ v = τ v) :
    substArgs σ ts = substArgs τ ts := by
  match ts with
  | [] => rfl
  | t :: rest =>
    simp only [varsOfArgs, List.mem_append] at h
    rw [substArgs, substArgs, subst_congr t fun v hv => h v (.inl hv),
      substArgs_congr rest fun v hv => h v (.inr hv)]

theorem substOption_congr (t : Option Ty) (h : ∀ v ∈ varsOfOption t, σ v = τ v) :
    substOption σ t = substOption τ t := by
  match t with
  | none => rfl
  | some t => rw [substOption, substOption, subst_congr t h]

end

mutual

theorem subst_comp (t : Ty) : (t.subst σ).subst τ = t.subst fun v => (σ v).subst τ := by
  match t with
  | .parameterized generic args enclosing =>
    simp only [subst, substArgs_comp args, substOption_comp enclosing]
  | .raw generic enclosing => simp only [subst, substOption_comp enclosing]
  | .wildcard kind bound => simp only [subst, substOption_comp bound]
  | .array component => simp only [subst, subst_comp component]
  | .anchored role path => simp only [subst, subst_comp role]
  | .primitive _ | .null | .declared _ | .variable _ | .captured _ => simp only [subst]

theorem substArgs_comp (ts : List Ty) :
    substArgs τ (substArgs σ ts) = substArgs (fun v => (σ v).subst τ) ts := by
  match ts with
  | [] => rfl
  | t :: rest => simp only [substArgs, subst_comp t, substArgs_comp rest]

theorem substOption_comp (t : Option Ty) :
    substOption τ (substOption σ t) = substOption (fun v => (σ v).subst τ) t := by
  match t with
  | none => rfl
  | some t => simp only [substOption, subst_comp t]

end

theorem subst_eq_self {t : Ty} (h : ∀ v ∈ t.vars, σ v = .variable v) : t.subst σ = t :=
  (subst_congr t h).trans (subst_variable t)

mutual

/-- The types that a substitution makes anew, each after its parts. -/
def made (σ : TypeVarId → Ty) : Ty → List Ty
  | .parameterized generic args enclosing =>
    madeArgs σ args ++ madeOption σ enclosing ++ [(parameterized generic args enclosing).subst σ]
  | .raw generic (some outer) => made σ outer ++ [(raw generic (some outer)).subst σ]
  | .wildcard kind (some bound) => made σ bound ++ [(wildcard kind (some bound)).subst σ]
  | .array component => made σ component ++ [(array component).subst σ]
  | .anchored role path => made σ role ++ [(anchored role path).subst σ]
  | _ => []

def madeArgs (σ : TypeVarId → Ty) : List Ty → List Ty
  | [] => []
  | t :: rest => made σ t ++ madeArgs σ rest

def madeOption (σ : TypeVarId → Ty) : Option Ty → List Ty
  | none => []
  | some t => made σ t

end

theorem append_subset_append {k l m n : List Ty} (h : k ⊆ m) (h' : l ⊆ n) :
    k ++ l ⊆ m ++ n :=
  List.append_subset.2 ⟨List.subset_append_of_subset_left n h, List.subset_append_of_subset_right m h'⟩

mutual

theorem made_comp (t : Ty) : made (fun v => (σ v).subst τ) t ⊆ made τ (t.subst σ) := by
  match t with
  | .parameterized generic args enclosing =>
    rw [made, ← subst_comp, subst, made]
    exact append_subset_append (append_subset_append (madeArgs_comp args) (madeOption_comp enclosing)) (List.Subset.refl _)
  | .raw generic (some outer) =>
    rw [made, ← subst_comp, subst, substOption, made]
    exact append_subset_append (made_comp outer) (List.Subset.refl _)
  | .wildcard kind (some bound) =>
    rw [made, ← subst_comp, subst, substOption, made]
    exact append_subset_append (made_comp bound) (List.Subset.refl _)
  | .array component =>
    rw [made, ← subst_comp, subst, made]
    exact append_subset_append (made_comp component) (List.Subset.refl _)
  | .anchored role path =>
    rw [made, ← subst_comp, subst, made]
    exact append_subset_append (made_comp role) (List.Subset.refl _)
  | .raw _ none | .wildcard _ none | .primitive _ | .null | .declared _ | .variable _ | .captured _ =>
    exact List.nil_subset _

theorem madeArgs_comp (ts : List Ty) :
    madeArgs (fun v => (σ v).subst τ) ts ⊆ madeArgs τ (substArgs σ ts) := by
  match ts with
  | [] => exact List.nil_subset _
  | t :: rest =>
    rw [madeArgs, substArgs, madeArgs]
    exact append_subset_append (made_comp t) (madeArgs_comp rest)

theorem madeOption_comp (t : Option Ty) :
    madeOption (fun v => (σ v).subst τ) t ⊆ madeOption τ (substOption σ t) := by
  match t with
  | none => exact List.nil_subset _
  | some t =>
    rw [madeOption, substOption, madeOption]
    exact made_comp t

end

mutual

theorem made_of_fixed {known : Ty → Prop} (closed : ∀ t, known t → ∀ p ∈ t.parts, known p) (t : Ty)
    (ht : known t) (h : ∀ v ∈ t.vars, σ v = .variable v) : ∀ u ∈ t.made σ, known u := by
  have self : t.subst σ = t := subst_eq_self h
  match t with
  | .parameterized generic args enclosing =>
    have inner : ∀ v ∈ varsOfArgs args ++ varsOfOption enclosing, σ v = .variable v := h
    have parts : ∀ p ∈ args ++ enclosing.toList, known p := closed _ ht
    simp only [List.forall_mem_append] at inner parts
    rw [made, self]
    simp only [List.forall_mem_append, List.forall_mem_singleton]
    exact ⟨⟨madeArgs_of_fixed closed args parts.1 inner.1,
      madeOption_of_fixed closed enclosing parts.2 inner.2⟩, ht⟩
  | .raw generic (some inner) | .wildcard kind (some inner) | .array inner | .anchored inner path =>
    rw [made, self]
    simp only [List.forall_mem_append, List.forall_mem_singleton]
    exact ⟨made_of_fixed closed inner (closed _ ht inner (List.mem_singleton.2 rfl)) h, ht⟩
  | .raw _ none | .wildcard _ none | .primitive _ | .null | .declared _ | .variable _ | .captured _ =>
    exact List.forall_mem_nil _

theorem madeArgs_of_fixed {known : Ty → Prop} (closed : ∀ t, known t → ∀ p ∈ t.parts, known p)
    (ts : List Ty) (hts : ∀ t ∈ ts, known t) (h : ∀ v ∈ varsOfArgs ts, σ v = .variable v) :
    ∀ u ∈ madeArgs σ ts, known u := by
  match ts with
  | [] => exact List.forall_mem_nil _
  | t :: rest =>
    rw [varsOfArgs] at h
    rw [madeArgs]
    simp only [List.forall_mem_append, List.forall_mem_cons] at h hts ⊢
    exact ⟨made_of_fixed closed t hts.1 h.1, madeArgs_of_fixed closed rest hts.2 h.2⟩

theorem madeOption_of_fixed {known : Ty → Prop} (closed : ∀ t, known t → ∀ p ∈ t.parts, known p)
    (o : Option Ty) (ho : ∀ t ∈ o.toList, known t) (h : ∀ v ∈ varsOfOption o, σ v = .variable v) :
    ∀ u ∈ madeOption σ o, known u := by
  match o with
  | none => exact List.forall_mem_nil _
  | some t => exact made_of_fixed closed t (ho t (List.mem_singleton.2 rfl)) h

end

end Ty

namespace Substitution

variable {first second both s : Substitution} {v : TypeVarId} {t u : Ty}

/-- No layer is raw, and each has an argument for every variable. -/
structure Plain (s : Substitution) : Prop where
  proper : ∀ layer ∈ s.layers, layer.isRaw = false
  full : ∀ layer ∈ s.layers, layer.args.length = layer.vars.length

def Replaces (s : Substitution) (v : TypeVarId) : Prop := ∃ layer ∈ s.layers, v ∈ layer.vars

def value (s : Substitution) (v : TypeVarId) : Ty :=
  match s.image? v with
  | some (.arg t) => t
  | _ => .variable v

/-- Variables go where the one substitution leads and then the other; those that the first does not know go
where the second leads. -/
structure Composes (first second both : Substitution) : Prop where
  mapped : ∀ v t, first.image? v = some (.arg t) → both.image? v = some (.arg (t.subst second.value))
  other : ∀ v, first.image? v = none → both.image? v = second.image? v

def layerThrough (s : Substitution) (layer : SubstLayer) : SubstLayer :=
  { layer with args := layer.args.map (Ty.subst s.value) }

/-- The one instantiation seen through the other, which comes to lie around it. -/
def andThen (first second : Substitution) : Substitution :=
  ⟨first.layers.map second.layerThrough ++ second.layers⟩

theorem image?_eq_none (h : ¬s.Replaces v) : s.image? v = none := by
  have none : s.layers.find? (·.vars.contains v) = none :=
    List.find?_eq_none.2 fun layer hlayer contained => h ⟨layer, hlayer, by simpa using contained⟩
  rw [image?, none]
  rfl

theorem value_eq_variable (h : ¬s.Replaces v) : s.value v = .variable v := by
  rw [value, image?_eq_none h]

theorem image?_of_find? {layer : SubstLayer} (found : s.layers.find? (·.vars.contains v) = some layer)
    (proper : layer.isRaw = false) : s.image? v = (layer.args[layer.vars.idxOf v]?).map .arg := by
  rw [image?, found]
  exact if_neg (by simp [proper])

theorem Plain.image?_eq (h : s.Plain) : s.image? v = none ∨ ∃ t, s.image? v = some (.arg t) := by
  cases found : s.layers.find? (·.vars.contains v) with
  | none => exact .inl (by rw [image?, found]; rfl)
  | some layer =>
    rw [image?_of_find? found (h.proper layer (List.mem_of_find?_eq_some found))]
    cases layer.args[layer.vars.idxOf v]? with
    | none => exact .inl rfl
    | some t => exact .inr ⟨t, rfl⟩

theorem Plain.image?_ne_erased (h : s.Plain) (v : TypeVarId) : s.image? v ≠ some .erased := by
  obtain kept | ⟨t, moved⟩ := h.image?_eq (v := v)
  · simp [kept]
  · simp [moved]

theorem Composes.image?_ne_erased (h₁ : first.Plain) (h₂ : second.Plain)
    (composes : first.Composes second both) (v : TypeVarId) : both.image? v ≠ some .erased := by
  obtain kept | ⟨t, moved⟩ := h₁.image?_eq (v := v)
  · exact composes.other v kept ▸ h₂.image?_ne_erased v
  · simp [composes.mapped v t moved]

theorem substitute_of_kept (kept : ∀ v, s.image? v ≠ some .erased) (t : Ty) (o : Oracle) (e : Env) :
    Resolve.substitute s t o e = (.ok (t.subst s.value), e) := by
  have root : s.needsRoot e t = false := by
    refine List.any_eq_false.2 fun v _ => ?_
    split
    · next erased => exact absurd erased (kept v)
    · simp
  have image : s.image e .null = s.value := by
    funext v
    unfold Substitution.image value
    split <;> simp_all
  refine Resolve.get_bind_apply.trans ?_
  rw [root, ← image]
  rfl

theorem Plain.andThen (h₁ : first.Plain) (h₂ : second.Plain) : (first.andThen second).Plain := by
  constructor <;>
    simp only [Substitution.andThen, layerThrough, List.forall_mem_append, List.forall_mem_map, List.length_map]
  · exact ⟨h₁.proper, h₂.proper⟩
  · exact ⟨h₁.full, h₂.full⟩

theorem find?_andThen : (first.andThen second).layers.find? (·.vars.contains v) =
    ((first.layers.find? (·.vars.contains v)).map second.layerThrough).or
      (second.layers.find? (·.vars.contains v)) := by
  rw [andThen, List.find?_append, List.find?_map]
  rfl

theorem Plain.composes_andThen (h : first.Plain) : first.Composes second (first.andThen second) := by
  constructor
  · intro v t moved
    cases found : first.layers.find? (·.vars.contains v) with
    | none => cases (show first.image? v = none by rw [image?, found]; rfl).symm.trans moved
    | some layer =>
      have proper := h.proper layer (List.mem_of_find?_eq_some found)
      rw [image?_of_find? found proper, Option.map_eq_some_iff] at moved
      obtain ⟨t, argument, ⟨⟩⟩ := moved
      have seen : (first.andThen second).layers.find? (·.vars.contains v) = some (second.layerThrough layer) := by
        rw [find?_andThen, found]
        rfl
      rw [image?_of_find? seen proper]
      simp only [layerThrough, List.getElem?_map, argument, Option.map_some]
  · intro v kept
    cases found : first.layers.find? (·.vars.contains v) with
    | none => rw [image?, find?_andThen, found]; rfl
    | some layer =>
      have inside := List.mem_of_find?_eq_some found
      have contained : v ∈ layer.vars := by simpa using List.find?_some found
      rw [image?_of_find? found (h.proper layer inside), Option.map_eq_none_iff, List.getElem?_eq_none_iff,
        h.full layer inside] at kept
      exact absurd (List.idxOf_lt_length_of_mem contained) (Nat.not_lt.2 kept)

theorem Composes.value_eq (h : first.Plain) (composes : first.Composes second both) :
    both.value = fun v => (first.value v).subst second.value := by
  funext v
  obtain kept | ⟨t, moved⟩ := h.image?_eq (v := v)
  · rw [value, composes.other v kept, value, kept]
    rfl
  · rw [value, composes.mapped v t moved, value, moved]

/-- Substitution into a numbered type, in a table that gives a number to everything that is made. -/
def substituteIn (s : Substitution) (id : TypeId) (table : TypeTable) : TypeId × TypeTable :=
  (table.internAll ((table.get id).made s.value)).intern ((table.get id).subst s.value)

theorem substituteIn_of_known {id : TypeId} {table : TypeTable}
    (made : ∀ u ∈ (table.get id).made s.value, u ∈ table.types) :
    s.substituteIn id table = table.intern ((table.get id).subst s.value) := by
  rw [substituteIn, TypeTable.internAll_of_mem made]

theorem get_substituteIn {i : TypeId} {table : TypeTable} :
    (s.substituteIn i table).2.get (s.substituteIn i table).1 = (table.get i).subst s.value :=
  TypeTable.get_intern

theorem get_substituteIn_of_lt {i other : TypeId} {table : TypeTable} (inside : other.index < table.size) :
    other.index < (s.substituteIn i table).2.size ∧ (s.substituteIn i table).2.get other = table.get other := by
  have kept := TypeTable.get_internAll_of_lt ((table.get i).made s.value) inside
  have kept' := TypeTable.get_intern_of_lt (t := (table.get i).subst s.value) kept.1
  exact ⟨kept'.1, kept'.2.trans kept.2⟩

theorem Composes.substituteIn_eq (h : first.Plain) (composes : first.Composes second both) {id : TypeId}
    {table : TypeTable} (inside : id.index < table.size) :
    let step := first.substituteIn id table
    both.substituteIn id (second.substituteIn step.1 step.2).2 = second.substituteIn step.1 step.2 := by
  intro step
  have kept : (second.substituteIn step.1 step.2).2.get id = table.get id :=
    have kept := get_substituteIn_of_lt (s := first) (i := id) inside
    ((get_substituteIn_of_lt kept.1).2).trans kept.2
  have value := composes.value_eq h
  have made : ∀ u ∈ (table.get id).made both.value, u ∈ (second.substituteIn step.1 step.2).2.types := by
    intro u hu
    rw [value] at hu
    refine TypeTable.mem_intern.2 (.inl (TypeTable.mem_internAll.2 (.inr ?_)))
    rw [get_substituteIn]
    exact Ty.made_comp _ hu
  rw [substituteIn_of_known (kept ▸ made), kept, value, ← Ty.subst_comp, ← get_substituteIn (i := id)]
  exact TypeTable.intern_intern

theorem substituteIn_of_fixed {id : TypeId} {table : TypeTable} (coherent : table.Coherent)
    (inside : id.index < table.size) (fixed : ∀ v ∈ (table.get id).vars, ¬s.Replaces v) :
    s.substituteIn id table = (id, table) := by
  have fixed : ∀ v ∈ (table.get id).vars, s.value v = .variable v := fun v hv =>
    value_eq_variable (fixed v hv)
  have made := Ty.made_of_fixed coherent.closed _ (TypeTable.mem_of_get inside) fixed
  rw [substituteIn_of_known made, Ty.subst_eq_self fixed, coherent.intern_get inside]

end Substitution

open Resolve Substitution in
/-- Substituting one after the other is substituting once, to the same numbered type; and a type without the
variables of a substitution stays what it is. -/
theorem substitute_composes {first second : Substitution} (plain₁ : first.Plain) (plain₂ : second.Plain)
    (e : Env) {table : TypeTable} (coherent : table.Coherent) {id : TypeId} (inside : id.index < table.size) :
    (∃ both : Substitution, both.Plain ∧ first.Composes second both) ∧
      (∀ both, first.Composes second both → ∃ u j after,
        (do substitute second (← substitute first (table.get id))).run e = (.ok u, e) ∧
        (substitute both (table.get id)).run e = (.ok u, e) ∧
        second.substituteIn (first.substituteIn id table).1 (first.substituteIn id table).2 = (j, after) ∧
        both.substituteIn id after = (j, after) ∧ after.get j = u) ∧
      ((∀ v ∈ (table.get id).vars, ¬first.Replaces v) →
        (substitute first (table.get id)).run e = (.ok (table.get id), e) ∧
        first.substituteIn id table = (id, table)) := by
  refine ⟨⟨_, plain₁.andThen plain₂, plain₁.composes_andThen⟩, fun both composes => ?_, fun fixed => ?_⟩
  · have once := substitute_of_kept (composes.image?_ne_erased plain₁ plain₂) (table.get id)
    rw [composes.value_eq plain₁, ← Ty.subst_comp] at once
    refine ⟨_, _, _, ?_, once _ e, rfl, composes.substituteIn_eq plain₁ inside, ?_⟩
    · exact (bind_apply_ok (substitute_of_kept plain₁.image?_ne_erased _ _ e)).trans
        (substitute_of_kept plain₂.image?_ne_erased _ _ e)
    · exact get_substituteIn.trans (by rw [get_substituteIn])
  · refine ⟨?_, substituteIn_of_fixed coherent inside fixed⟩
    have same := Ty.subst_eq_self fun v hv => value_eq_variable (fixed v hv)
    exact (substitute_of_kept plain₁.image?_ne_erased _ _ e).trans (by rw [same])

theorem substitute_composes_boxed :
    let first : Substitution := .ofArgs [⟨0⟩] [.array (.variable ⟨1⟩)]
    let second : Substitution := .ofArgs [⟨1⟩] [.declared ⟨0⟩]
    let both : Substitution := first.andThen second
    let table : TypeTable := ⟨#[.variable ⟨0⟩, .variable ⟨1⟩, .declared ⟨0⟩, .array (.variable ⟨1⟩),
      .parameterized ⟨1⟩ [.variable ⟨0⟩] none]⟩
    (∃ u j after, (Resolve.substitute both (table.get ⟨4⟩)).run default = (.ok u, default) ∧
      second.substituteIn (first.substituteIn ⟨4⟩ table).1 (first.substituteIn ⟨4⟩ table).2 = (j, after) ∧
      both.substituteIn ⟨4⟩ after = (j, after) ∧ after.get j = u) ∧
    second.substituteIn ⟨4⟩ table = (⟨4⟩, table) := by
  intro first second both table
  have plain₁ : first.Plain := by constructor <;> simp [first, Substitution.ofArgs]
  have plain₂ : second.Plain := by constructor <;> simp [second, Substitution.ofArgs]
  have coherent : table.Coherent := ⟨by decide, by simp [table, Ty.parts]⟩
  have inside : (⟨4⟩ : TypeId).index < table.size := by decide
  have once := (substitute_composes plain₁ plain₂ default coherent inside).2.1 both plain₁.composes_andThen
  have fixed := (substitute_composes plain₂ plain₁ default coherent inside).2.2 (by
    simp [table, TypeTable.get, Ty.vars, Ty.varsOfArgs, Ty.varsOfOption, second, Substitution.Replaces,
      Substitution.ofArgs])
  obtain ⟨u, j, after, -, same, steps, again, made⟩ := once
  exact ⟨⟨u, j, after, same, steps, again, made⟩, fixed.2⟩

end TeamRoles
