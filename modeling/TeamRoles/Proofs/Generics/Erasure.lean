import Mathlib.Data.List.Perm.Subperm
import Mathlib.Logic.Function.Iterate
import TeamRoles.Proofs.Session.Pass

/-!
The two erasures. Both look through bounds, arrays and anchors; one gives the type that is left, the other a
key to compare types by. They agree about all types but the instantiations of the root, which only the first
one takes for the root.
-/

namespace TeamRoles

theorem iterate_eq_iff {α : Type} {f : α → α} {x y : α} (injective : Function.Injective f)
    (hx : ∀ z, x ≠ f z) (hy : ∀ z, y ≠ f z) {j k : Nat} : f^[j] x = f^[k] y ↔ j = k ∧ x = y := by
  induction j generalizing k with
  | zero =>
    cases k with
    | zero => simp
    | succ k => simp [Function.iterate_succ_apply', hx]
  | succ j ih =>
    cases k with
    | zero => simpa [Function.iterate_succ_apply'] using (hy _).symm
    | succ k => simp only [Function.iterate_succ_apply', injective.eq_iff, ih, Nat.succ_inj]

namespace Ty

/-- The erasure of a type that nothing can be looked into of. -/
def headErased : Ty → ErasedType
  | .primitive b => .primitive b
  | .null => .null
  | .declared b | .parameterized b _ _ | .raw b _ => .cls b
  | _ => .root

/-- Is the type an instantiation of the class, if only a raw one? -/
def isInstanceOf (b : BindingId) : Ty → Bool
  | .parameterized generic _ _ | .raw generic _ => generic == b
  | _ => false

end Ty

namespace Env

variable {e : Env} {t s u w : Ty} {j k m n fuel : Nat}

def inside? (e : Env) : Ty → Option Ty
  | .variable v => (e.typeVar v).bounds.head?
  | .wildcard .extends bound => bound
  | .captured c => some (e.capture c).upper
  | .array component => some component
  | .anchored role _ => some role
  | _ => none

theorem inside_cases (more : e.inside? t = some s) :
    (∃ v, t = .variable v ∧ (e.typeVar v).bounds.head? = some s) ∨ t = .wildcard .extends (some s) ∨
    (∃ c, t = .captured c ∧ (e.capture c).upper = s) ∨ t = .array s ∨ ∃ path, t = .anchored s path := by
  unfold inside? at more
  split at more
  · next v => exact .inl ⟨v, rfl, more⟩
  · next bound => exact .inr (.inl (by rw [more]))
  · next c => exact .inr (.inr (.inl ⟨c, rfl, Option.some.inj more⟩))
  · next component => exact .inr (.inr (.inr (.inl (by rw [Option.some.inj more]))))
  · next role path => exact .inr (.inr (.inr (.inr ⟨path, by rw [Option.some.inj more]⟩)))
  · cases more

def HasHead (e : Env) : Ty → Prop
  | .declared b => b.index < e.bindings.size
  | .captured c => c.index < e.captures.size
  | _ => True

/-- Looking into a type step by step ends; `k` of the `n` steps are into arrays, and the last type is `u`. -/
inductive Unfolds (e : Env) : Nat → Ty → Nat → Ty → Prop
  | done {t : Ty} : e.inside? t = none → e.HasHead t → Unfolds e 0 t 0 t
  | array {n k : Nat} {t u : Ty} : Unfolds e n t k u → Unfolds e (n + 1) (.array t) (k + 1) u
  | into {n k : Nat} {t s u : Ty} : (∀ component, t ≠ .array component) → e.HasHead t → e.inside? t = some s →
    Unfolds e n s k u → Unfolds e (n + 1) t k u

theorem Unfolds.inside_eq_none (h : e.Unfolds n t k u) : e.inside? u = none ∧ e.HasHead u := by
  induction h with
  | done last there => exact ⟨last, there⟩
  | array _ ih | into _ _ _ _ ih => exact ih

theorem Unfolds.steps_eq (h : e.Unfolds n t k u) (h' : e.Unfolds m t j w) : n = m := by
  induction h generalizing m j w with
  | done last _ =>
    cases h' with
    | done => rfl
    | array => cases last
    | into _ _ more => cases last.symm.trans more
  | array _ ih =>
    cases h' with
    | done last => cases last
    | array h' => rw [ih h']
    | into other => exact absurd rfl (other _)
  | into other _ more _ ih =>
    cases h' with
    | done last => cases last.symm.trans more
    | array => exact absurd rfl (other _)
    | into _ _ more' h' =>
      cases more.symm.trans more'
      rw [ih h']

def headKey (e : Env) (t : Ty) : ErasedType :=
  match t with
  | .declared b => if e.isObject b then .root else .cls b
  | t => t.headErased

theorem erasedKey_of_inside (other : ∀ component, t ≠ .array component) (more : e.inside? t = some s) :
    e.erasedKey (n + 1) t = e.erasedKey n s := by
  match t with
  | .variable v => rw [erasedKey, show (e.typeVar v).bounds.head? = some s from more]
  | .wildcard .extends (some bound) => cases more; rw [erasedKey]
  | .captured c => cases more; rw [erasedKey]
  | .anchored role path => cases more; rw [erasedKey]
  | .array component => exact absurd rfl (other component)
  | .wildcard .extends none | .wildcard .unbounded _ | .wildcard .super _ => cases more
  | .primitive _ | .null | .declared _ | .parameterized _ _ _ | .raw _ _ => cases more

theorem erasedKey_of_inside_eq_none (last : e.inside? t = none) : e.erasedKey (n + 1) t = e.headKey t := by
  match t with
  | .variable v => rw [erasedKey, show (e.typeVar v).bounds.head? = none from last]; rfl
  | .wildcard .extends none | .wildcard .unbounded _ | .wildcard .super _ => rfl
  | .wildcard .extends (some _) | .captured _ | .array _ | .anchored _ _ => cases last
  | .primitive _ | .null | .declared _ | .parameterized _ _ _ | .raw _ _ => rfl

theorem Unfolds.erasedKey_eq (h : e.Unfolds n t k u) (deep : n < m) :
    e.erasedKey m t = ErasedType.array^[k] (e.headKey u) := by
  induction h generalizing m with
  | done last _ =>
    obtain ⟨m, rfl⟩ := Nat.exists_eq_add_of_lt deep
    rw [Nat.zero_add, erasedKey_of_inside_eq_none last]
    rfl
  | array _ ih =>
    cases m with
    | zero => cases deep
    | succ m => rw [erasedKey, ih (Nat.lt_of_succ_lt_succ deep), Function.iterate_succ_apply']
  | into other _ more _ ih =>
    cases m with
    | zero => cases deep
    | succ m => rw [erasedKey_of_inside other more, ih (Nat.lt_of_succ_lt_succ deep)]

/-- What erasure has passed when `n` steps are left to take. -/
structure Descent (e : Env) (n fuel : Nat) (vars : List TypeVarId) (captures : List CaptureId) : Prop where
  fuel_eq : fuel + vars.length + captures.length = e.typeVars.size + e.captures.size + 1
  vars_nodup : vars.Nodup
  captures_nodup : captures.Nodup
  vars : ∀ v ∈ vars, v.index < e.typeVars.size ∧ ∃ m > n, ∃ j u, e.Unfolds m (.variable v) j u
  captures : ∀ c ∈ captures, c.index < e.captures.size ∧ ∃ m > n, ∃ j u, e.Unfolds m (.captured c) j u

theorem length_le_of_nodup {α : Type} (index : α → Nat) (injective : Function.Injective index) {l : List α}
    (nodup : l.Nodup) (inside : ∀ a ∈ l, index a < n) : l.length ≤ n := by
  have sub : l.map index ⊆ List.range n := by
    intro i hi
    obtain ⟨a, ha, rfl⟩ := List.mem_map.1 hi
    exact List.mem_range.2 (inside a ha)
  have le := ((nodup.map injective).subperm sub).length_le
  rwa [List.length_map, List.length_range] at le

theorem length_vars_le {vars : List TypeVarId} (nodup : vars.Nodup) (there : ∀ v ∈ vars, v.index < n) :
    vars.length ≤ n := length_le_of_nodup TypeVarId.index (fun ⟨_⟩ ⟨_⟩ => congrArg _) nodup there

namespace Descent

variable {vars : List TypeVarId} {captures : List CaptureId}

/-- Variables and captures are passed once, so the fuel does not run out. -/
theorem exists_fuel (h : e.Descent n fuel vars captures) : ∃ left, fuel = left + 1 := by
  have vars_le := length_vars_le h.vars_nodup fun v hv => (h.vars v hv).1
  have captures_le : captures.length ≤ e.captures.size :=
    length_le_of_nodup CaptureId.index (fun ⟨_⟩ ⟨_⟩ => congrArg _) h.captures_nodup
      fun c hc => (h.captures c hc).1
  have fuel_eq := h.fuel_eq
  exact Nat.exists_eq_add_one.2 (by omega)

theorem step (h : e.Descent (n + 1) fuel vars captures) : e.Descent n fuel vars captures where
  fuel_eq := h.fuel_eq
  vars_nodup := h.vars_nodup
  captures_nodup := h.captures_nodup
  vars v hv := (h.vars v hv).imp_right fun ⟨m, lt, rest⟩ => ⟨m, Nat.lt_of_succ_lt lt, rest⟩
  captures c hc := (h.captures c hc).imp_right fun ⟨m, lt, rest⟩ => ⟨m, Nat.lt_of_succ_lt lt, rest⟩

theorem not_mem_vars {v : TypeVarId} (h : e.Descent n fuel vars captures)
    (unfolds : e.Unfolds n (.variable v) k u) : v ∉ vars := by
  intro passed
  obtain ⟨-, m, lt, j, w, earlier⟩ := h.vars v passed
  exact absurd (unfolds.steps_eq earlier) (Nat.ne_of_lt lt)

theorem not_mem_captures {c : CaptureId} (h : e.Descent n fuel vars captures)
    (unfolds : e.Unfolds n (.captured c) k u) : c ∉ captures := by
  intro passed
  obtain ⟨-, m, lt, j, w, earlier⟩ := h.captures c passed
  exact absurd (unfolds.steps_eq earlier) (Nat.ne_of_lt lt)

theorem passVar {v : TypeVarId} (h : e.Descent (n + 1) (fuel + 1) vars captures)
    (unfolds : e.Unfolds (n + 1) (.variable v) k u) (inside : v.index < e.typeVars.size) :
    e.Descent n fuel (v :: vars) captures where
  fuel_eq := by
    have fuel_eq := h.fuel_eq
    rw [List.length_cons]
    omega
  vars_nodup := List.nodup_cons.2 ⟨h.not_mem_vars unfolds, h.vars_nodup⟩
  captures_nodup := h.captures_nodup
  vars := List.forall_mem_cons.2 ⟨⟨inside, n + 1, Nat.lt_succ_self n, k, u, unfolds⟩, h.step.vars⟩
  captures := h.step.captures

theorem passCapture {c : CaptureId} (h : e.Descent (n + 1) (fuel + 1) vars captures)
    (unfolds : e.Unfolds (n + 1) (.captured c) k u) (inside : c.index < e.captures.size) :
    e.Descent n fuel vars (c :: captures) where
  fuel_eq := by
    have fuel_eq := h.fuel_eq
    rw [List.length_cons]
    omega
  vars_nodup := h.vars_nodup
  captures_nodup := List.nodup_cons.2 ⟨h.not_mem_captures unfolds, h.captures_nodup⟩
  vars := h.step.vars
  captures := List.forall_mem_cons.2 ⟨⟨inside, n + 1, Nat.lt_succ_self n, k, u, unfolds⟩, h.step.captures⟩

theorem start : e.Descent n (e.typeVars.size + e.captures.size + 1) [] [] :=
  ⟨rfl, List.nodup_nil, List.nodup_nil, nofun, nofun⟩

end Descent

theorem lt_size_of_bounds {v : TypeVarId} (h : (e.typeVar v).bounds.head? = some s) :
    v.index < e.typeVars.size := by
  refine Nat.lt_of_not_le fun outside => ?_
  rw [typeVar, Array.getElem?_eq_none outside] at h
  cases h

theorem eraseFrom_of_inside_eq_none {seen : List TypeVarId} (last : e.inside? t = none) :
    e.eraseFrom (fuel + 1) seen t = t.headErased := by
  rw [eraseFrom]
  cases t with
  | «variable» v => rw [Ty.eraseWith, show (e.typeVar v).bounds.head? = none from last]; rfl
  | wildcard kind bound =>
    cases kind with
    | «extends» =>
      cases bound with
      | none => rfl
      | some _ => cases last
    | _ => rfl
  | captured _ | array _ | anchored _ _ => cases last
  | _ => rfl

theorem eraseFrom_array {seen : List TypeVarId} :
    e.eraseFrom (fuel + 1) seen (.array t) = .array (e.eraseFrom (fuel + 1) seen t) := by
  rw [eraseFrom, Ty.eraseWith, eraseFrom]

theorem eraseFrom_wildcard {seen : List TypeVarId} :
    e.eraseFrom (fuel + 1) seen (.wildcard .extends (some t)) = e.eraseFrom (fuel + 1) seen t := by
  rw [eraseFrom, Ty.eraseWith, eraseFrom]

theorem eraseFrom_anchored {seen : List TypeVarId} {path : List FieldId} :
    e.eraseFrom (fuel + 1) seen (.anchored t path) = e.eraseFrom (fuel + 1) seen t := by
  rw [eraseFrom, Ty.eraseWith, eraseFrom]

theorem eraseFrom_captured {seen : List TypeVarId} {c : CaptureId} :
    e.eraseFrom (fuel + 1) seen (.captured c) = e.eraseFrom fuel seen (e.capture c).upper := by
  rw [eraseFrom, Ty.eraseWith]

theorem eraseFrom_again {seen : List TypeVarId} {v : TypeVarId} (passed : v ∈ seen) :
    e.eraseFrom (fuel + 1) seen (.variable v) = .root := by
  rw [eraseFrom, Ty.eraseWith]
  split
  · exact if_pos (List.contains_iff_mem.2 passed)
  · rfl

theorem eraseFrom_variable {seen : List TypeVarId} {v : TypeVarId} (more : (e.typeVar v).bounds.head? = some s)
    (new : v ∉ seen) : e.eraseFrom (fuel + 1) seen (.variable v) = e.eraseFrom fuel (v :: seen) s := by
  rw [eraseFrom, Ty.eraseWith, more]
  exact if_neg (mt List.contains_iff_mem.1 new)

theorem Unfolds.eraseFrom_eq {vars : List TypeVarId} {captures : List CaptureId} (h : e.Unfolds n t k u)
    (passed : e.Descent n fuel vars captures) : e.eraseFrom fuel vars t = ErasedType.array^[k] u.headErased := by
  induction h generalizing fuel vars captures with
  | done last _ =>
    obtain ⟨fuel, rfl⟩ := passed.exists_fuel
    exact eraseFrom_of_inside_eq_none last
  | array _ ih =>
    obtain ⟨fuel, rfl⟩ := passed.exists_fuel
    rw [eraseFrom_array, ih passed.step, Function.iterate_succ_apply']
  | @into n k t s u other there more rest ih =>
    obtain ⟨fuel, rfl⟩ := passed.exists_fuel
    have whole := Unfolds.into other there more rest
    match t with
    | .variable v =>
      have inside : v.index < e.typeVars.size := lt_size_of_bounds more
      rw [eraseFrom_variable more (passed.not_mem_vars whole), ih (passed.passVar whole inside)]
    | .captured c =>
      cases more
      rw [eraseFrom_captured, ih (passed.passCapture whole there)]
    | .wildcard .extends (some bound) =>
      cases more
      rw [eraseFrom_wildcard, ih passed.step]
    | .anchored role path =>
      cases more
      rw [eraseFrom_anchored, ih passed.step]
    | .array component => exact absurd rfl (other component)
    | .wildcard .extends none | .wildcard .unbounded _ | .wildcard .super _ => cases more
    | .primitive _ | .null | .declared _ | .parameterized _ _ _ | .raw _ _ => cases more

theorem Unfolds.erase_eq (h : e.Unfolds n t k u) : e.erase t = ErasedType.array^[k] u.headErased :=
  h.eraseFrom_eq .start

end Env

namespace Resolve

variable {e e₀ : Env} {o : Oracle} {root : Ty}

theorem exists_ofErased {P : Oracle → Prop} (looked : ∀ o, P o → objectType o e = (.ok root, e₀)) (x : ErasedType) :
    ∃ e', ∀ o, P o → ofErased x o e = (.ok (x.toTy root), e') := by
  induction x with
  | primitive b | null | cls b => exact ⟨e, fun _ _ => rfl⟩
  | root => exact ⟨e₀, looked⟩
  | array component ih =>
    obtain ⟨e', made⟩ := ih
    exact ⟨e', fun o asked => bind_apply_ok (made o asked)⟩

theorem ofErased_apply (looked : objectType o e = (.ok root, e₀)) (x : ErasedType) :
    ∃ e', ofErased x o e = (.ok (x.toTy root), e') := by
  have same (o' : Oracle) (h : o' = o) : objectType o' e = (.ok root, e₀) := h ▸ looked
  obtain ⟨e', made⟩ := exists_ofErased same x
  exact ⟨e', made o rfl⟩

end Resolve

namespace ErasedType

theorem toTy_iterate {root : Ty} {k : Nat} {x : ErasedType} :
    (ErasedType.array^[k] x).toTy root = Ty.array^[k] (x.toTy root) := by
  induction k generalizing x with
  | zero => rfl
  | succ k ih => rw [Function.iterate_succ_apply, ih, toTy, ← Function.iterate_succ_apply]

end ErasedType

namespace Env

variable {e e₀ : Env} {root : BindingId} {a b t u w : Ty} {j k m n : Nat}

def OnlyRoot (e : Env) (root : BindingId) : Prop := ∀ b, e.Named e.options.wellKnown.object b ↔ b = root

theorem OnlyRoot.isObject_iff {b : BindingId} (h : e.OnlyRoot root) (inside : b.index < e.bindings.size) :
    e.isObject b = true ↔ b = root := by
  rw [← h b, isObject, beq_iff_eq]
  exact ⟨fun named => ⟨inside, named⟩, And.right⟩

theorem OnlyRoot.head_cases (h : e.OnlyRoot root) (last : e.inside? t = none) (there : e.HasHead t) :
    (∃ p, e.headKey t = .primitive p ∧ t.headErased = .primitive p ∧ t.isInstanceOf root = false) ∨
    (e.headKey t = .null ∧ t.headErased = .null ∧ t.isInstanceOf root = false) ∨
    (∃ b, e.headKey t = (if b = root then .root else .cls b) ∧
      t.headErased.toTy (.declared root) = .declared b ∧ t.isInstanceOf root = false) ∨
    ∃ g, e.headKey t = .cls g ∧ t.headErased = .cls g ∧ t.isInstanceOf root = (g == root) := by
  match t with
  | .primitive p => exact .inl ⟨p, rfl, rfl, rfl⟩
  | .null => exact .inr (.inl ⟨rfl, rfl, rfl⟩)
  | .declared b => exact .inr (.inr (.inl ⟨b, by simp [headKey, h.isObject_iff there], rfl, rfl⟩))
  | .parameterized g _ _ | .raw g _ => exact .inr (.inr (.inr ⟨g, rfl, rfl, rfl⟩))
  | .variable _ | .wildcard _ _ => exact .inr (.inr (.inl ⟨root, by simp [headKey, Ty.headErased], rfl, rfl⟩))
  | .captured _ | .array _ | .anchored _ _ => cases last

theorem OnlyRoot.headKey_eq_iff (h : e.OnlyRoot root) (hu : e.inside? u = none ∧ e.HasHead u)
    (hw : e.inside? w = none ∧ e.HasHead w) : e.headKey u = e.headKey w ↔
      u.headErased.toTy (.declared root) = w.headErased.toTy (.declared root) ∧
        u.isInstanceOf root = w.isInstanceOf root := by
  rcases h.head_cases hu.1 hu.2 with ⟨p, hu⟩ | hu | ⟨b, hu⟩ | ⟨b, hu⟩ <;>
    rcases h.head_cases hw.1 hw.2 with ⟨q, hw⟩ | hw | ⟨c, hw⟩ | ⟨c, hw⟩ <;>
    simp only [hu, hw, ErasedType.toTy] <;> grind

theorem headKey_ne_array (x : ErasedType) : e.headKey t ≠ .array x := by
  unfold headKey
  split
  · split <;> nofun
  · cases t <;> nofun

theorem toTy_headErased_ne_array (u : Ty) : t.headErased.toTy (.declared root) ≠ .array u := by
  cases t <;> nofun

/-- Two types compare equal if they have the same erasure and both or none of them end in an instantiation of
the root. -/
theorem sameErasure_iff (unique : e.OnlyRoot root)
    (looked : (Resolve.wellKnown (·.object)).run e = (.ok root, e₀))
    (ha : e.Unfolds m a j u) (hb : e.Unfolds n b k w) (hm : m ≤ 32) (hn : n ≤ 32) :
    ∃ x y e₁ e₂, (Resolve.erasure a).run e = (.ok x, e₁) ∧ (Resolve.erasure b).run e = (.ok y, e₂) ∧
      (e.sameErasure a b = true ↔ x = y ∧ u.isInstanceOf root = w.isInstanceOf root) := by
  have looked : Resolve.objectType (Resolve.oracle Resolve.maxDepth) e = (.ok (.declared root), e₀) :=
    Resolve.bind_apply_ok looked
  obtain ⟨e₁, first⟩ := Resolve.ofErased_apply looked (e.erase a)
  obtain ⟨e₂, second⟩ := Resolve.ofErased_apply looked (e.erase b)
  refine ⟨_, _, e₁, e₂, first, second, ?_⟩
  have keys : e.sameErasure a b = true ↔ e.erasedKey erasureDepth a = e.erasedKey erasureDepth b := by
    simp only [sameErasure, Bool.or_eq_true, beq_iff_eq, or_iff_right_iff_imp]
    exact congrArg _
  have deep₁ : m < erasureDepth := Nat.lt_succ_of_le hm
  have deep₂ : n < erasureDepth := Nat.lt_succ_of_le hn
  rw [keys, ha.erasedKey_eq deep₁, hb.erasedKey_eq deep₂, ha.erase_eq, hb.erase_eq,
    ErasedType.toTy_iterate, ErasedType.toTy_iterate,
    iterate_eq_iff (fun _ _ => ErasedType.array.inj) headKey_ne_array headKey_ne_array,
    iterate_eq_iff (fun _ _ => Ty.array.inj) toTy_headErased_ne_array toTy_headErased_ne_array,
    unique.headKey_eq_iff ha.inside_eq_none hb.inside_eq_none, and_assoc]

def rootWithParameter : UnitDecl where
  fileName := "Object"
  package := "core"
  types := [{ name := "Object", typeParams := [{ name := "T" }] }]

def rootGeneric : Env :=
  ((Operation.addUnits [rootWithParameter]).perform.run
    { options := {}, provider := (Library.core {}).provider }).2

theorem reachable_rootGeneric : Reachable (Library.core {}).provider {} rootGeneric :=
  .step (.addUnits [rootWithParameter]) (.new rfl)

theorem onlyRoot_rootGeneric : rootGeneric.OnlyRoot ⟨0⟩ := by
  have facts : rootGeneric.bindings.size = 1 ∧ rootGeneric.isObject ⟨0⟩ = true := by decide +kernel
  intro b
  constructor
  · rintro ⟨inside, -⟩
    rw [facts.1, Nat.lt_one_iff] at inside
    cases b
    cases inside
    rfl
  · rintro rfl
    exact ⟨by rw [facts.1]; exact Nat.one_pos, beq_iff_eq.1 facts.2⟩

theorem wellKnown_rootGeneric : ((Resolve.wellKnown (·.object)).run rootGeneric).1 = .ok ⟨0⟩ := by
  decide +kernel

theorem sameErasure_iff_anyRoot :
    ∃ x y e₁ e₂, (Resolve.erasure (.array .any)).run rootGeneric = (.ok x, e₁) ∧
      (Resolve.erasure (.array (.declared ⟨0⟩))).run rootGeneric = (.ok y, e₂) ∧
      (rootGeneric.sameErasure (.array .any) (.array (.declared ⟨0⟩)) = true ↔ x = y) := by
  have there : rootGeneric.HasHead (.declared ⟨0⟩) := by
    change 0 < rootGeneric.bindings.size
    decide +kernel
  have any : rootGeneric.Unfolds 0 .any 0 .any := .done rfl trivial
  obtain ⟨x, y, e₁, e₂, first, second, iff⟩ :=
    sameErasure_iff onlyRoot_rootGeneric (Resolve.run_of_outcome wellKnown_rootGeneric)
      any.array (.array (.done rfl there)) (by decide) (by decide)
  exact ⟨x, y, e₁, e₂, first, second, by simpa [Ty.any, Ty.isInstanceOf] using iff⟩

/-- The bare use of a generic root erases to the root, and yet does not compare equal to it. -/
theorem exists_sameErasure_apart :
    ∃ provider options e e₀ root, Reachable provider options e ∧ e.OnlyRoot root ∧
      (Resolve.wellKnown (·.object)).run e = (.ok root, e₀) ∧ e.boundChecks = [] ∧
      e.bareType root = .raw root none ∧ e.Unfolds 0 (.raw root none) 0 (.raw root none) ∧
      e.Unfolds 0 (.declared root) 0 (.declared root) ∧
      (Resolve.erasure (.raw root none)).run e = (.ok (.declared root), e) ∧
      (Resolve.erasure (.declared root)).run e = (.ok (.declared root), e) ∧
      e.sameErasure (.raw root none) (.declared root) = false := by
  have facts : rootGeneric.boundChecks = [] ∧ rootGeneric.bareType ⟨0⟩ = .raw ⟨0⟩ none ∧
      0 < rootGeneric.bindings.size ∧ rootGeneric.sameErasure (.raw ⟨0⟩ none) (.declared ⟨0⟩) = false := by
    decide +kernel
  obtain ⟨unwritten, bare, inside, apart⟩ := facts
  exact ⟨_, _, rootGeneric, _, ⟨0⟩, reachable_rootGeneric, onlyRoot_rootGeneric,
    Resolve.run_of_outcome wellKnown_rootGeneric, unwritten, bare, .done rfl trivial, .done rfl inside, rfl, rfl, apart⟩

end Env

end TeamRoles
