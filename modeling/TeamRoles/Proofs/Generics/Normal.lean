import TeamRoles.Proofs.Generics.Ages
import TeamRoles.Proofs.Generics.Erasure
import TeamRoles.Proofs.Hierarchy.Acyclic
import TeamRoles.Proofs.Lookup.Halting

/-!
Erasure normalizes types. Its rules end for every type of a session, since a variable is looked through once and a
capture rests on older ones; what is left is a class, a primitive type, the null type or an array of such, and is
its own erasure (`erasure_normalizes`). Where the root is left it may have to be read, and that does not end if its
descriptor has it lie in types that go round (`exists_erasure_endless`).
-/

namespace TeamRoles

namespace Ty

/-- A primitive type, the null type, a class, or an array of such a type. -/
def isErased : Ty → Bool
  | .primitive _ | .null | .declared _ => true
  | .array component => component.isErased
  | _ => false

end Ty

theorem ErasedType.isErased_toTy {root : BindingId} {x : ErasedType} : (x.toTy (.declared root)).isErased = true := by
  induction x with
  | primitive b | null | cls b | root => rfl
  | array component ih => exact ih

namespace Env

variable {e : Env} {t : Ty} {k fuel : Nat} {v : TypeVarId} {g : BindingId} {seen : List TypeVarId} {x y : ErasedType}

/-- The rules of erasure, where the variables that are being looked through are known. -/
inductive Erases (e : Env) : List TypeVarId → Ty → ErasedType → Prop
  | last {seen : List TypeVarId} {t : Ty} : e.inside? t = none → Erases e seen t t.headErased
  | again {seen : List TypeVarId} {v : TypeVarId} : v ∈ seen → Erases e seen (.variable v) .root
  | bound {seen : List TypeVarId} {v : TypeVarId} {s : Ty} {x : ErasedType} : (e.typeVar v).bounds.head? = some s →
    v ∉ seen → Erases e (v :: seen) s x → Erases e seen (.variable v) x
  | upper {seen : List TypeVarId} {c : CaptureId} {x : ErasedType} :
    Erases e seen (e.capture c).upper x → Erases e seen (.captured c) x
  | wildcard {seen : List TypeVarId} {bound : Ty} {x : ErasedType} :
    Erases e seen bound x → Erases e seen (.wildcard .extends (some bound)) x
  | array {seen : List TypeVarId} {t : Ty} {x : ErasedType} : Erases e seen t x → Erases e seen (.array t) (.array x)
  | anchored {seen : List TypeVarId} {role : Ty} {path : List FieldId} {x : ErasedType} :
    Erases e seen role x → Erases e seen (.anchored role path) x

theorem Erases.unique (h : e.Erases seen t x) (h' : e.Erases seen t y) : x = y := by
  -- No two rules fit one type and one set of passed variables.
  induction h generalizing y with
  | last none =>
    cases h' with
    | last | again => rfl
    | bound more => cases none.symm.trans more
    | upper | wildcard | array | anchored => cases none
  | again met =>
    cases h' with
    | last | again => rfl
    | bound _ new => exact absurd met new
  | bound more new _ ih =>
    cases h' with
    | last none => cases none.symm.trans more
    | again met => exact absurd met new
    | bound more' _ h' =>
      cases more.symm.trans more'
      exact ih h'
  | upper _ ih =>
    cases h' with
    | last none => cases none
    | upper h' => exact ih h'
  | wildcard _ ih =>
    cases h' with
    | last none => cases none
    | wildcard h' => exact ih h'
  | array _ ih =>
    cases h' with
    | last none => cases none
    | array h' => rw [ih h']
  | anchored _ ih =>
    cases h' with
    | last none => cases none
    | anchored h' => exact ih h'

/-- Variables are passed once and captures from younger to older ones, so the fuel does not run out. -/
theorem erases_eraseFrom (aged : e.Aged) (below : t.RestsBelow k) (nodup : seen.Nodup)
    (there : ∀ v ∈ seen, v.index < e.typeVars.size) (enough : k + e.typeVars.size < seen.length + fuel) :
    e.Erases seen t (e.eraseFrom fuel seen t) := by
  induction fuel generalizing seen t k with
  | zero =>
    have passed := length_vars_le nodup there
    omega
  | succ fuel ih =>
    -- Wildcards, arrays and anchored types are looked into with the same fuel.
    fun_induction Ty.RestsBelow k t with
    | case1 c =>
      rw [eraseFrom_captured]
      exact .upper (ih (aged.uppers c) nodup there (by omega))
    | case2 bound inner =>
      rw [eraseFrom_wildcard]
      exact .wildcard (inner below)
    | case3 component inner =>
      rw [eraseFrom_array]
      exact .array (inner below)
    | case4 role path inner =>
      rw [eraseFrom_anchored]
      exact .anchored (inner below)
    | case5 t captured wildcard array anchored =>
      cases more : e.inside? t with
      | none =>
        rw [eraseFrom_of_inside_eq_none more]
        exact .last more
      | some s =>
        obtain ⟨v, rfl, -⟩ | rfl | ⟨c, rfl, -⟩ | rfl | ⟨path, rfl⟩ := inside_cases more
        · by_cases passed : v ∈ seen
          · rw [eraseFrom_again passed]
            exact .again passed
          · rw [eraseFrom_variable more passed]
            have first : s.RestsBelow 0 := aged.bounds v s (List.mem_of_head? more)
            refine .bound more passed (ih first (List.nodup_cons.2 ⟨passed, nodup⟩) ?_ ?_)
            · exact List.forall_mem_cons.2 ⟨lt_size_of_bounds more, there⟩
            · rw [List.length_cons]
              omega
        · exact (wildcard s rfl).elim
        · exact (captured c rfl).elim
        · exact (array s rfl).elim
        · exact (anchored s path rfl).elim

theorem erases_iff (aged : e.Aged) (known : t.Within e.captures.size) : e.Erases [] t x ↔ x = e.erase t := by
  have erased : e.Erases [] t (e.erase t) := by
    refine erases_eraseFrom aged known.restsBelow List.nodup_nil (List.forall_mem_nil _) ?_
    rw [List.length_nil]
    omega
  refine ⟨fun other => other.unique erased, ?_⟩
  rintro rfl
  exact erased

theorem erase_of_isInstanceOf (ofGeneric : t.isInstanceOf g = true) : e.erase t = .cls g := by
  cases t with
  | parameterized generic _ _ | raw generic _ =>
    cases beq_iff_eq.1 ofGeneric
    exact eraseFrom_of_inside_eq_none rfl
  | _ => cases ofGeneric

end Env

namespace Resolve

variable {e d : Env} {t : Ty} {o : Oracle}

theorem erasure_of_isErased (erased : t.isErased = true) : erasure t o d = (.ok t, d) := by
  fun_induction Ty.isErased t with
  | case1 b | case2 | case3 b => rfl
  | case4 component ih =>
    have left : ofErased (d.erase component) o d = (.ok component, d) := ih erased
    change ofErased (d.erase (.array component)) o d = _
    rw [Env.erase, Env.eraseFrom_array]
    exact bind_apply_ok left
  | case5 => cases erased

theorem ofErased_of_hasRoot_eq_false {root : Ty} {x : ErasedType} (rootless : x.hasRoot = false) :
    ofErased x o d = (.ok (x.toTy root), d) := by
  induction x with
  | primitive b | null | cls b => rfl
  | root => cases rootless
  | array component ih => exact bind_apply_ok (ih rootless)

theorem ofErased_of_hasRoot {x : ErasedType} {cause : Abort} (hasRoot : x.hasRoot = true)
    (aborted : objectType o d = (.error cause, d)) : ofErased x o d = (.error cause, d) := by
  induction x with
  | primitive b | null | cls b => cases hasRoot
  | root => exact aborted
  | array component ih => exact bind_apply_error (ih hasRoot)

theorem exists_erasure (ends : (e.erase t).hasRoot = true → Acc e.provider.Around e.options.wellKnown.object) :
    ∃ depth root e', ∀ n ≥ depth, erasure t (oracle n) e = (.ok ((e.erase t).toTy (.declared root)), e') := by
  by_cases hasRoot : (e.erase t).hasRoot = true
  · obtain ⟨depth, object, e₀, looked⟩ := halts_objectType (ends hasRoot)
    obtain ⟨root, _, -, ⟨⟩⟩ := bind_eq_ok (looked depth (Nat.le_refl _))
    have deep : ∀ o, (∃ n ≥ depth, o = oracle n) → objectType o e = (.ok (.declared root), e₀) := by
      rintro _ ⟨n, le, rfl⟩
      exact looked n le
    obtain ⟨e', made⟩ := exists_ofErased deep (e.erase t)
    exact ⟨depth, root, e', fun n le => made (oracle n) ⟨n, le, rfl⟩⟩
  · exact ⟨0, default, e, fun n _ => ofErased_of_hasRoot_eq_false (Bool.eq_false_iff.2 hasRoot)⟩

end Resolve

namespace Env

variable {provider : Provider} {options : Options} {e : Env} {t : Ty}

/-- Erasure applies its rules to the end, in one way, and gives a class, a primitive type, the null type or an
array of such, which is its own erasure ever after; an instantiation is left as its generic class. Where the root is
left it may have to be read, and must not lie in types without end. -/
theorem erasure_normalizes (h : ReachableKnown provider options e)
    (ends : (e.erase t).hasRoot = true → Acc provider.Around options.wellKnown.object)
    (known : t.Within e.captures.size) :
    (∀ x, e.Erases [] t x ↔ x = e.erase t) ∧
    ∃ depth root e', let r := (e.erase t).toTy (.declared root)
      (∀ n ≥ depth, Resolve.erasure t (Resolve.oracle n) e = (.ok r, e')) ∧ r.isErased = true ∧
      (∀ o d, Resolve.erasure r o d = (.ok r, d)) ∧ ∀ g, t.isInstanceOf g = true → r = .declared g := by
  obtain ⟨-, rfl, rfl⟩ := h.reachable.coherent
  obtain ⟨depth, root, e', erased⟩ := Resolve.exists_erasure (t := t) ends
  refine ⟨fun _ => erases_iff h.aged known, depth, root, e', erased, ErasedType.isErased_toTy,
    fun _ _ => Resolve.erasure_of_isErased ErasedType.isErased_toTy, fun g ofGeneric => ?_⟩
  rw [erase_of_isInstanceOf ofGeneric]
  rfl

/-- A class whose type parameters are bounded by each other, one of them by an array. -/
def tangles : UnitDecl where
  fileName := "U"
  package := "p"
  types := [{
    name := "Tangle"
    typeParams := [⟨"T", [.array (.variable "U")]⟩, ⟨"U", [.variable "T"]⟩] }]

/-- A session in which the class has been declared and wildcards for both parameters have been opened. -/
def tangled : Env :=
  ((Operation.capture (.parameterized ⟨0⟩ [.any, .any] none) {}).perform.run
    ((Operation.addUnits [tangles]).perform.run { options := {}, provider := (Library.core {}).provider }).2).2

theorem reachableKnown_tangled : ReachableKnown (Library.core {}).provider {} tangled := by
  have any : Ty.any.Within 0 := .intro (by simp [Ty.any]) (by simp [Ty.any, Ty.parts])
  have known : (Ty.parameterized ⟨0⟩ [.any, .any] none).Within 0 := .intro (by simp) (by simp [Ty.parts, any])
  exact .step (.capture _ {}) known (.step (.addUnits [tangles]) trivial (.new rfl))

theorem acc_around_core : Acc (Library.core {}).provider.Around ({} : Options).wellKnown.object := by
  have top : ((Library.core {}).types.lookup ({} : Options).wellKnown.object).bind (·.enclosing) = none := by
    decide +kernel
  refine .intro _ ?_
  rintro outer ⟨d, given, enclosing, -⟩
  rw [Except.ok.inj given, Option.bind_some, enclosing] at top
  cases top

theorem erasure_normalizes_tangled :
    ReachableKnown (Library.core {}).provider {} tangled ∧
    Acc (Library.core {}).provider.Around ({} : Options).wellKnown.object ∧
    (Ty.captured ⟨0⟩).Within tangled.captures.size ∧
    ∃ depth root e', ∀ n ≥ depth,
      Resolve.erasure (.captured ⟨0⟩) (Resolve.oracle n) tangled = (.ok (.array (.array (.declared root))), e') := by
  have facts : 0 < tangled.captures.size ∧ tangled.erase (.captured ⟨0⟩) = .array (.array .root) := by decide +kernel
  have known : (Ty.captured ⟨0⟩).Within tangled.captures.size :=
    .intro (by simpa using facts.1) (by simp [Ty.parts])
  obtain ⟨-, depth, root, e', erased, -⟩ := erasure_normalizes reachableKnown_tangled (fun _ => acc_around_core) known
  rw [facts.2] at erased
  exact ⟨reachableKnown_tangled, acc_around_core, known, depth, root, e', erased⟩

/-- Two types that lie in each other, one of them the root. -/
def roundabout : Library :=
  (Library.insert {} { name := "core.Object", enclosing := some "core.Outer" }).insert
    { name := "core.Outer", enclosing := some "core.Object" }

/-- A class with an unbounded type parameter, which has been asked for. -/
def ofRoundabout : Env :=
  ((Operation.ask (.typeVariables ⟨0⟩)).perform.run
    ((Operation.addUnits [{
      fileName := "U"
      package := "p"
      types := [{ name := "Box", typeParams := [⟨"T", []⟩] }] }]).perform.run
        { options := {}, provider := roundabout.provider }).2).2

theorem reachableKnown_ofRoundabout : ReachableKnown roundabout.provider {} ofRoundabout :=
  .step (.ask _) trivial (.step (.addUnits _) trivial (.new rfl))

/-- However deep questions may nest, the erasure of the type parameter has no result, nor has it ever one. -/
theorem exists_erasure_endless :
    ReachableKnown roundabout.provider {} ofRoundabout ∧ (Ty.variable ⟨0⟩).Within ofRoundabout.captures.size ∧
      0 < ofRoundabout.typeVars.size ∧
      ∀ n, Resolve.erasure (.variable ⟨0⟩) (Resolve.oracle n) ofRoundabout = (.error .tooDeep, ofRoundabout) := by
  have facts : 0 < ofRoundabout.typeVars.size ∧ (ofRoundabout.erase (.variable ⟨0⟩)).hasRoot = true ∧
      ofRoundabout.options.wellKnown.object = "core.Object" := by
    decide +kernel
  have unbound : ∀ name ∈ ["core.Object", "core.Outer"],
      ofRoundabout.lookup? name = none ∧ name ∉ ofRoundabout.missing := by
    decide +kernel
  have around : ofRoundabout.provider.Around "core.Outer" "core.Object" ∧
      ofRoundabout.provider.Around "core.Object" "core.Outer" := by
    constructor
    · exact ⟨{ name := "core.Object", enclosing := some "core.Outer" }, rfl, rfl, by decide⟩
    · exact ⟨{ name := "core.Outer", enclosing := some "core.Object" }, rfl, rfl, by decide⟩
  have unread : Resolve.Unread ofRoundabout (· ∈ ["core.Object", "core.Outer"]) := by
    intro name listed
    refine ⟨unbound name listed, ?_⟩
    rcases List.mem_pair.1 listed with rfl | rfl
    · exact ⟨_, around.1, by simp⟩
    · exact ⟨_, around.2, by simp⟩
  refine ⟨reachableKnown_ofRoundabout, .intro (by simp) (by simp [Ty.parts]), facts.1, fun n => ?_⟩
  refine Resolve.ofErased_of_hasRoot facts.2.1 (Resolve.objectType_of_unread unread ?_ n)
  rw [facts.2.2]
  exact List.mem_cons_self

end Env

end TeamRoles
