import TeamRoles.Proofs.Session.Reachable

/-!
What a session has resolved it keeps, and gives again when it is asked again. A name that has been looked
up is answered in the same way as long as no other type of that name comes.
-/

namespace TeamRoles

/-- The operations of a session lead from one environment to the other. -/
inductive Env.Leads (e : Env) : Env → Prop
  | refl : Leads e e
  | step {e' : Env} {α : Type} (op : Operation α) : Leads e e' → Leads e (op.perform.run e').2

def Part.query : (p : Part) → Operation p.Value
  | .supertypes b => .ask (.supertypes b)
  | .memberTypes b => .memberTypes b
  | .typeVariables b => .ask (.typeVariables b)
  | .fields b => .ask (.fields b)
  | .methods b => .ask (.methods b)
  | .baseClass b => .ask (.baseClass b)
  | .tsuperRoles role => .tsuperRoles role
  | .mappings role => .mappings role
  | .imports u => .imports u

def Cache.query : (c : Cache) → Operation c.Value
  | .supertypes t => .typeSupertypes t
  | .fields t => .typeFields t
  | .methods t => .typeMethods t
  | .memberTypes t => .typeMemberTypes t
  | .precedence team => .precedence team

namespace Env

variable {provider : Provider} {options : Options} {e e' : Env} {name : String}

theorem Leads.lasts (h : e.Leads e') : e.Lasts e' := by
  induction h with
  | refl => exact .refl e
  | step op _ ih => exact ih.trans (op.lawful_perform.run _).lasts

end Env

namespace Resolve

variable {o : Oracle} {e : Env}

theorem known_apply {b : BindingId} (inside : b.index < e.bindings.size) :
    known b o e = (.ok (e.binding b), e) := by
  have applied : known b o e =
      (if e.bindings.size ≤ b.index then throw (.internal ("no type has the number " ++ b.index.repr))
        else pure (e.binding b) : Resolve Binding) o e := rfl
  rw [applied, if_neg (Nat.not_le_of_lt inside)]
  rfl

theorem knownUnit_apply {u : UnitId} (inside : u.index < e.units.size) :
    knownUnit u o e = (.ok (e.unit u), e) := by
  have applied : knownUnit u o e =
      (if e.units.size ≤ u.index then throw (.internal ("no unit has the number " ++ u.index.repr))
        else pure (e.unit u) : Resolve SourceUnit) o e := rfl
  rw [applied, if_neg (Nat.not_le_of_lt inside)]
  rfl

theorem run_ask {α : Type} (q : Query α) (e : Env) :
    (ask q).run e = answer q (oracle (maxDepth - 1)) e := by
  rfl

theorem get_bind_apply {α : Type} {f : Env → Resolve α} : (get >>= f) o e = f e o e := rfl

theorem known_bind_apply {α : Type} {b : BindingId} {f : Binding → Resolve α}
    (inside : b.index < e.bindings.size) : (known b >>= f) o e = f (e.binding b) o e :=
  bind_apply_ok (known_apply inside)

end Resolve

open Resolve in
theorem Part.query_resolved {e : Env} {p : Part} {v : p.Value} (h : e.slot p = .resolved v) :
    p.query.perform.run e = (.ok v, e) := by
  have has := Env.has_of_resolved h
  cases p with
  | tsuperRoles role =>
    simp only [Env.slot, Binding.tsuperRoles] at h
    split at h
    · next model given =>
      simp only [query, Operation.perform, run, Resolve.tsuperRoles]
      rw [get_bind_apply, given]
      simp only [h]
      rfl
    · cases h
  | mappings role =>
    simp only [query, Operation.perform, run, Resolve.mappings]
    rw [get_bind_apply, show (e.roleMappings.lookup role).getD .unresolved = _ from h]
    rfl
  | imports u =>
    refine (bind_apply_ok (knownUnit_apply (has (by simp)))).trans ?_
    rw [show (e.unit u).imports = _ from h]
    rfl
  | memberTypes b =>
    refine (known_bind_apply (has (by simp))).trans ?_
    rw [show (e.binding b).memberTypes = _ from h]
    rfl
  | supertypes b | typeVariables b | fields b | methods b | baseClass b =>
    refine (run_ask _ e).trans ((known_bind_apply (has (by simp))).trans ?_)
    simp only [Env.slot] at h
    simp only [h]
    rfl

namespace Resolve

variable {e : Env}

theorem layer_resolved {generic : BindingId} {enclosing : Option Ty}
    {f : List TypeVarId → Substitution → Substitution}
    (vars : ∃ vars, e.slot (.typeVariables generic) = .resolved vars)
    (outer : ∃ s, (substitutionForOption enclosing).run e = (.ok s, e)) :
    ∃ s, Resolve.run (do
      let vars ← ask (.typeVariables generic)
      let outer ← substitutionForOption enclosing
      return f vars outer) e = (.ok s, e) := by
  obtain ⟨vars, resolved⟩ := vars
  obtain ⟨outer, layers⟩ := outer
  have asked : ask (.typeVariables generic) (oracle maxDepth) e = (.ok vars, e) :=
    Part.query_resolved resolved
  exact ⟨f vars outer, (bind_apply_ok asked).trans (bind_apply_ok layers)⟩

mutual

theorem substitutionFor_resolved (t : Ty)
    (h : ∀ b ∈ t.generics, ∃ vars, e.slot (.typeVariables b) = .resolved vars) :
    ∃ s, (substitutionFor t).run e = (.ok s, e) := by
  match t with
  | .parameterized generic args enclosing | .raw generic enclosing =>
    rw [substitutionFor]
    rw [Ty.generics, List.forall_mem_cons] at h
    exact layer_resolved h.1 (substitutionForOption_resolved enclosing h.2)
  | .anchored role path =>
    rw [substitutionFor]
    exact substitutionFor_resolved role h
  | .primitive _ | .null | .declared _ | .variable _ | .wildcard _ _ | .captured _ | .array _ =>
    simp only [substitutionFor]
    exact ⟨{}, rfl⟩

theorem substitutionForOption_resolved (t : Option Ty)
    (h : ∀ b ∈ Ty.generics.genericsOfOption t, ∃ vars, e.slot (.typeVariables b) = .resolved vars) :
    ∃ s, (substitutionForOption t).run e = (.ok s, e) := by
  match t with
  | none =>
    rw [substitutionForOption]
    exact ⟨_, rfl⟩
  | some t =>
    rw [substitutionForOption]
    exact substitutionFor_resolved t h

end

end Resolve

open Resolve in
theorem Cache.query_filled {e : Env} {c : Cache} {v : c.Value} (h : e.cache c = some v)
    (allows : c.Allows e) : c.query.perform.run e = (.ok v, e) := by
  have members (t : Ty) : instanceMembers t (oracle maxDepth) e =
      (.ok ((e.instances.lookup t).getD {}), e) := rfl
  -- Whatever is asked before the cache is looked into has been resolved, so it changes nothing.
  cases c with
  | supertypes t =>
    obtain ⟨instantiated, plain⟩ := allows
    have stored : ((e.instances.lookup t).getD {}).supertypes = some v := h
    cases t with
    | parameterized generic args enclosing | raw generic enclosing =>
      refine (bind_apply_ok (members _)).trans ?_
      rw [stored]
      rfl
    | anchored role path => exact absurd rfl (plain role path)
    | _ => cases instantiated
  | fields t | methods t =>
    obtain ⟨instantiated, generics⟩ := allows
    obtain ⟨generic, found⟩ := Option.isSome_iff_exists.1 instantiated
    obtain ⟨s, substitution⟩ := substitutionFor_resolved t generics
    simp only [query, Operation.perform, run, Resolve.typeFields, Resolve.typeMethods, found]
    refine (bind_apply_ok substitution).trans ((bind_apply_ok (members t)).trans ?_)
    simp only [Env.cache] at h
    rw [h]
    rfl
  | memberTypes t =>
    obtain ⟨generic, args, enclosing, rfl⟩ := allows
    refine (bind_apply_ok (members _)).trans ?_
    rw [show ((e.instances.lookup _).getD {}).memberTypes = some v from h]
    rfl
  | precedence team =>
    refine get_bind_apply.trans ?_
    rw [show e.precedence.lookup team = some v from h]
    rfl

namespace Resolve

variable {start : Env} {name : String}

def Settled (start : Env) (name : String) (found : Option BindingId) (e : Env) : Prop :=
  match found with
  | some b => (e.lookup? name).isSome ∧ (start.Undisturbed e name → e.lookup? name = some b)
  | none => e.Misses name

theorem bindLoaded_settled {d : Descriptor} {b : BindingId}
    (given : start.provider.find name = .ok (some d)) (unbound : start.lookup? name = none) :
    Triple 0 (fun e => e.lookup? d.name = some b ∧ Runs 0 start none e)
      (do if ((← get).lookup? name).isNone then bindName name b
          return some b)
      (Settled start name) := by
  refine .get_bind fun e => ?_
  cases free : e.lookup? name with
  | some c =>
    refine .pure ?_
    rintro _ ⟨rfl, bound, runs⟩
    refine ⟨by rw [free]; rfl, fun undisturbed => ?_⟩
    have same := runs.lookup?_descriptor (by decide) undisturbed (Nat.le_refl _) given unbound free
    rw [free, ← same, bound]
  | none =>
    rintro o _ e ⟨rfl, bound, runs⟩
    have given' : e.provider.find name = .ok (some d) := by rw [runs.lasts.provider, given]
    refine ⟨.step (.otherName given' free bound) rfl, ?_⟩
    rintro _ ⟨⟩
    have again : (e.bindName name b).lookup? name = some b := Env.lookup?_bindName.trans (if_pos rfl)
    exact ⟨Option.isSome_iff_exists.2 ⟨b, again⟩, fun _ => again⟩

theorem standIn_settled {cause : Descriptor.Error}
    (given : start.provider.find name = .error cause) (unbound : start.lookup? name = none) :
    Triple 0 (fun e => e = start)
      (do let b ← problemBinding name .corrupt
          bindName name b
          reportFor b .corruptDescriptor {} [name, cause.message]
          return some b)
      (Settled start name) := by
  refine .bind (Q := fun b e => e.StandsFor name b ∧ e.provider.find name = .error cause ∧
    e.lookup? name = none) ((problemBinding_triple fun _ h => h).pre ?_) fun b => ?_
  · rintro _ rfl
    exact ⟨given, unbound⟩
  · refine .bind (Q := fun _ e => e.lookup? name = some b) ?_ fun _ => ?_
    · rintro o _ e ⟨stands, given, unbound⟩
      refine ⟨.step (.corrupt given unbound stands) rfl, fun _ _ => ?_⟩
      exact Env.lookup?_bindName.trans (if_pos rfl)
    · refine Lawful.keeping lawful_reportFor stable_lookup? fun _ => .pure fun _ bound => ?_
      exact ⟨by rw [bound]; rfl, fun _ => bound⟩

theorem findType_settled : Triple 0 (fun e => e = start) (findType name) (Settled start name) := by
  refine .get_start ?_
  cases unbound : start.lookup? name with
  | some b =>
    refine .pure ?_
    rintro _ rfl
    exact ⟨by rw [unbound]; rfl, fun _ => unbound⟩
  | none =>
    dsimp only
    split
    · next missing =>
      refine .pure ?_
      rintro _ rfl
      exact ⟨unbound, List.contains_iff_mem.1 missing⟩
    · cases given : start.provider.find name with
      | error cause => exact standIn_settled given unbound
      | ok found =>
        cases found with
        | none =>
          rintro o _ _ rfl
          refine ⟨.step (.missing given unbound) rfl, ?_⟩
          rintro _ ⟨⟩
          exact ⟨unbound, List.mem_cons_self⟩
        | some d =>
          refine .bind (((addDescriptor_triple name).since start).pre ?_)
            fun b => (bindLoaded_settled given unbound).pre fun _ h => ⟨h.1.1, h.2.runs⟩
          rintro _ rfl
          exact ⟨rfl, given⟩

theorem findType_of_bound {o : Oracle} {e : Env} {b : BindingId} (bound : e.lookup? name = some b) :
    findType name o e = (.ok (some b), e) := by
  refine get_bind_apply.trans ?_
  rw [bound]
  rfl

theorem findType_of_misses {o : Oracle} {e : Env} (misses : e.Misses name) :
    findType name o e = (.ok none, e) := by
  refine get_bind_apply.trans ?_
  rw [misses.1]
  dsimp only
  rw [if_pos (List.contains_iff_mem.2 misses.2)]
  rfl

end Resolve

namespace Env

variable {provider : Provider} {options : Options} {start e e' : Env} {name : String}

theorem Leads.keeps_undisturbed {I : Env → Prop} (h : e.Leads e')
    (undisturbed : start.Undisturbed e' name) (since : start.bindings.size ≤ e.bindings.size)
    (runs : ∀ {e r e'}, Runs 8 e r e' → start.Undisturbed e' name →
      start.bindings.size ≤ e.bindings.size → I e → I e') (holds : I e) : I e' := by
  induction h with
  | refl => exact holds
  | @step e' _ op before ih =>
    have run := op.lawful_perform.run e'
    have since' := Nat.le_trans since before.lasts.size
    exact runs run.runs undisturbed since' (ih (undisturbed.of_lasts run.lasts))

end Env

end TeamRoles
