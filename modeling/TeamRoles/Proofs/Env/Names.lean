import TeamRoles.Proofs.Env.Lasts

/-!
What becomes of the names of types. A name that is bound stays bound to the same type until a unit
declares it; a name that nothing has stays unbound unless a type of that name comes from elsewhere.
-/

namespace TeamRoles

namespace Env

variable {e : Env} {x : Binding} {name other : String} {b c : BindingId}

theorem lookup?_bindName :
    (e.bindName other c).lookup? name = if name = other then some c else e.lookup? name := by
  by_cases same : name = other
  · simp [lookup?, bindName, same]
  · have differ : (name == other) = false := beq_eq_false_iff_ne.2 same
    rw [if_neg same, lookup?, bindName, List.lookup_cons, differ]
    rfl

theorem lookup?_introduce :
    (e.introduce x).lookup? name = if name = x.name then some e.nextBinding else e.lookup? name :=
  lookup?_bindName

theorem lookup?_declare :
    (e.declare x).lookup? name = if name = x.name then some e.nextBinding else e.lookup? name :=
  lookup?_bindName

/-- No type of the name has come since the start, but from a descriptor that is given for it. -/
def Undisturbed (start e : Env) (name : String) : Prop :=
  ∀ b : BindingId, start.bindings.size ≤ b.index → b.index < e.bindings.size →
    (e.binding b).name = name → match (e.binding b).origin with
      | .source _ _ => False
      | .binary d => e.provider.find name = .ok (some d)
      | .problem _ => True

namespace Undisturbed

variable {start e' : Env}

theorem of_lasts (h : start.Undisturbed e' name) (lasts : e.Lasts e') :
    start.Undisturbed e name := by
  intro b new inside named
  have same := h b new (Nat.lt_of_lt_of_le inside lasts.size) ((lasts.name_eq inside).trans named)
  rwa [lasts.origin_eq inside, lasts.provider] at same

theorem of_sameFrame (h : start.Undisturbed e' name) (frame : e.SameFrame e') :
    start.Undisturbed e name := by
  intro b new inside named
  have same := frame.proj_eq (g := Binding.name) (fun _ => rfl) b
  have origin := frame.proj_eq (g := Binding.origin) (fun _ => rfl) b
  have kept := h b new (by rwa [frame.size]) (same.trans named)
  rwa [origin, frame.provider] at kept

theorem of_addBinding (h : start.Undisturbed (e.addBinding x) name)
    (since : start.bindings.size ≤ e.bindings.size) (named : x.name = name) :
    match x.origin with
      | .source _ _ => False
      | .binary d => e.provider.find name = .ok (some d)
      | .problem _ => True := by
  have inside : e.nextBinding.index < (e.addBinding x).bindings.size := by
    simp [addBinding, nextBinding]
  have new := h e.nextBinding since inside
  rw [binding_addBinding_self] at new
  exact new named

theorem find_of_introduce {d : Descriptor} (h : start.Undisturbed (e.introduce x) name)
    (since : start.bindings.size ≤ e.bindings.size) (origin : x.origin = .binary d)
    (named : x.name = name) : e.provider.find name = .ok (some d) := by
  have new := of_addBinding (x := x) (e := e) h since named
  rwa [origin] at new

end Undisturbed

end Env

open Env

variable {ℓ : Nat} {start e e' : Env} {r : Option Abort} {name : String} {b : BindingId}

inductive Step.Binds (ℓ : Nat) (e : Env) (name : String) : Env → Prop
  | kept {e' : Env} : e'.lookup? name = e.lookup? name → Binds ℓ e name e'
  | declare {x : Binding} : 8 ≤ ℓ → x.isSource = true → x.name = name → Binds ℓ e name (e.declare x)
  | load {x : Binding} {d : Descriptor} : x.origin = .binary d → x.name = d.name → d.name = name →
    e.lookup? name = none → Binds ℓ e name (e.introduce x)
  | otherName {d : Descriptor} {b : BindingId} : e.provider.find name = .ok (some d) →
    e.lookup? name = none → e.lookup? d.name = some b → Binds ℓ e name (e.bindName name b)
  | corrupt {cause : Descriptor.Error} {b : BindingId} : e.provider.find name = .error cause →
    e.lookup? name = none → Binds ℓ e name (e.bindName name b)

theorem Step.binds (h : Step ℓ e e') (name : String) : Binds ℓ e name e' := by
  cases h with
  | quiet same => exact .kept (by rw [lookup?, same.byName, lookup?])
  | @declare x level source =>
    by_cases named : name = x.name
    · exact .declare level source named.symm
    · exact .kept (by rw [lookup?_declare, if_neg named])
  | @load x d _ _ origin same _ unbound =>
    by_cases named : name = x.name
    · have carried : d.name = name := by rw [named, same]
      exact .load origin same carried (by rwa [← carried])
    · exact .kept (by rw [lookup?_introduce, if_neg named])
  | @otherName b d other given unbound bound =>
    by_cases named : name = other
    · subst named
      exact .otherName given unbound bound
    · exact .kept (by rw [lookup?_bindName, if_neg named])
  | @corrupt b other cause given unbound _ =>
    by_cases named : name = other
    · subst named
      exact .corrupt given unbound
    · exact .kept (by rw [lookup?_bindName, if_neg named])
  | @store c v => cases c <;> exact .kept rfl
  | standIn | missing | roleFile | methods | mapping => exact .kept rfl

theorem Step.lookup?_eq (h : Step ℓ e e') (bound : e.lookup? name = some b) :
    e'.lookup? name = some b ∨
      8 ≤ ℓ ∧ ∃ x : Binding, x.isSource = true ∧ x.name = name ∧ e' = e.declare x := by
  cases h.binds name with
  | kept same => exact .inl (same.trans bound)
  | @declare x level source named => exact .inr ⟨level, x, source, named, rfl⟩
  | load _ _ _ unbound | otherName _ unbound | corrupt _ unbound =>
    rw [bound] at unbound
    cases unbound

theorem lookup?_setSlot {p : Part} {s : Slot p.Value} :
    (e.setSlot p s).lookup? name = e.lookup? name := by
  rw [lookup?, sameFrame_setSlot.byName, lookup?]

theorem Runs.lookup?_eq (h : Runs ℓ e r e') (low : ℓ < 8) (bound : e.lookup? name = some b) :
    e'.lookup? name = some b := by
  refine h.keeps (I := fun e => e.lookup? name = some b) (fun step bound => ?_) ?_ ?_ bound
  · exact (step.lookup?_eq bound).resolve_right fun declared => Nat.not_le_of_lt low declared.1
  · exact fun _ _ _ bound => lookup?_setSlot.trans bound
  · exact fun _ _ _ _ _ bound => lookup?_setSlot.trans bound

theorem Runs.keeps_undisturbed {I : Env → Prop} (h : Runs ℓ e r e')
    (undisturbed : start.Undisturbed e' name) (since : start.bindings.size ≤ e.bindings.size)
    (step : ∀ {e e'}, Step ℓ e e' → start.bindings.size ≤ e.bindings.size →
      start.Undisturbed e' name → I e → I e')
    (frame : ∀ {e e'}, e.SameFrame e' → I e → I e') (holds : I e) : I e' := by
  let J (e : Env) : Prop :=
    start.bindings.size ≤ e.bindings.size ∧ (start.Undisturbed e name → I e)
  have framed {e e' : Env} (same : e.SameFrame e') (h : J e) : J e' :=
    ⟨by rw [same.size]; exact h.1, fun free => frame same (h.2 (free.of_sameFrame same))⟩
  have kept : J e' := by
    refine h.keeps (I := J) ?_ ?_ ?_ ⟨since, fun _ => holds⟩
    · intro e e' change ⟨since, holds⟩
      refine ⟨Nat.le_trans since change.lasts.size, fun free => ?_⟩
      exact step change since free (holds (free.of_lasts change.lasts))
    · exact fun _ _ _ => framed sameFrame_setSlot
    · exact fun _ _ _ _ _ => framed sameFrame_setSlot
  exact kept.2 undisturbed

theorem Env.SameFrame.lookup?_eq (h : e.SameFrame e') : e'.lookup? name = e.lookup? name := by
  rw [lookup?, h.byName, lookup?]

theorem Runs.lookup?_descriptor {d : Descriptor} (h : Runs ℓ e r e') (low : ℓ < 8)
    (undisturbed : start.Undisturbed e' name) (since : start.bindings.size ≤ e.bindings.size)
    (given : e.provider.find name = .ok (some d)) (unbound : e.lookup? name = none)
    (found : e'.lookup? name = some b) : e'.lookup? d.name = some b := by
  let I (e : Env) : Prop := e.provider.find name = .ok (some d) ∧
    ∀ c, e.lookup? name = some c → e.lookup? d.name = some c
  have kept : I e' := by
    refine h.keeps_undisturbed (I := I) undisturbed since (fun step since free => ?_) ?_
      ⟨given, fun c bound => absurd (unbound.symm.trans bound) nofun⟩
    · intro ⟨given, follows⟩
      refine ⟨by rw [step.lasts.provider, given], fun c bound => ?_⟩
      cases step.binds name with
      | kept same =>
        refine (step.lookup?_eq (follows c (same.symm.trans bound))).resolve_right ?_
        exact fun declared => Nat.not_le_of_lt low declared.1
      | declare level => exact absurd level (Nat.not_le_of_lt low)
      | load origin same carried =>
        have given' := free.find_of_introduce since origin (same.trans carried)
        rw [given'] at given
        cases given
        rwa [carried]
      | otherName given' unbound bound' =>
        rw [given'] at given
        cases given
        rw [lookup?_bindName, if_pos rfl] at bound
        rw [lookup?_bindName, bound', ite_id]
        exact bound
      | corrupt given' =>
        rw [given'] at given
        cases given
    · intro e e' same ⟨given, follows⟩
      refine ⟨by rw [same.provider, given], fun c bound => ?_⟩
      rw [same.lookup?_eq] at bound ⊢
      exact follows c bound
  exact kept.2 b found

def Env.Misses (e : Env) (name : String) : Prop := e.lookup? name = none ∧ name ∈ e.missing

end TeamRoles
