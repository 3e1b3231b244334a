import TeamRoles.Proofs.Scoped.Session

/-!
What is stored lasts, and what is in scope stays as it is. Both together are what a search can rely on while
it resolves the types that it meets.
-/

namespace TeamRoles

namespace Env

variable {e d c : Env} {b t : BindingId} {m : MethodId} {list : List MethodId}

structure Advances (e d : Env) : Prop where
  closed : e.Scoped
  lasts : e.Lasts d
  develops : e.Develops d

def Carries (e : Env) (t : BindingId) (m : MethodId) : Prop :=
  ∃ list, (e.binding t).methods = .resolved list ∧ m ∈ list

theorem Carries.iff_of_resolved (resolved : (e.binding t).methods = .resolved list) : e.Carries t m ↔ m ∈ list := by
  simp [Carries, resolved]

theorem Scoped.hasMethod (closed : e.Scoped) (listed : e.Carries t m) : e.HasMethod m := by
  obtain ⟨list, resolved, mem⟩ := listed
  exact (closed.bindings t).methods list resolved m mem

namespace Advances

theorem refl (closed : e.Scoped) : e.Advances e := ⟨closed, .refl e, .refl closed⟩

theorem trans (h : e.Advances d) (h' : d.Advances c) : e.Advances c :=
  ⟨h.closed, h.lasts.trans h'.lasts, h.develops.trans h'.develops⟩

theorem resolved (h : e.Advances d) (known : (e.binding b).methods = .resolved list) :
    (d.binding b).methods = .resolved list := h.lasts.resolved (p := .methods b) known

theorem carries (h : e.Advances d) (listed : e.Carries t m) : d.Carries t m := by
  obtain ⟨list, resolved, mem⟩ := listed
  exact ⟨list, h.resolved resolved, mem⟩

theorem above (h : e.Advances d) (edge : e.Above b t) : d.Above b t := by
  obtain ⟨s, resolved, mem⟩ := edge
  exact ⟨s, h.lasts.resolved (p := .supertypes b) resolved, mem⟩

theorem reaches (h : e.Advances d) (path : Relation.ReflTransGen e.Above b t) :
    Relation.ReflTransGen d.Above b t :=
  path.lift id fun _ _ => h.above

theorem name_eq (h : e.Advances d) (known : e.HasMethod m) : (d.method m).name = (e.method m).name :=
  h.develops.proj_eq (g := Method.name) known.inside fun _ => rfl

theorem erasedParams_eq (h : e.Advances d) (known : e.HasMethod m) : d.erasedParams m = e.erasedParams m :=
  h.develops.erasedParams_eq h.closed known

end Advances

end Env

namespace Resolve

variable {α β : Type} {ℓ : Nat} {P P' : Env → Prop} {Q Q' : α → Env → Prop} {R : β → Env → Prop}
  {x : Resolve α} {f : α → Resolve β}

/-- What the resolution makes of an environment in which everything is in scope. -/
def Secures (P : Env → Prop) (x : Resolve α) (Q : α → Env → Prop) : Prop :=
  ∀ o : Oracle, o.Sound → ∀ e, e.Scoped → P e →
    e.Advances (x o e).2 ∧ ∀ a, (x o e).1 = .ok a → Q a (x o e).2

def Lingers (P : Env → Prop) : Prop := ∀ ⦃e d : Env⦄, e.Advances d → P e → P d

namespace Secures

theorem of_triple (triple : Triple ℓ P x Q) (calm : Calm x) : Secures P x Q := by
  intro o ho e closed he
  obtain ⟨runs, holds⟩ := triple o ho.toLawful e he
  exact ⟨⟨closed, runs.lasts, (calm e o ho e (.refl closed)).1⟩, holds⟩

theorem pure {a : α} (h : ∀ e, e.Scoped → P e → Q a e) : Secures P (pure a) Q := by
  refine fun o _ e closed he => ⟨.refl closed, ?_⟩
  rintro _ ⟨⟩
  exact h e closed he

theorem throw {cause : Abort} : Secures P (throw cause : Resolve α) Q :=
  fun _ _ _ closed _ => ⟨.refl closed, nofun⟩

theorem pre (h : Secures P x Q) (pre : ∀ e, P' e → P e) : Secures P' x Q :=
  fun o ho e closed he => h o ho e closed (pre e he)

theorem bind (hx : Secures P x Q) (hf : ∀ a, Secures (Q a) (f a) R) : Secures P (x >>= f) R :=
  fun o ho e closed he => ends_bind (S := fun _ => e.Advances) (hx o ho e closed he) fun a d advances known =>
    (hf a o ho d advances.develops.closed known).imp_left advances.trans

theorem get_bind {f : Env → Resolve β} (h : ∀ e, Secures (fun d => d = e ∧ P e) (f e) R) :
    Secures P (get >>= f) R :=
  fun o ho e closed he => h e o ho e closed ⟨rfl, he⟩

theorem keeping (h : Secures P x Q) (lingers : Lingers P) : Secures P x fun a e => Q a e ∧ P e := by
  intro o ho e closed he
  obtain ⟨advances, holds⟩ := h o ho e closed he
  exact ⟨advances, fun a ha => ⟨holds a ha, lingers advances he⟩⟩

theorem at_depth {depth : Nat} {e e' : Env} {a : α} (h : Secures P x Q) (closed : e.Scoped) (he : P e)
    (answered : x (oracle depth) e = (.ok a, e')) : e.Advances e' ∧ Q a e' := by
  obtain ⟨advances, holds⟩ := h (oracle depth) (sound_oracle depth) e closed he
  rw [answered] at advances holds
  exact ⟨advances, holds a rfl⟩

end Secures

end Resolve

end TeamRoles
