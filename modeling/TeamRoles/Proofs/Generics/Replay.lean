import TeamRoles.Proofs.Generics.Ascent

/-!
Questions about types in an environment in which all types are resolved. Nothing but supertypes of
instantiations is then found out, and what has been answered is answered again at once, at that depth and at
any greater one.
-/

namespace TeamRoles

namespace Env

/-- All supertypes and type variables are resolved, and the root has been looked up. -/
structure Completed (e : Env) : Prop where
  supertypes : ∀ b, b.index < e.bindings.size → ∃ s, e.slot (.supertypes b) = .resolved s
  vars : e.VarsResolved
  root : e.RootKnown

structure Fills (e e' : Env) : Prop where
  rest : ∃ instances, e' = { e with instances }
  caches : ∀ t s, e.cache (.supertypes t) = some s → e'.cache (.supertypes t) = some s

variable {e e' e'' : Env} {t : Ty} {s : Supertypes}

theorem Fills.refl (e : Env) : e.Fills e := ⟨⟨e.instances, rfl⟩, fun _ _ => id⟩

theorem Fills.trans (h : e.Fills e') (h' : e'.Fills e'') : e.Fills e'' := by
  obtain ⟨_, rfl⟩ := h.rest
  obtain ⟨instances, rfl⟩ := h'.rest
  exact ⟨⟨instances, rfl⟩, fun t s filled => h'.caches t s (h.caches t s filled)⟩

theorem Completed.of_fills (h : e.Completed) (fills : e.Fills e') : e'.Completed := by
  obtain ⟨_, rfl⟩ := fills.rest
  exact { supertypes := h.supertypes, vars := h.vars, root := h.root }

theorem Fills.setCache (empty : e.cache (.supertypes t) = none) : e.Fills (e.setCache (.supertypes t) s) where
  rest := ⟨_, rfl⟩
  caches u v filled := by
    rw [cache_setCache_of_ne, filled]
    rintro ⟨⟩
    cases empty.symm.trans filled

end Env

namespace Resolve

open Env

section

variable {α : Type} {e : Env} {o : Oracle} {b : BindingId} {t : Ty} {depth : Nat} {P : Env → Prop}

theorem known_bind_fails {f : Binding → Resolve α} (outside : ¬b.index < e.bindings.size) :
    ∃ cause, (known b >>= f) o e = (.error cause, e) := by
  have refused : known b o e = (.error (.internal ("no type has the number " ++ b.index.repr)), e) := by
    refine get_bind_apply.trans ?_
    rw [if_pos (Nat.le_of_not_lt outside)]
    rfl
  exact ⟨_, bind_apply_error refused⟩

theorem supertypes_completed (completed : e.Completed) (b : BindingId) (depth : Nat) :
    (∃ s, e.slot (.supertypes b) = .resolved s) ∨
      ∃ cause, ask (.supertypes b) (oracle depth) e = (.error cause, e) := by
  by_cases inside : b.index < e.bindings.size
  · exact .inl (completed.supertypes b inside)
  · cases depth with
    | zero => exact .inr ⟨.tooDeep, rfl⟩
    | succ d => exact .inr (known_bind_fails inside)

theorem typeVariables_completed (completed : e.Completed) (b : BindingId) (depth : Nat) :
    (∃ vars, e.slot (.typeVariables b) = .resolved vars) ∨
      ∃ cause, ask (.typeVariables b) (oracle depth) e = (.error cause, e) := by
  by_cases inside : b.index < e.bindings.size
  · exact .inl (completed.vars b inside)
  · cases depth with
    | zero => exact .inr ⟨.tooDeep, rfl⟩
    | succ d => exact .inr (known_bind_fails inside)

theorem Answers.idle {x : Resolve α} (idle : ∀ e, P e → (x o e).2 = e) :
    Answers o P x (fun _ => P) True := by
  refine fun e he => ⟨fun a e' answered => ?_, fun _ _ _ => trivial⟩
  have same : e' = e := by simpa [answered] using idle e he
  exact same ▸ he

theorem Answers.mapM {β : Type} {f : α → Resolve β} {short : Prop}
    (h : ∀ a, Answers o P (f a) (fun _ => P) short) (l : List α) : Answers o P (l.mapM f) (fun _ => P) short := by
  induction l with
  | nil => exact .pure fun _ => id
  | cons a l ih =>
    rw [List.mapM_cons]
    exact (h a).bind fun _ => ih.bind fun _ => .pure fun _ => id

theorem askSupertypes_answers (completed : ∀ e, P e → e.Completed) :
    Answers (oracle depth) P (ask (.supertypes b)) (fun _ => P) True := by
  refine .idle fun e he => ?_
  rcases supertypes_completed (completed e he) b depth with ⟨s, known⟩ | ⟨cause, failed⟩
  · cases depth with
    | zero => rfl
    | succ d => rw [supertypes_of_resolved known]
  · rw [failed]

theorem askTypeVariables_answers (completed : ∀ e, P e → e.Completed) :
    Answers (oracle depth) P (ask (.typeVariables b)) (fun _ => P) True := by
  refine .idle fun e he => ?_
  rcases typeVariables_completed (completed e he) b depth with ⟨vars, known⟩ | ⟨cause, failed⟩
  · cases depth with
    | zero => rfl
    | succ d => rw [typeVariables_of_resolved known]
  · rw [failed]

mutual

theorem substitutionFor_answers (completed : ∀ e, P e → e.Completed) (t : Ty) :
    Answers (oracle depth) P (substitutionFor t) (fun _ => P) True := by
  match t with
  | .parameterized generic args enclosing =>
    rw [substitutionFor]
    exact (askTypeVariables_answers completed).bind fun _ =>
      (substitutionForOption_answers completed enclosing).bind fun _ => .pure fun _ => id
  | .raw generic enclosing =>
    rw [substitutionFor]
    exact (askTypeVariables_answers completed).bind fun _ =>
      (substitutionForOption_answers completed enclosing).bind fun _ => .pure fun _ => id
  | .anchored role path =>
    rw [substitutionFor]
    exact substitutionFor_answers completed role
  | .primitive _ | .null | .declared _ | .variable _ | .wildcard _ _ | .captured _ | .array _ =>
    rw [substitutionFor]
    · exact .pure fun _ => id
    all_goals nofun

theorem substitutionForOption_answers (completed : ∀ e, P e → e.Completed) (t : Option Ty) :
    Answers (oracle depth) P (substitutionForOption t) (fun _ => P) True := by
  match t with
  | none =>
    rw [substitutionForOption]
    exact .pure fun _ => id
  | some t =>
    rw [substitutionForOption]
    exact substitutionFor_answers completed t

end

theorem substitute_answers (completed : ∀ e, P e → e.Completed) {s : Substitution} :
    Answers (oracle depth) P (substitute s t) (fun _ => P) True := by
  refine .get_bind fun e he => ?_
  have kept : ∀ e', e' = e → P e' := by
    rintro _ rfl
    exact he
  refine .ite (fun _ => .bind (objectType_answers ?_ fun _ => trivial) fun _ => .pure kept) fun _ => .pure kept
  rintro _ rfl
  exact (completed _ he).root

theorem instanceSupertypes_answers {generic : BindingId} (completed : e.Completed) :
    Answers (oracle depth) (· = e) (instanceSupertypes t generic)
      (fun s e' => e.Fills e' ∧ e'.cache (.supertypes t) = some s) True := by
  have kept : ∀ e', e' = e → e'.Completed := by
    rintro _ rfl
    exact completed
  refine Answers.get_bind fun e' same => ?_
  subst same
  cases filled : e'.cache (.supertypes t) with
  | some s =>
    have stored : ((e'.instances.lookup t).getD {}).supertypes = some s := filled
    rw [stored]
    refine .pure ?_
    rintro _ rfl
    exact ⟨.refl _, filled⟩
  | none =>
    have empty : ((e'.instances.lookup t).getD {}).supertypes = none := filled
    rw [empty]
    refine (askSupertypes_answers kept).bind fun declared => (substitutionFor_answers kept t).bind fun s => ?_
    extract_lets finish
    have finished (superclass : Option Ty) : Answers (oracle depth) (· = e') (finish superclass)
        (fun s e => e'.Fills e ∧ e.cache (.supertypes t) = some s) True := by
      refine (Answers.mapM (fun _ => substitute_answers kept) _).bind fun interfaces => ?_
      refine fun e same => ⟨?_, fun _ _ failed => (ok_ne_error failed).elim⟩
      subst same
      rintro _ _ ⟨⟩
      exact ⟨.setCache filled, cache_setCache_self (c := .supertypes t) (v := ⟨superclass, interfaces⟩)⟩
    split
    · exact ((substitute_answers kept).bind fun _ => .pure fun _ => id).bind finished
    · exact (Answers.pure fun _ => id).bind finished

end

/-- What the one resolution answers, the other one answers at its depth later on, when no more than supertypes
of instantiations has been added, and it adds nothing. -/
def Replays {α : Type} (d d' : Nat) (x y : Resolve α) : Prop :=
  ∀ e a e', e.Completed → x (oracle d) e = (.ok a, e') →
    e.Fills e' ∧ ∀ e'', e'.Fills e'' → y (oracle d') e'' = (.ok a, e'')

namespace Replays

variable {α β : Type} {d d' : Nat} {x y : Resolve α} {f g : α → Resolve β}

theorem pure {a : α} : Replays d d' (pure a) (pure a) := by
  rintro e _ _ - ⟨⟩
  exact ⟨.refl e, fun _ _ => rfl⟩

theorem bind (hx : Replays d d' x y) (hf : ∀ a, Replays d d' (f a) (g a)) :
    Replays d d' (x >>= f) (y >>= g) := by
  intro e b e' completed answered
  obtain ⟨a, mid, first, rest⟩ := bind_eq_ok answered
  obtain ⟨fills, again⟩ := hx e a mid completed first
  obtain ⟨fills', again'⟩ := hf a mid b e' (completed.of_fills fills) rest
  refine ⟨fills.trans fills', fun e'' later => ?_⟩
  exact (bind_apply_ok (again e'' (fills'.trans later))).trans (again' e'' later)

theorem get_bind {f : Env → Resolve α} (same : ∀ e instances, f { e with instances } = f e)
    (h : ∀ e, Replays d d' (f e) (f e)) : Replays d d' (get >>= f) (get >>= f) := by
  intro e a e' completed answered
  obtain ⟨fills, again⟩ := h e e a e' completed answered
  refine ⟨fills, fun e'' later => ?_⟩
  obtain ⟨instances, rfl⟩ := (fills.trans later).rest
  exact (congrFun (congrFun (same e instances) _) _).trans (again _ later)

theorem ite {c : Prop} [Decidable c] {x' y' : Resolve α} (hx : c → Replays d d' x y)
    (hy : ¬c → Replays d d' x' y') : Replays d d' (if c then x else x') (if c then y else y') := by
  split
  · next h => exact hx h
  · next h => exact hy h

theorem objectType (le : d ≤ d') : Replays d d' objectType objectType := by
  intro e a e' completed answered
  cases d with
  | zero => cases answered
  | succ n =>
    obtain ⟨n', rfl⟩ := Nat.exists_eq_succ_of_ne_zero (Nat.ne_zero_of_lt le)
    rcases completed.root with bound | ⟨misses, standIn⟩
    · obtain ⟨root, bound⟩ := Option.isSome_iff_exists.1 bound
      cases (objectType_of_bound bound).symm.trans answered
      refine ⟨.refl e, fun e'' later => ?_⟩
      obtain ⟨_, rfl⟩ := later.rest
      exact objectType_of_bound bound
    · obtain ⟨root, standIn⟩ := Option.isSome_iff_exists.1 standIn
      cases (objectType_of_standIn misses standIn).symm.trans answered
      refine ⟨.refl e, fun e'' later => ?_⟩
      obtain ⟨_, rfl⟩ := later.rest
      exact objectType_of_standIn misses standIn

theorem typeSupertypes (le : d ≤ d') (t : Ty) : Replays d d' (typeSupertypes t) (typeSupertypes t) := by
  match t with
  | .declared b =>
    intro e s e' completed answered
    rcases supertypes_completed completed b d with ⟨s', known⟩ | ⟨cause, failed⟩
    · cases d with
      | zero => cases answered
      | succ n =>
        obtain ⟨n', rfl⟩ := Nat.exists_eq_succ_of_ne_zero (Nat.ne_zero_of_lt le)
        cases (supertypes_of_resolved known).symm.trans answered
        refine ⟨.refl e, fun e'' later => ?_⟩
        obtain ⟨_, rfl⟩ := later.rest
        exact supertypes_of_resolved known
    · cases failed.symm.trans answered
  | .parameterized generic args enclosing =>
    intro e s e' completed answered
    obtain ⟨fills, stored⟩ := (instanceSupertypes_answers completed e rfl).1 s e' answered
    exact ⟨fills, fun e'' later => instanceSupertypes_of_cache (later.caches _ _ stored)⟩
  | .raw generic enclosing =>
    intro e s e' completed answered
    obtain ⟨fills, stored⟩ := (instanceSupertypes_answers completed e rfl).1 s e' answered
    exact ⟨fills, fun e'' later => instanceSupertypes_of_cache (later.caches _ _ stored)⟩
  | .anchored role path => exact typeSupertypes le role
  | .captured c => exact .get_bind (fun _ _ => rfl) fun _ => .pure
  | .variable v =>
    refine .get_bind (fun _ _ => rfl) fun e => ?_
    split
    · exact .pure
    · exact (objectType le).bind fun _ => .pure
  | .primitive _ | .null | .wildcard _ _ | .array _ => exact .pure

theorem depth {f g : Nat → Resolve α} (h : Replays d d' (f d) (g d')) :
    Replays d d' (Resolve.depth >>= f) (Resolve.depth >>= g) := by
  have bound (n : Nat) (e : Env) : Resolve.depth (oracle n) e = (.ok n, e) := by cases n <;> rfl
  intro e a e' completed answered
  rw [bind_apply_ok (bound d e)] at answered
  obtain ⟨fills, again⟩ := h e a e' completed answered
  exact ⟨fills, fun e'' later => (bind_apply_ok (bound d' e'')).trans (again e'' later)⟩

theorem walkFrom {σ : Type} [BEq α] {order : WalkOrder} {above : α → Resolve (List α)}
    {visit : σ → α → Resolve (Visit σ)} (climbs : ∀ a, Replays d d' (above a) (above a))
    (visits : ∀ s a, Replays d d' (visit s a) (visit s a)) {fuel fuel' : Nat} (le : fuel ≤ fuel')
    {seen todo : List α} {found : σ} :
    Replays d d' (walkFrom order above visit fuel seen todo found)
      (walkFrom order above visit fuel' seen todo found) := by
  induction fuel generalizing fuel' seen todo found with
  | zero =>
    cases todo with
    | nil => cases fuel' <;> exact .pure
    | cons => exact fun e a e' _ answered => by cases answered
  | succ fuel ih =>
    cases todo with
    | nil => cases fuel' <;> exact .pure
    | cons a todo =>
      obtain ⟨fuel', rfl⟩ := Nat.exists_eq_succ_of_ne_zero (Nat.ne_zero_of_lt le)
      refine .ite (fun _ => ih (Nat.le_of_succ_le_succ le)) fun _ => (visits found a).bind fun v => ?_
      cases v with
      | stop => exact .pure
      | leaf => exact ih (Nat.le_of_succ_le_succ le)
      | inner => exact (climbs a).bind fun _ => ih (Nat.le_of_succ_le_succ le)

end Replays

structure Reasks (d d' : Nat) : Prop where
  isSubtype : ∀ a b, Replays d d' (ask (.isSubtype a b)) (ask (.isSubtype a b))
  contains : ∀ a b, Replays d d' (ask (.contains a b)) (ask (.contains a b))
  isEquivalent : ∀ a b, Replays d d' (ask (.isEquivalent a b)) (ask (.isEquivalent a b))

namespace Reasks

variable {d d' : Nat} (asks : Reasks d d')
include asks

theorem containsAll (pairs : List (Ty × Ty)) : Replays d d' (containsAll pairs) (containsAll pairs) := by
  induction pairs with
  | nil => exact .pure
  | cons pair pairs ih => exact (asks.contains pair.1 pair.2).bind fun _ => .ite (fun _ => ih) fun _ => .pure

theorem containsBothWays (pairs : List (Ty × Ty)) :
    Replays d d' (containsBothWays pairs) (containsBothWays pairs) := by
  induction pairs with
  | nil => exact .pure
  | cons pair pairs ih =>
    refine (asks.contains pair.1 pair.2).bind fun _ => .ite (fun _ => ?_) fun _ => .pure
    exact (asks.contains pair.2 pair.1).bind fun _ => .ite (fun _ => ih) fun _ => .pure

theorem anySubtype (sup : Ty) (ts : List Ty) : Replays d d' (anySubtype sup ts) (anySubtype sup ts) := by
  induction ts with
  | nil => exact .pure
  | cons t ts ih => exact (asks.isSubtype t sup).bind fun _ => .ite (fun _ => .pure) fun _ => ih

theorem fitsTarget (found sup : Ty) : Replays d d' (fitsTarget found sup) (fitsTarget found sup) := by
  unfold Resolve.fitsTarget
  split
  · exact .pure
  · exact .pure
  · exact .ite (fun _ => asks.containsAll _) fun _ => .pure
  · exact .pure

variable (le : d ≤ d')
include le

theorem reachesType (sub sup : Ty) : Replays d d' (reachesType sub sup) (reachesType sub sup) := by
  unfold Resolve.reachesType
  split
  · exact .pure
  · refine .depth (.walkFrom (fun t => ?_) (fun _ t => ?_) le)
    · exact (Replays.typeSupertypes le t).bind fun _ => .pure
    · refine .ite (fun _ => .pure) fun _ => (asks.fitsTarget t sup).bind fun _ => ?_
      exact .ite (fun _ => .pure) fun _ => .pure

theorem contains_step (arg other : Ty) :
    Replays d d' (Resolve.contains arg other) (Resolve.contains arg other) := by
  unfold Resolve.contains
  refine .ite (fun _ => .pure) fun _ => (Replays.objectType le).bind fun object => ?_
  split
  all_goals first
    | exact .pure
    | exact asks.isSubtype _ _
    | exact asks.isEquivalent _ _

omit le in
theorem isEquivalent_step (a b : Ty) :
    Replays d d' (Resolve.isEquivalent a b) (Resolve.isEquivalent a b) := by
  unfold Resolve.isEquivalent
  refine .ite (fun _ => .pure) fun _ => ?_
  split
  · refine .ite (fun _ => .pure) fun _ => (asks.containsBothWays _).bind fun _ => .ite (fun _ => ?_) fun _ => .pure
    split
    · exact .pure
    · exact asks.isEquivalent _ _
    · exact .pure
  · exact .pure
  · exact asks.isEquivalent _ _
  · exact .ite (fun _ => asks.isEquivalent _ _) fun _ => .pure
  · exact .pure

theorem isSubtype_step (sub sup : Ty) :
    Replays d d' (Resolve.isSubtype sub sup) (Resolve.isSubtype sub sup) := by
  refine .get_bind (fun _ _ => rfl) fun e => .ite (fun _ => .pure) fun _ => (Replays.objectType le).bind fun object => ?_
  split
  · exact .pure
  · exact .pure
  · refine .ite (fun _ => .pure) fun _ => ?_
    split
    · exact .pure
    · exact .ite (fun _ => asks.isSubtype _ _) fun _ => .pure
    · exact .get_bind (fun _ _ => rfl) fun e => asks.anySubtype _ _
    · exact .get_bind (fun _ _ => rfl) fun e => asks.isSubtype _ _
    · refine .get_bind (fun _ _ => rfl) fun e => ?_
      split
      · exact asks.isSubtype _ _
      · exact .pure
    · exact .ite (fun _ => asks.isSubtype _ _) fun _ => .pure
    · exact .pure
    · exact asks.isSubtype _ _
    · exact asks.reachesType le _ _
    · exact asks.reachesType le _ _
    · exact asks.reachesType le _ _
    · exact .pure

end Reasks

theorem reasks {d d' : Nat} (le : d ≤ d') : Reasks d d' := by
  induction d generalizing d' with
  | zero => constructor <;> exact fun a b e r e' _ answered => by cases answered
  | succ n ih =>
    obtain ⟨n', rfl⟩ := Nat.exists_eq_succ_of_ne_zero (Nat.ne_zero_of_lt le)
    replace le := Nat.le_of_succ_le_succ le
    have asks := ih le
    exact ⟨asks.isSubtype_step le, asks.contains_step le, asks.isEquivalent_step⟩

end Resolve

end TeamRoles
