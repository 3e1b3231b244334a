import Mathlib.Data.List.Zip
import TeamRoles.Proofs.Generics.Replay
import TeamRoles.Proofs.Generics.Subtyping

/-!
Instantiations that are subtypes of each other. They are of one class, and the arguments of each contain
those of the other. The instantiations that they are within are not compared, so that they need not be
equivalent.
-/

namespace TeamRoles

namespace Env

structure Since (base e : Env) : Prop where
  runs : Runs 2 base none e
  fills : base.Completed → base.Fills e

def Affirmed (base e : Env) (x : Resolve Bool) : Prop :=
  ∃ n d d', base.Since d ∧ x (Resolve.oracle n) d = (.ok true, d') ∧ d'.Since e

/-- The type is the start, or of a class above that of the start. -/
def Ascended (base : Env) (start t : Ty) : Prop :=
  base.IsClass t ∧ (t = start ∨
    ∃ c d, bindingOf? start = some c ∧ bindingOf? t = some d ∧ Relation.TransGen base.Above c d)

/-- The question is answered with yes at every depth that is great enough, and nothing changes. -/
def Confirms (e : Env) (x : Resolve Bool) : Prop :=
  ∃ k, ∀ n ≥ k, x (Resolve.oracle n) e = (.ok true, e)

variable {base e e' e'' : Env} {start t u : Ty} {s : Supertypes}

theorem Since.refl (e : Env) : e.Since e := ⟨.done, fun _ => .refl e⟩

theorem Since.trans (h : e.Since e') (h' : e'.Since e'') : e.Since e'' where
  runs := h.runs.seq h'.runs
  fills completed := (h.fills completed).trans (h'.fills (completed.of_fills (h.fills completed)))

theorem Since.grown (stored : base.Stored) (h : base.Since e) : base.Grown e :=
  ⟨h.runs.lasts, stored.of_runs h.runs⟩

theorem Affirmed.since {x : Resolve Bool} (h : base.Affirmed e x) (later : e.Since e') : base.Affirmed e' x := by
  obtain ⟨n, d, d', before, answered, after⟩ := h
  exact ⟨n, d, d', before, answered, after.trans later⟩

theorem Affirmed.of_since {x : Resolve Bool} (earlier : base.Since e) (h : e.Affirmed e' x) : base.Affirmed e' x := by
  obtain ⟨n, d, d', before, answered, after⟩ := h
  exact ⟨n, d, d', earlier.trans before, answered, after⟩

theorem Ascended.above (ordered : base.Ordered) (stored : base.Stored) (grown : base.Grown e)
    (h : base.Ascended start t) (given : e.Gives t s) : ∀ u ∈ s.all, base.Ascended start u := by
  intro u hu
  obtain ⟨isClass, origin⟩ := h
  obtain ⟨isClass', c, d, named, named', above⟩ := given.ascends grown stored ordered isClass u hu
  refine ⟨isClass', .inr ?_⟩
  rcases origin with rfl | ⟨b, c', named'', named''', path⟩
  · exact ⟨c, d, named, named', .single above⟩
  · cases named.symm.trans named'''
    exact ⟨b, d, named'', named', path.tail above⟩

theorem Ascended.eq_of_both (acyclic : ∀ b, ¬Relation.TransGen base.Above b b) {c d : BindingId} {a b : Ty}
    (above : base.Ascended a t) (above' : base.Ascended b u) (namedA : bindingOf? a = some c)
    (namedB : bindingOf? b = some d) (namedT : bindingOf? t = some d) (namedU : bindingOf? u = some c) :
    c = d ∧ t = a ∧ u = b := by
  rcases above.2 with rfl | ⟨c₁, d₁, start, found, path⟩
  · cases namedA.symm.trans namedT
    rcases above'.2 with rfl | ⟨c₂, d₂, start, found, path⟩
    · exact ⟨rfl, rfl, rfl⟩
    · cases namedB.symm.trans start
      cases namedU.symm.trans found
      exact absurd path (acyclic _)
  · cases namedA.symm.trans start
    cases namedT.symm.trans found
    rcases above'.2 with rfl | ⟨c₂, d₂, start, found, path'⟩
    · cases namedB.symm.trans namedU
      exact absurd path (acyclic _)
    · cases namedB.symm.trans start
      cases namedU.symm.trans found
      exact absurd (path.trans path') (acyclic _)

end Env

namespace Resolve

open Env

variable {base e e' : Env} {start sup t : Ty} {target : BindingId} {depth : Nat}

section

variable {α : Type} {x : Resolve α}

theorem since_of_answered {a : α} (lawful : Lawful 2 x) (replays : Replays depth depth x x)
    (answered : x (oracle depth) e = (.ok a, e')) : e.Since e' where
  runs := by
    have runs := (lawful (oracle depth) (lawful_oracle depth) e).runs
    rwa [answered] at runs
  fills completed := (replays e a e' completed answered).1

end

theorem affirmed_answers {x : Resolve Bool} (lawful : Lawful 2 x) (replays : Replays depth depth x x) :
    Answers (oracle depth) base.Since x (fun r e => base.Since e ∧ (r = true → base.Affirmed e x)) True := by
  refine fun e since => ⟨fun r e' answered => ?_, fun _ _ _ => trivial⟩
  refine ⟨since.trans (since_of_answered lawful replays answered), ?_⟩
  rintro rfl
  exact ⟨depth, e, e', since, answered, .refl e'⟩

def Spots (base : Env) (sup t : Ty) (target : BindingId) (e : Env) : Visit Bool → Prop
  | .stop r => r = true ∧ bindingOf? t = some target ∧ base.Affirmed e (fitsTarget t sup)
  | .leaf r | .inner r => r = false

theorem visitType_spots {found : Bool} :
    Answers (oracle depth) base.Since (visitType sup target found t)
      (fun v e => base.Since e ∧ Spots base sup t target e v) True := by
  refine .ite (fun _ => .pure fun e since => ⟨since, rfl⟩) fun same => ?_
  have same : bindingOf? t = some target := by simpa using same
  refine (affirmed_answers lawful_fitsTarget ((reasks le_rfl).fitsTarget t sup)).bind fun r => ?_
  refine .ite (fun yes => .pure fun e h => ?_) fun _ => .pure fun e h => ⟨h.1, rfl⟩
  exact ⟨h.1, rfl, same, h.2 yes⟩

/-- What has been found stands above the start, and is of the class that is searched for. -/
def Hits (base : Env) (start sup : Ty) (target : BindingId) (r : Bool) (e : Env) : Prop :=
  base.Since e ∧ (r = true →
    ∃ t, base.Ascended start t ∧ bindingOf? t = some target ∧ base.Affirmed e (fitsTarget t sup))

section

variable (ordered : base.Ordered) (stored : base.Stored)
include ordered stored

theorem walkFrom_hits {fuel : Nat} {seen todo : List Ty} (ascended : ∀ t ∈ todo, base.Ascended start t) :
    Answers (oracle depth) base.Since
      (walkFrom .lastFirst (fun t => return (← typeSupertypes t).all) (visitType sup target) fuel seen todo false)
      (Hits base start sup target) True := by
  induction fuel generalizing seen todo with
  | zero =>
    cases todo with
    | nil => exact .pure fun e since => ⟨since, nofun⟩
    | cons => exact .of_error fun e _ => ⟨rfl, trivial⟩
  | succ fuel ih =>
    cases todo with
    | nil => exact .pure fun e since => ⟨since, nofun⟩
    | cons t todo =>
      obtain ⟨first, others⟩ := List.forall_mem_cons.1 ascended
      refine .ite (fun _ => ih others) fun _ => visitType_spots.bind fun v => ?_
      cases v with
      | stop r =>
        refine .pure fun e h => ?_
        obtain ⟨since, rfl, same, fits⟩ := h
        exact ⟨since, fun _ => ⟨t, first, same, fits⟩⟩
      | leaf r =>
        refine .assume (fun e h => h.2) ?_
        rintro rfl
        exact (ih others).pre fun e h => h.1
      | inner r =>
        refine .assume (fun e h => h.2) ?_
        rintro rfl
        have climbed : Answers (oracle depth) base.Since (typeSupertypes t)
            (fun s e => base.Since e ∧ e.Gives t s) True := by
          refine fun e since => ⟨fun s e' answered => ?_, fun _ _ _ => trivial⟩
          have lawful := lawful_typeSupertypes (ℓ := 0) t
          have after := since.trans (since_of_answered lawful (.typeSupertypes le_rfl t) answered)
          have given := (typeSupertypes_triple ordered t first.1).at_depth (since.grown stored) answered
          exact ⟨after, given.2.1⟩
        have above : Answers (oracle depth) base.Since (do return (← typeSupertypes t).all)
            (fun next e => (∀ u ∈ next, base.Ascended start u) ∧ base.Since e) True :=
          climbed.bind fun s => .pure fun e h => ⟨first.above ordered stored (h.1.grown stored) h.2, h.1⟩
        refine (above.pre fun e h => h.1).bind fun next => .assume (fun e h => h.1) fun climbed => ?_
        refine (ih fun u hu => ?_).pre fun e h => h.2
        exact (List.mem_append.1 hu).elim (fun h => climbed u (List.mem_reverse.1 h)) (others u)

theorem reachesType_hits (wanted : bindingOf? sup = some target) (isClass : base.IsClass start) :
    Answers (oracle depth) base.Since (reachesType start sup) (Hits base start sup target) True := by
  have fuel : Answers (oracle depth) base.Since Resolve.depth (fun _ => base.Since) True :=
    .idle fun e _ => by cases depth <;> rfl
  rw [reachesType, wanted]
  refine fuel.bind fun n => walkFrom_hits ordered stored fun t ht => ?_
  rw [List.mem_singleton.1 ht]
  exact ⟨isClass, .inl rfl⟩

/-- An instantiation that lies below a different one: one of the same class stands above it, and its
arguments have been found to be good enough. -/
theorem isSubtype_hits {g h : BindingId} {xs ys : List Ty} {outer outer' : Option Ty}
    (inside : g.index < base.bindings.size) (inside' : h.index < base.bindings.size)
    (proper : (base.binding g).isProblem = false) (proper' : (base.binding h).isProblem = false)
    (differ : Ty.parameterized g xs outer ≠ .parameterized h ys outer') (since : base.Since e)
    (answered : isSubtype (.parameterized g xs outer) (.parameterized h ys outer') (oracle depth) e = (.ok true, e')) :
    ∃ t, base.Ascended (.parameterized g xs outer) t ∧ bindingOf? t = some h ∧
      base.Affirmed e' (fitsTarget t (.parameterized h ys outer')) := by
  suffices hits : Answers (oracle depth) base.Since
      (isSubtype (.parameterized g xs outer) (.parameterized h ys outer'))
      (Hits base (.parameterized g xs outer) (.parameterized h ys outer') h) True from
    ((hits e since).1 true e' answered).2 rfl
  refine .get_bind fun e since => .ite (fun answered => ?_) fun _ => ?_
  · have lasts := since.runs.lasts.extends
    have proper : (e.binding g).isProblem = false := (lasts.isProblem_eq inside).trans proper
    have proper' : (e.binding h).isProblem = false := (lasts.isProblem_eq inside').trans proper'
    simp [isProblemType, bindingOf?, proper, proper', differ] at answered
  · have object : Answers (oracle depth) base.Since objectType
        (fun t e => (∃ root, t = .declared root) ∧ base.Since e) True := by
      refine fun e since => ⟨fun t e' answered => ⟨?_, ?_⟩, fun _ _ _ => trivial⟩
      · obtain ⟨root, _, -, ⟨⟩⟩ := bind_eq_ok answered
        exact ⟨root, rfl⟩
      · exact since.trans (since_of_answered lawful_objectType (.objectType le_rfl) answered)
    have kept : ∀ e', e' = e → base.Since e' := by
      rintro _ rfl
      exact since
    refine (object.pre kept).bind fun t => .assume (fun e h => h.1) ?_
    rintro ⟨root, rfl⟩
    refine .ite (fun same => ?_) fun _ => ?_
    · cases beq_iff_eq.1 same
    · exact (reachesType_hits ordered stored rfl ⟨g, rfl, inside⟩).pre fun _ h => h.2

end

theorem affirmed_of_containsAll {pairs : List (Ty × Ty)}
    (answered : containsAll pairs (oracle depth) e = (.ok true, e')) :
    ∀ pair ∈ pairs, e.Affirmed e' (contains pair.1 pair.2) := by
  induction pairs generalizing e with
  | nil => nofun
  | cons first pairs ih =>
    obtain ⟨r, mid, asked, rest⟩ := bind_eq_ok answered
    cases depth with
    | zero => cases asked
    | succ d =>
      cases r with
      | false => cases rest
      | true =>
        have asks := reasks (le_refl (d + 1))
        have before : e.Since mid :=
          since_of_answered (Lawful.ask (.contains first.1 first.2) (by simp)) (asks.contains _ _) asked
        have after : mid.Since e' := since_of_answered lawful_containsAll (asks.containsAll pairs) rest
        refine List.forall_mem_cons.2 ⟨⟨d, e, mid, .refl e, asked, after⟩, fun pair hp => ?_⟩
        exact (ih rest pair hp).of_since before

theorem affirmed_of_fitsTarget {g h : BindingId} {xs ys : List Ty} {outer outer' : Option Ty}
    (affirmed : base.Affirmed e (fitsTarget (.parameterized g xs outer) (.parameterized h ys outer'))) :
    xs.length = ys.length ∧ ∀ pair ∈ ys.zip xs, base.Affirmed e (contains pair.1 pair.2) := by
  obtain ⟨n, d, d', before, answered, after⟩ := affirmed
  rw [fitsTarget] at answered
  split at answered
  · next same =>
    refine ⟨beq_iff_eq.1 same, fun pair hp => ?_⟩
    exact ((affirmed_of_containsAll answered pair hp).since after).of_since before
  · cases answered

end Resolve

namespace Env

variable {base e : Env} {x y : Resolve Bool} {a b : Ty}

theorem Affirmed.confirms (completed : base.Completed) (h : base.Affirmed e (Resolve.contains a b)) :
    e.Confirms (Resolve.contains a b) := by
  obtain ⟨n, d, d', before, answered, after⟩ := h
  have completed := completed.of_fills (before.fills completed)
  refine ⟨n, fun m le => ?_⟩
  obtain ⟨fills, again⟩ := (Resolve.reasks le).contains_step le a b d true d' completed answered
  exact again e (after.fills (completed.of_fills fills))

theorem confirms_ask (q : Query Bool) : e.Confirms (Resolve.ask q) ↔ e.Confirms (Resolve.answer q) := by
  constructor
  · rintro ⟨k, confirmed⟩
    exact ⟨k, fun n le => confirmed (n + 1) (Nat.le_succ_of_le le)⟩
  · rintro ⟨k, confirmed⟩
    refine ⟨k + 1, fun n le => ?_⟩
    obtain ⟨n, rfl⟩ := Nat.exists_eq_succ_of_ne_zero (Nat.ne_zero_of_lt le)
    exact confirmed n (Nat.le_of_succ_le_succ le)

theorem confirms_true : e.Confirms (pure true) := ⟨0, fun _ _ => rfl⟩

theorem not_confirms_false : ¬e.Confirms (pure false) := by
  rintro ⟨k, confirmed⟩
  cases confirmed k le_rfl

theorem Confirms.and (hx : e.Confirms x) : e.Confirms (do if ← x then y else return false) ↔ e.Confirms y := by
  obtain ⟨k, first⟩ := hx
  have same (n : Nat) (le : k ≤ n) :
      (do if ← x then y else return false : Resolve Bool) (Resolve.oracle n) e = y (Resolve.oracle n) e :=
    Resolve.bind_apply_ok (first n le)
  constructor
  · rintro ⟨m, confirmed⟩
    exact ⟨max k m, fun n le => (same n (by omega)).symm.trans (confirmed n (by omega))⟩
  · rintro ⟨m, confirmed⟩
    exact ⟨max k m, fun n le => (same n (by omega)).trans (confirmed n (by omega))⟩

theorem confirms_containsBothWays {pairs : List (Ty × Ty)} (h : ∀ pair ∈ pairs,
      e.Confirms (Resolve.contains pair.1 pair.2) ∧ e.Confirms (Resolve.contains pair.2 pair.1)) :
    e.Confirms (Resolve.containsBothWays pairs) := by
  induction pairs with
  | nil => exact confirms_true
  | cons pair pairs ih =>
    obtain ⟨⟨there, back⟩, others⟩ := List.forall_mem_cons.1 h
    refine (((confirms_ask _).2 there).and).2 ?_
    exact (((confirms_ask _).2 back).and).2 (ih others)

theorem confirms_isEquivalent_self : e.Confirms (Resolve.isEquivalent a a) := by
  refine ⟨0, fun n _ => ?_⟩
  unfold Resolve.isEquivalent
  rw [if_pos (by simp)]
  rfl

theorem confirms_isEquivalent {g : BindingId} {xs ys : List Ty} {outer outer' : Option Ty}
    (length : xs.length = ys.length) (compared : e.Confirms (Resolve.containsBothWays (xs.zip ys))) :
    e.Confirms (Resolve.isEquivalent (.parameterized g xs outer) (.parameterized g ys outer')) ↔
      Option.Rel (fun x y => e.Confirms (Resolve.isEquivalent x y)) outer outer' := by
  by_cases same : Ty.parameterized g xs outer = .parameterized g ys outer'
  · cases same
    refine iff_of_true confirms_isEquivalent_self ?_
    cases outer with
    | none => exact .none
    | some x => exact .some confirms_isEquivalent_self
  · unfold Resolve.isEquivalent
    rw [if_neg (by simpa using same)]
    dsimp only
    rw [if_neg (by simpa using length), compared.and]
    cases outer with
    | none =>
      cases outer' with
      | none => exact iff_of_true confirms_true .none
      | some y => exact iff_of_false not_confirms_false nofun
    | some x =>
      cases outer' with
      | none => exact iff_of_false not_confirms_false nofun
      | some y =>
        refine (confirms_ask (.isEquivalent x y)).trans ⟨fun confirmed => .some confirmed, ?_⟩
        rintro ⟨confirmed⟩
        exact confirmed

variable {provider : Provider} {options : Options} {e₁ e₂ : Env}

/-- Instantiations that are subtypes of each other are of one class, and their arguments contain each other.
They are equivalent if and only if what they are within is. -/
theorem isSubtype_antisymm (reachable : Reachable provider options e) (ordered : e.Ordered) {g h : BindingId}
    {xs ys : List Ty} {outer outer' : Option Ty} (inside : g.index < e.bindings.size)
    (inside' : h.index < e.bindings.size) (proper : (e.binding g).isProblem = false)
    (proper' : (e.binding h).isProblem = false) {n m : Nat}
    (down : Resolve.isSubtype (.parameterized g xs outer) (.parameterized h ys outer') (Resolve.oracle n) e =
      (.ok true, e₁))
    (up : Resolve.isSubtype (.parameterized h ys outer') (.parameterized g xs outer) (Resolve.oracle m) e₁ =
      (.ok true, e₂)) :
    g = h ∧ xs.length = ys.length ∧
      (∀ pair ∈ xs.zip ys, e.Affirmed e₂ (Resolve.contains pair.1 pair.2) ∧
        e.Affirmed e₂ (Resolve.contains pair.2 pair.1)) ∧
      (e.Completed →
        (e₂.Confirms (Resolve.isEquivalent (.parameterized g xs outer) (.parameterized h ys outer')) ↔
          Option.Rel (fun x y => e₂.Confirms (Resolve.isEquivalent x y)) outer outer')) := by
  obtain ⟨rfl, length, both⟩ : g = h ∧ xs.length = ys.length ∧
      ∀ pair ∈ xs.zip ys, e.Affirmed e₂ (Resolve.contains pair.1 pair.2) ∧
        e.Affirmed e₂ (Resolve.contains pair.2 pair.1) := by
    have asks (k : Nat) := Resolve.reasks (le_refl k)
    have before := Resolve.since_of_answered Resolve.lawful_isSubtype ((asks n).isSubtype_step le_rfl _ _) down
    have after := Resolve.since_of_answered Resolve.lawful_isSubtype ((asks m).isSubtype_step le_rfl _ _) up
    by_cases same : Ty.parameterized g xs outer = .parameterized h ys outer'
    · cases same
      have contained (x : Ty) : e.Affirmed e₂ (Resolve.contains x x) :=
        ⟨0, e₂, e₂, before.trans after, Resolve.contains_self, .refl e₂⟩
      refine ⟨rfl, rfl, fun pair hp => ?_⟩
      obtain ⟨i, at_i, rfl⟩ := List.getElem_of_mem hp
      rw [List.getElem_zip]
      exact ⟨contained _, contained _⟩
    · have stored := reachable.stored
      obtain ⟨t, above, named, fits⟩ :=
        Resolve.isSubtype_hits ordered stored inside inside' proper proper' same (.refl e) down
      obtain ⟨u, above', named', fits'⟩ :=
        Resolve.isSubtype_hits ordered stored inside' inside proper' proper (Ne.symm same) before up
      -- Each class is reached from the other, which an acyclic hierarchy allows for one class only.
      obtain ⟨rfl, rfl, rfl⟩ := above.eq_of_both ordered.acyclic above' rfl rfl named named'
      obtain ⟨length, there⟩ := Resolve.affirmed_of_fitsTarget fits
      obtain ⟨-, back⟩ := Resolve.affirmed_of_fitsTarget fits'
      refine ⟨rfl, length, fun pair hp => ⟨back pair hp, (there pair.swap ?_).since after⟩⟩
      rw [← List.zip_swap xs ys]
      exact List.mem_map_of_mem hp
  refine ⟨rfl, length, both, fun completed => confirms_isEquivalent length ?_⟩
  exact confirms_containsBothWays fun pair hp => (both pair hp).imp (·.confirms completed) (·.confirms completed)

def outs : UnitDecl where
  fileName := "U"
  package := "p"
  types := [{ name := "A" }, { name := "B" },
    { name := "Out", typeParams := [{ name := "T" }], memberTypes := [{ name := "In" }] }]

/-- A session in which the unit has been declared and its types are resolved. -/
def outed : Env :=
  ((Operation.addUnits [outs]).perform.run { options := {}, provider := (Library.core {}).provider }).2.askTypes
    [⟨0⟩, ⟨1⟩, ⟨2⟩, ⟨3⟩, ⟨4⟩]

theorem reachable_outed : Reachable (Library.core {}).provider {} outed :=
  .askTypes (.step (.addUnits [outs]) (.new rfl))

theorem resolved_outed : outed.Resolved ⟨4⟩ :=
  (resolved_of_isResolvedBy (fun b => [1, 1, 1, 1, 0].getD b.index 0) (by decide +kernel)).1

theorem completed_outed : outed.Completed where
  supertypes := resolved_outed.resolved
  vars := varsResolved_of_isSome (by decide +kernel)
  root := .inl (by rw [resolved_outed.bound]; rfl)

def outOf (arg : Ty) : Ty := .parameterized ⟨2⟩ [arg] none

def inOf (arg : Ty) : Ty := .parameterized ⟨3⟩ [] (some (outOf arg))

theorem isSubtype_antisymm_outed :
    ∃ e₁ e₂, Resolve.isSubtype (outOf (.wildcard .unbounded none)) (outOf (.wildcard .extends (some (.declared ⟨4⟩))))
        (Resolve.oracle Resolve.maxDepth) outed = (.ok true, e₁) ∧
      Resolve.isSubtype (outOf (.wildcard .extends (some (.declared ⟨4⟩)))) (outOf (.wildcard .unbounded none))
        (Resolve.oracle Resolve.maxDepth) e₁ = (.ok true, e₂) ∧
      e₂.Confirms (Resolve.isEquivalent (outOf (.wildcard .unbounded none))
        (outOf (.wildcard .extends (some (.declared ⟨4⟩))))) := by
  have answers : (Resolve.isSubtype (outOf (.wildcard .unbounded none))
        (outOf (.wildcard .extends (some (.declared ⟨4⟩)))) (Resolve.oracle Resolve.maxDepth) outed).1 = .ok true ∧
      (Resolve.isSubtype (outOf (.wildcard .extends (some (.declared ⟨4⟩)))) (outOf (.wildcard .unbounded none))
        (Resolve.oracle Resolve.maxDepth) (Resolve.isSubtype (outOf (.wildcard .unbounded none))
          (outOf (.wildcard .extends (some (.declared ⟨4⟩)))) (Resolve.oracle Resolve.maxDepth) outed).2).1 =
        .ok true := by
    decide +kernel
  have down : Resolve.isSubtype (outOf (.wildcard .unbounded none)) _ _ outed = _ := Resolve.run_of_outcome answers.1
  have up : Resolve.isSubtype _ (outOf (.wildcard .unbounded none)) _ _ = _ := Resolve.run_of_outcome answers.2
  have inside : (2 : Nat) < outed.bindings.size := by decide +kernel
  have proper := resolved_outed.proper ⟨2⟩
  obtain ⟨-, -, -, iff⟩ :=
    isSubtype_antisymm reachable_outed resolved_outed.toOrdered inside inside proper proper down up
  exact ⟨_, _, down, up, (iff completed_outed).2 .none⟩

/-- The member types of two instantiations are subtypes of each other, and not equivalent. -/
theorem exists_isSubtype_apart :
    ∃ provider e g h xs ys outer outer' e₁ e₂ e₃, Reachable provider {} e ∧ e.Ordered ∧ e.Completed ∧
      (e.binding g).isProblem = false ∧ (e.binding h).isProblem = false ∧
      (Operation.ask (.isSubtype (.parameterized g xs outer) (.parameterized h ys outer'))).perform.run e =
        (.ok true, e₁) ∧
      (Operation.ask (.isSubtype (.parameterized h ys outer') (.parameterized g xs outer))).perform.run e₁ =
        (.ok true, e₂) ∧
      (Operation.ask (.isEquivalent (.parameterized g xs outer) (.parameterized h ys outer'))).perform.run e₂ =
        (.ok false, e₃) := by
  let down := (Operation.ask (.isSubtype (inOf (.declared ⟨0⟩)) (inOf (.declared ⟨1⟩)))).perform.run outed
  let up := (Operation.ask (.isSubtype (inOf (.declared ⟨1⟩)) (inOf (.declared ⟨0⟩)))).perform.run down.2
  have answers : down.1 = .ok true ∧ up.1 = .ok true ∧
      ((Operation.ask (.isEquivalent (inOf (.declared ⟨0⟩)) (inOf (.declared ⟨1⟩)))).perform.run up.2).1 =
        .ok false := by
    decide +kernel
  exact ⟨_, outed, ⟨3⟩, ⟨3⟩, [], [], _, _, _, _, _, reachable_outed, resolved_outed.toOrdered, completed_outed,
    resolved_outed.proper _, resolved_outed.proper _, Resolve.run_of_outcome answers.1,
    Resolve.run_of_outcome answers.2.1, Resolve.run_of_outcome answers.2.2⟩

end Env

end TeamRoles
