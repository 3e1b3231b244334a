import TeamRoles.Proofs.Generics.Ascent

/-!
The search for a class type above another one. It does not look above types of the class that is searched
for, above which the class is not met again, and so it meets all that could fit.
-/

namespace TeamRoles

namespace Env

def Given (e : Env) (t u : Ty) : Prop := ∃ s, e.Gives t s ∧ u ∈ s.all

/-- How far a search has come for types above the start that fit. -/
structure Combed (e : Env) (start sup : Ty) (seen todo : List Ty) : Prop where
  started : start ∈ seen ∨ start ∈ todo
  reached : ∀ t ∈ todo, Relation.ReflTransGen e.Given start t
  met : ∀ t ∈ seen, ¬sup.Fits t ∧ (bindingOf? t = bindingOf? sup ∨
    ∃ s, e.Gives t s ∧ ∀ u ∈ s.all, u ∈ seen ∨ u ∈ todo)

/-- A relation between class types that is the given one where types have been given, and never leads down. -/
structure Edges (base : Env) (e : Env) (R : Ty → Ty → Prop) : Prop where
  given : ∀ {t s u}, base.Knows t → e.Gives t s → (R t u ↔ u ∈ s.all)
  up : ∀ {t u}, base.Knows t → R t u → base.Knows u ∧ base.Ascends t u

variable {base e : Env} {root : BindingId} {start sup t u : Ty} {seen todo : List Ty} {s : Supertypes}

theorem Given.stable : Resolve.Stable 2 fun e => e.Given t u :=
  fun _ _ _ runs ⟨s, given, hu⟩ => ⟨s, Gives.stable runs given, hu⟩

namespace Combed

theorem stable : Resolve.Stable 2 fun e => e.Combed start sup seen todo := by
  intro e r e' runs h
  refine ⟨h.started, fun t ht => ?_, fun t ht => ?_⟩
  · exact Relation.ReflTransGen.mono (fun _ _ => Given.stable runs) _ _ (h.reached t ht)
  · refine (h.met t ht).imp_right (.imp_right ?_)
    rintro ⟨s, given, due⟩
    exact ⟨s, Gives.stable runs given, due⟩

theorem begin : e.Combed start sup [] [start] := by
  refine ⟨.inr List.mem_cons_self, fun t ht => ?_, nofun⟩
  rw [List.mem_singleton.1 ht]

theorem next {seen' todo' : List Ty} (h : e.Combed start sup seen todo)
    (due : ∀ u, u ∈ seen ∨ u ∈ todo → u ∈ seen' ∨ u ∈ todo')
    (reached : ∀ t ∈ todo', t ∈ todo ∨ Relation.ReflTransGen e.Given start t)
    (met : ∀ t ∈ seen', t ∈ seen ∨ ¬sup.Fits t ∧ (bindingOf? t = bindingOf? sup ∨
      ∃ s, e.Gives t s ∧ ∀ u ∈ s.all, u ∈ seen' ∨ u ∈ todo')) :
    e.Combed start sup seen' todo' := by
  refine ⟨due start h.started, fun t ht => (reached t ht).elim (h.reached t) id, fun t ht => ?_⟩
  refine (met t ht).elim (fun old => (h.met t old).imp_right (.imp_right ?_)) id
  rintro ⟨s, given, above⟩
  exact ⟨s, given, fun u hu => due u (above u hu)⟩

theorem skip (h : e.Combed start sup seen (t :: todo)) (known : t ∈ seen) :
    e.Combed start sup seen todo :=
  h.next (by grind) (fun _ hu => .inl (List.mem_cons_of_mem t hu)) fun _ => .inl

theorem leaf (h : e.Combed start sup seen (t :: todo)) (other : ¬sup.Fits t)
    (same : bindingOf? t = bindingOf? sup) : e.Combed start sup (t :: seen) todo := by
  refine h.next (by grind) (fun _ hu => .inl (List.mem_cons_of_mem t hu)) fun u hu => ?_
  rcases List.mem_cons.1 hu with rfl | old
  · exact .inr ⟨other, .inl same⟩
  · exact .inl old

theorem inner (h : e.Combed start sup seen (t :: todo)) (other : ¬sup.Fits t) (given : e.Gives t s) :
    e.Combed start sup (t :: seen) (s.all.reverse ++ todo) := by
  refine h.next (by grind) (fun u hu => ?_) fun u hu => ?_
  · rcases List.mem_append.1 hu with above | old
    · have path := h.reached t List.mem_cons_self
      exact .inr (path.tail ⟨s, given, List.mem_reverse.1 above⟩)
    · exact .inl (List.mem_cons_of_mem t old)
  · rcases List.mem_cons.1 hu with rfl | old
    · exact .inr ⟨other, .inr ⟨s, given, fun u hu => .inr (by simp [hu])⟩⟩
    · exact .inl old

theorem not_fits {R : Ty → Ty → Prop} (h : e.Combed start sup seen [])
    (acyclic : ∀ b, ¬Relation.TransGen base.Above b b) (edges : Edges base e R) (knows : base.Knows start)
    (path : Relation.ReflTransGen R start t) : ¬sup.Fits t := by
  -- A type that has not been met lies above one of the class that is searched for.
  suffices met : base.Knows t ∧ (t ∈ seen ∨ ∃ c d, bindingOf? sup = some c ∧ bindingOf? t = some d ∧
      Relation.TransGen base.Above c d) by
    intro fits
    rcases met.2 with seen | ⟨c, d, top, named, path⟩
    · exact (h.met t seen).1 fits
    · rw [← fits.bindingOf?_eq, named] at top
      cases top
      exact acyclic _ path
  induction path with
  | refl => exact ⟨knows, .inl (h.started.resolve_right List.not_mem_nil)⟩
  | @tail t u _ edge ih =>
    obtain ⟨knows, met⟩ := ih
    obtain ⟨knows', c, d, named, named', above⟩ := edges.up knows edge
    refine ⟨knows', ?_⟩
    rcases met with seen | ⟨top, c', named'', class', path⟩
    · rcases (h.met t seen).2 with same | ⟨s, given, due⟩
      · exact .inr ⟨c, d, same ▸ named, named', .single above⟩
      · exact .inl ((due u ((edges.given knows given).1 edge)).resolve_right List.not_mem_nil)
    · cases named.symm.trans class'
      exact .inr ⟨top, d, named'', named', path.tail above⟩

end Combed

theorem knows_of_path (resolved : base.Resolved root) (stored : base.Stored) (later : base.Later root e)
    (knows : base.Knows start) (path : Relation.ReflTransGen e.Given start t) : base.Knows t := by
  induction path with
  | refl => exact knows
  | tail _ edge ih =>
    obtain ⟨s, given, member⟩ := edge
    exact (given.above resolved stored later.toGrown ih _ member).1

def weigh (weight : BindingId → Nat) (t : Ty) : Nat := ((bindingOf? t).map weight).getD 0

theorem weigh_pos {weight : BindingId → Nat} (heavy : ∀ b, ((e.supers b).map weight).sum < weight b)
    {c : BindingId} (named : bindingOf? t = some c) : 0 < weigh weight t := by
  rw [weigh, named]
  exact Nat.lt_of_le_of_lt (Nat.zero_le _) (heavy c)

theorem sum_weigh (weight : BindingId → Nat) (l : List Ty) :
    (l.map (weigh weight)).sum = ((l.filterMap bindingOf?).map weight).sum := by
  induction l with
  | nil => rfl
  | cons t l ih =>
    rw [List.map_cons, List.sum_cons, ih, List.filterMap_cons, weigh]
    cases bindingOf? t <;> simp

end Env

namespace Resolve

open Env

variable {base e : Env} {root : BindingId} {start sup t u : Ty} {seen todo : List Ty} {depth : Nat}
  {target : BindingId} {weight : BindingId → Nat} {short : Prop}

def Searches (base : Env) (root : BindingId) (start sup : Ty) (r : Bool) (e : Env) : Prop :=
  base.Later root e ∧ if r then ∃ u, Relation.ReflTransGen e.Given start u ∧ sup.Fits u
    else ∃ seen, e.Combed start sup seen []

def Visits (sup t : Ty) : Visit Bool → Prop
  | .stop found => found = true ∧ sup.Fits t
  | .leaf found => found = false ∧ ¬sup.Fits t ∧ bindingOf? t = bindingOf? sup
  | .inner found => found = false ∧ ¬sup.Fits t

def visitType (sup : Ty) (target : BindingId) (_ : Bool) (t : Ty) : Resolve (Visit Bool) := do
  if bindingOf? t != some target then return .inner false
  else if ← fitsTarget t sup then return .stop true
  else return .leaf false

theorem visitType_answers {P : Env → Prop} (wanted : sup.IsTarget target) (bare : t.isBare = true)
    (known : ∀ e, P e → e.RootKnown) (deep : ¬short → 2 * sizeOf sup ≤ depth) (found : Bool) :
    Answers (oracle depth) P (visitType sup target found t) (fun v e => P e ∧ Visits sup t v) short := by
  refine .ite (fun differ => ?_) fun same => ?_
  · refine .pure fun e he => ⟨he, rfl, fun fits => ?_⟩
    rw [fits.bindingOf?_eq, wanted.named] at differ
    simp at differ
  · have same : bindingOf? t = some target := by simpa using same
    have fits : Answers (oracle depth) P (fitsTarget t sup) (fun r e => P e ∧ (r = true ↔ sup.Fits t)) short := by
      refine (Interns.answers fun e he => fitsTarget_interns wanted (known e he) bare same).weaken fun shallow => ?_
      by_contra long
      exact absurd shallow (Nat.not_lt_of_le (deep long))
    refine fits.bind fun r => .ite (fun yes => ?_) fun no => ?_
    · exact .pure fun e h => ⟨h.1, rfl, h.2.1 yes⟩
    · exact .pure fun e h => ⟨h.1, rfl, fun fits => no (h.2.2 fits), same.trans wanted.named.symm⟩

theorem aboveType_answers (resolved : base.Resolved root) (stored : base.Stored) (knows : base.Knows t)
    (heavy : ∀ b, ((base.supers b).map weight).sum < weight b) (other : ¬sup.Fits t)
    (enough : ¬short → base.VarsResolved ∧ depth ≠ 0) :
    Answers (oracle depth) (fun e => base.Later root e ∧ e.Combed start sup seen (t :: todo))
      (do return (← typeSupertypes t).all)
      (fun next e => (next.map (weigh weight)).sum < weigh weight t ∧ base.Later root e ∧
        e.Combed start sup (t :: seen) (next.reverse ++ todo)) short := by
  have stable : Stable 2 fun e => base.Later root e ∧ e.Combed start sup seen (t :: todo) :=
    fun _ _ _ runs h => ⟨Later.stable runs h.1, Combed.stable runs h.2⟩
  refine (typeSupertypes_answers resolved.toOrdered t knows stable (fun e h => h.1.toGrown) enough).bind fun s =>
    .pure fun e h => ?_
  obtain ⟨given, later, combed⟩ := h
  refine ⟨?_, later, combed.inner other given⟩
  obtain ⟨-, c, named, inside⟩ := id knows
  obtain ⟨declared, known⟩ := resolved.resolved c inside
  rw [sum_weigh, ← Supertypes.bindings, given.bindings_eq later.toGrown stored named known,
    ← supers_of_resolved known, weigh, named]
  exact heavy c

theorem walkFrom_answers (resolved : base.Resolved root) (stored : base.Stored)
    (wanted : sup.IsTarget target) (knows : base.Knows start)
    (heavy : ∀ b, ((base.supers b).map weight).sum < weight b) {fuel : Nat}
    (enough : ¬short → base.VarsResolved ∧ 2 * sizeOf sup < depth ∧ (todo.map (weigh weight)).sum ≤ fuel) :
    Answers (oracle depth) (fun e => base.Later root e ∧ e.Combed start sup seen todo)
      (walkFrom .lastFirst (fun t => return (← typeSupertypes t).all) (visitType sup target)
        fuel seen todo false)
      (Searches base root start sup) short := by
  -- A type weighs more than all types above it, so the weight of what is left to visit pays for the fuel.
  induction fuel generalizing seen todo with
  | zero =>
    cases todo with
    | nil => exact .pure fun e h => ⟨h.1, seen, h.2⟩
    | cons t todo =>
      refine .of_error fun e h => ⟨rfl, ?_⟩
      by_contra long
      obtain ⟨-, c, named, -⟩ := knows_of_path resolved stored h.1 knows (h.2.reached t List.mem_cons_self)
      have pos := weigh_pos heavy named
      have spent := (enough long).2.2
      rw [List.map_cons, List.sum_cons] at spent
      omega
  | succ fuel ih =>
    cases todo with
    | nil => exact .pure fun e h => ⟨h.1, seen, h.2⟩
    | cons t todo =>
      refine .assume (fun e h => knows_of_path resolved stored h.1 knows (h.2.reached t List.mem_cons_self))
        fun knows_t => ?_
      obtain ⟨bare, c, named, -⟩ := id knows_t
      have pos := weigh_pos heavy named
      have rest (long : ¬short) : base.VarsResolved ∧ 2 * sizeOf sup < depth ∧
          (todo.map (weigh weight)).sum ≤ fuel := by
        obtain ⟨all, deep, spent⟩ := enough long
        rw [List.map_cons, List.sum_cons] at spent
        exact ⟨all, deep, by omega⟩
      rw [walkFrom]
      refine .ite (fun known => ?_) fun fresh => ?_
      · exact (ih rest).pre fun e h => ⟨h.1, h.2.skip (List.contains_iff_mem.1 known)⟩
      · refine (visitType_answers wanted bare (fun e h => h.1.rootKnown) (fun long => (rest long).2.1.le) _).bind
          fun v => ?_
        cases v with
        | stop found =>
          refine .pure fun e h => ?_
          obtain ⟨⟨later, combed⟩, rfl, fits⟩ := h
          exact ⟨later, t, combed.reached t List.mem_cons_self, fits⟩
        | leaf found =>
          refine .assume (fun e h => h.2) ?_
          rintro ⟨rfl, other, same⟩
          exact (ih rest).pre fun e h => ⟨h.1.1, h.1.2.leaf other same⟩
        | inner found =>
          refine .assume (fun e h => h.2) ?_
          rintro ⟨rfl, other⟩
          refine (aboveType_answers resolved stored knows_t heavy other fun long => ?_).pre (fun e h => h.1)
            |>.bind fun next => ?_
          · exact ⟨(rest long).1, fun none => by have := (rest long).2.1; omega⟩
          · refine .assume (fun e h => h.1) fun lighter => (ih fun long => ?_).pre fun e h => h.2
            obtain ⟨all, deep, spent⟩ := enough long
            rw [List.map_cons, List.sum_cons] at spent
            refine ⟨all, deep, ?_⟩
            rw [WalkOrder.push, List.map_append, List.sum_append, List.map_reverse, List.sum_reverse]
            omega

theorem reachesType_answers (resolved : base.Resolved root) (stored : base.Stored)
    (wanted : sup.IsTarget target) (knows : base.Knows start)
    (heavy : ∀ b, ((base.supers b).map weight).sum < weight b)
    (enough : ¬short → base.VarsResolved ∧ 2 * sizeOf sup < depth ∧ weigh weight start ≤ depth) :
    Answers (oracle depth) (base.Later root) (reachesType start sup) (Searches base root start sup) short := by
  have fuel : Answers (oracle depth) (base.Later root) Resolve.depth
      (fun n e => n = depth ∧ base.Later root e) short :=
    .of_ok fun e later => ⟨by cases depth <;> rfl, rfl, later⟩
  rw [reachesType, wanted.named]
  refine fuel.bind fun n => .assume (fun e h => h.1) ?_
  rintro rfl
  refine (walkFrom_answers resolved stored wanted knows heavy fun long => ?_).pre fun e h => ⟨h.2, .begin⟩
  obtain ⟨all, deep, spent⟩ := enough long
  exact ⟨all, deep, by simpa using spent⟩

theorem reachesType_array {component : Ty} {P : Env → Prop} (named : bindingOf? sup = some target)
    (enough : ¬short → depth ≠ 0) :
    Answers (oracle depth) P (reachesType (.array component) sup) (fun r e => r = false ∧ P e) short := by
  rw [reachesType, named]
  cases depth with
  | zero => exact .of_error fun e _ => ⟨rfl, by_contra fun long => enough long rfl⟩
  | succ d =>
    refine .of_ok (a := false) fun e he => ⟨?_, rfl, he⟩
    have fuel : Resolve.depth (oracle (d + 1)) e = (.ok (d + 1), e) := rfl
    refine (bind_apply_ok fuel).trans ?_
    rw [walkFrom, if_neg (by simp)]
    have visited : visitType sup target false (.array component) (oracle (d + 1)) e = (.ok (.inner false), e) := rfl
    refine (bind_apply_ok visited).trans ?_
    cases d <;> rfl

end Resolve

namespace Env

section

variable {base e : Env} {root : BindingId} {start sup t u : Ty} {R : Ty → Ty → Prop} {r : Bool}

theorem Edges.path (resolved : base.Resolved root) (stored : base.Stored) (later : base.Later root e)
    (edges : Edges base e R) (knows : base.Knows start) (path : Relation.ReflTransGen e.Given start t) :
    Relation.ReflTransGen R start t := by
  induction path with
  | refl => exact .refl
  | tail path edge ih =>
    obtain ⟨s, given, member⟩ := edge
    have knows := knows_of_path resolved stored later knows path
    exact ih.tail ((edges.given knows given).2 member)

theorem Searches.iff (resolved : base.Resolved root) (stored : base.Stored)
    (answer : Resolve.Searches base root start sup r e) (edges : Edges base e R) (knows : base.Knows start) :
    r = true ↔ ∃ u, Relation.ReflTransGen R start u ∧ sup.Fits u := by
  obtain ⟨later, found⟩ := answer
  cases r with
  | true =>
    obtain ⟨u, path, fits⟩ := found
    exact iff_of_true rfl ⟨u, edges.path resolved stored later knows path, fits⟩
  | false =>
    obtain ⟨seen, combed⟩ := found
    refine iff_of_false nofun ?_
    rintro ⟨u, path, fits⟩
    exact combed.not_fits resolved.acyclic edges knows path fits

end

end Env

end TeamRoles
