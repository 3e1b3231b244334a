import TeamRoles.Proofs.Generics.Reach
import TeamRoles.Proofs.Session.Pass

/-!
Subtyping of plain types: those without variables, wildcards, raw types and enclosing instantiations. Of
two class types the one is a subtype of the other if the other one is the root, or is reached from it by
asking for supertypes. For a class any type of the class counts, with whatever arguments.
-/

namespace TeamRoles

namespace Env

/-- Types made of classes that are there and not generic, and of instantiations. -/
inductive Plain (e : Env) : Ty → Prop
  | null : Plain e .null
  | primitive {b : BaseType} : Plain e (.primitive b)
  | declared {b : BindingId} : b.index < e.bindings.size → (e.binding b).isGeneric = false →
    Plain e (.declared b)
  | array {t : Ty} : Plain e t → Plain e (.array t)
  | parameterized {g : BindingId} {args : List Ty} : g.index < e.bindings.size →
    (∀ t ∈ args, Plain e t) → Plain e (.parameterized g args none)

inductive Below (R : Ty → Ty → Prop) (root : BindingId) : Ty → Ty → Prop
  | refl {t : Ty} : Below R root t t
  | root {t : Ty} : t.isReference = true → Below R root t (.declared root)
  | null {t : Ty} : t.isReference = true → Below R root .null t
  | array {x y : Ty} : x.isReference = true → y.isReference = true → Below R root x y →
    Below R root (.array x) (.array y)
  | reach {t u sup : Ty} : (bindingOf? t).isSome = true → (bindingOf? sup).isSome = true →
    Relation.ReflTransGen R t u → sup.Fits u → Below R root t sup

/-- The second type is answered when the supertypes of the first are asked for. -/
def Climbs (e : Env) (t u : Ty) : Prop :=
  ∃ s e', (Operation.typeSupertypes t).perform.run e = (.ok s, e') ∧ u ∈ s.all

/-- Types lie above a type when they have been given there, and above a class that is not generic when they
are stored there. -/
def Rises (base e : Env) (t u : Ty) : Prop :=
  e.Given t u ∨ ∃ c s, bindingOf? t = some c ∧ (base.binding c).isGeneric = false ∧
    base.slot (.supertypes c) = .resolved s ∧ u ∈ s.all

variable {base e e' : Env} {root : BindingId} {a b c t u sup : Ty} {R : Ty → Ty → Prop} {s s' : Supertypes}

theorem Plain.isFlat (h : e.Plain t) : t.isFlat = true := by
  induction h with
  | null | primitive | declared => rfl
  | array _ ih => exact ih
  | parameterized _ _ ih => exact Ty.allFlat_iff.2 ih

theorem Plain.knows (h : e.Plain t) {d : BindingId} (named : bindingOf? t = some d) : e.Knows t := by
  cases h with
  | declared inside | parameterized inside => exact ⟨rfl, _, rfl, inside⟩
  | _ => cases named

theorem Plain.isTarget (h : e.Plain t) {d : BindingId} (named : bindingOf? t = some d) : t.IsTarget d where
  flat := h.isFlat
  bare := (h.knows named).1
  plain role path same := by
    subst same
    cases h
  named := named

theorem Plain.proper (resolved : base.Resolved root) (later : base.Later root e) (h : base.Plain t) :
    e.isProblemType t = false := by
  rw [isProblemType]
  split
  · next d named =>
    obtain ⟨-, d', named', inside⟩ := h.knows named
    cases named.symm.trans named'
    rw [later.lasts.extends.isProblem_eq inside, resolved.proper]
  · rfl

theorem Gives.unique (h : e.Gives t s) (h' : e.Gives t s') : s = s' := by
  have answered : Resolve.typeSupertypes t (Resolve.oracle 1) e = (.ok s, e) :=
    Resolve.typeSupertypes_of_gives h
  cases answered.symm.trans (Resolve.typeSupertypes_of_gives h')
  rfl

theorem Rises.stable : Resolve.Stable 2 fun e => base.Rises e t u :=
  fun _ _ _ runs edge => edge.imp_left (Given.stable runs)

section

variable (resolved : base.Resolved root) (stored : base.Stored) (later : base.Later root e)
include resolved stored later

theorem edges_climbs : Edges base e e.Climbs where
  given {t s u} _ given := by
    have answered : (Operation.typeSupertypes t).perform.run e = (.ok s, e) :=
      Resolve.typeSupertypes_of_gives given
    refine ⟨?_, fun member => ⟨s, e, answered, member⟩⟩
    rintro ⟨s', e', answered', member⟩
    cases answered.symm.trans answered'
    exact member
  up {t u} knows := by
    rintro ⟨s, e', answered, member⟩
    obtain ⟨-, given, grown⟩ :=
      (Resolve.typeSupertypes_triple resolved.toOrdered t knows.2).run later.toGrown answered
    exact given.above resolved stored grown knows u member

theorem edges_rises : Edges base e (base.Rises e) where
  given {t s u} knows given := by
    refine ⟨?_, fun member => .inl ⟨s, given, member⟩⟩
    rintro (⟨s', given', member⟩ | ⟨c, declared, named, plain, known, member⟩)
    · cases given.unique given'
      exact member
    · rwa [given.all_eq later.toGrown stored named known knows.1 plain]
  up {t u} knows := by
    rintro (⟨s, given, member⟩ | ⟨c, declared, named, plain, known, member⟩)
    · exact given.above resolved stored later.toGrown knows u member
    · have knows' := resolved.knows_of_resolved stored known u member
      obtain ⟨d, named', -⟩ := knows'.2
      exact ⟨knows', c, d, named, named', declared, known, List.mem_filterMap.2 ⟨u, member, named'⟩⟩

end

namespace Below

theorem iff_of_ne (differ : a ≠ b) (notRoot : b ≠ .declared root) :
    Below R root a b ↔ (a = .null ∧ b.isReference = true) ∨
      (∃ x y, a = .array x ∧ b = .array y ∧ x.isReference = true ∧ y.isReference = true ∧ Below R root x y) ∨
      (bindingOf? a).isSome = true ∧ (bindingOf? b).isSome = true ∧
        ∃ u, Relation.ReflTransGen R a u ∧ b.Fits u := by
  constructor
  · rintro (_ | _ | reference | ⟨hx, hy, below⟩ | ⟨ha, hb, path, fits⟩)
    · exact absurd rfl differ
    · exact absurd rfl notRoot
    · exact .inl ⟨rfl, reference⟩
    · exact .inr (.inl ⟨_, _, rfl, rfl, hx, hy, below⟩)
    · exact .inr (.inr ⟨ha, hb, _, path, fits⟩)
  · rintro (⟨rfl, reference⟩ | ⟨x, y, rfl, rfl, hx, hy, below⟩ | ⟨ha, hb, u, path, fits⟩)
    · exact .null reference
    · exact .array hx hy below
    · exact .reach ha hb path fits

theorem array_iff (differ : t ≠ u) (ht : t.isReference = true) (hu : u.isReference = true) :
    Below R root (.array t) (.array u) ↔ Below R root t u := by
  have differ' : t.array ≠ u.array := by simpa using differ
  have notRoot : u.array ≠ .declared root := by nofun
  rw [iff_of_ne differ' notRoot]
  simp [ht, hu, bindingOf?]

theorem isReference_of_bindingOf? (h : (bindingOf? t).isSome = true) : t.isReference = true := by
  cases t with
  | primitive => cases h
  | _ => rfl

theorem isReference_eq (h : Below R root a b) (differ : a ≠ b) :
    a.isReference = true ∧ b.isReference = true := by
  cases h with
  | refl => exact absurd rfl differ
  | root reference => exact ⟨reference, rfl⟩
  | null reference => exact ⟨rfl, reference⟩
  | array => exact ⟨rfl, rfl⟩
  | reach ha hb => exact ⟨isReference_of_bindingOf? ha, isReference_of_bindingOf? hb⟩

theorem iff_of_class (ha : (bindingOf? a).isSome = true) (hb : (bindingOf? b).isSome = true) :
    Below R root a b ↔ b = .declared root ∨ ∃ u, Relation.ReflTransGen R a u ∧ b.Fits u := by
  by_cases isRoot : b = .declared root
  · exact iff_of_true (isRoot ▸ .root (isReference_of_bindingOf? ha)) (.inl isRoot)
  by_cases same : a = b
  · exact iff_of_true (same ▸ .refl) (.inr ⟨b, same ▸ .refl, .inl rfl⟩)
  rw [iff_of_ne same isRoot]
  refine ⟨?_, fun h => .inr (.inr ⟨ha, hb, h.resolve_left isRoot⟩)⟩
  rintro (⟨rfl, -⟩ | ⟨x, y, rfl, -⟩ | ⟨-, -, h⟩)
  · cases ha
  · cases ha
  · exact .inr h

theorem mono {R' : Ty → Ty → Prop} (h : Below R root a b) (le : ∀ t u, R t u → R' t u) :
    Below R' root a b := by
  induction h with
  | refl => exact .refl
  | root reference => exact .root reference
  | null reference => exact .null reference
  | array hx hy _ ih => exact .array hx hy ih
  | reach ha hb path fits => exact .reach ha hb (Relation.ReflTransGen.mono le _ _ path) fits

end Below

section

variable (resolved : base.Resolved root) (stored : base.Stored) (later : base.Later root e)
include resolved stored later

theorem eq_root_of_below (hc : base.Plain c) (h : Below (base.Rises e) root (.declared root) c) :
    c = .declared root := by
  by_contra other
  have inside : root.index < base.bindings.size := has_of_resolved (p := .supertypes root) resolved.top (by simp)
  have knows : base.Knows (.declared root) := ⟨rfl, root, rfl, inside⟩
  obtain ⟨⟨⟩, -⟩ | ⟨x, y, ⟨⟩, -⟩ | ⟨-, -, u, path, fits⟩ := (Below.iff_of_ne (Ne.symm other) other).1 h
  rcases path.cases_head with rfl | ⟨t, edge, -⟩
  · rcases fits with rfl | ⟨d, rfl, named⟩
    · exact other rfl
    · cases named
      exact other rfl
  · obtain ⟨-, _, d, ⟨⟩, -, s, known, member⟩ := (edges_rises resolved stored later).up knows edge
    cases resolved.top.symm.trans known
    cases member

omit stored in
theorem rises_of_class {d : BindingId} (inside : d.index < base.bindings.size)
    (plain : (base.binding d).isGeneric = false) (named : bindingOf? t = some d)
    (edge : base.Rises e (.declared d) u) : base.Rises e t u := by
  obtain ⟨declared, known⟩ := resolved.resolved d inside
  rcases edge with ⟨s, given, member⟩ | ⟨_, s, ⟨⟩, -, known', member⟩
  · cases (later.lasts.resolved (p := .supertypes d) known).symm.trans given
    exact .inr ⟨d, declared, named, plain, known, member⟩
  · exact .inr ⟨d, s, named, plain, known', member⟩

theorem Below.trans (hb : base.Plain b) (hc : base.Plain c) (ab : Below (base.Rises e) root a b)
    (bc : Below (base.Rises e) root b c) : Below (base.Rises e) root a c := by
  induction ab generalizing c with
  | refl => exact bc
  | root reference =>
    rw [eq_root_of_below resolved stored later hc bc]
    exact .root reference
  | @null t reference =>
    by_cases same : t = c
    · exact same ▸ .null reference
    · exact .null (bc.isReference_eq same).2
  | @array x y hx hy below ih =>
    by_cases same : .array y = c
    · exact same ▸ .array hx hy below
    by_cases isRoot : c = .declared root
    · exact isRoot ▸ .root rfl
    obtain ⟨⟨⟩, -⟩ | ⟨_, z, ⟨⟩, rfl, -, hz, below'⟩ | ⟨⟨⟩, -⟩ := (iff_of_ne same isRoot).1 bc
    cases hb with
    | array hb =>
      cases hc with
      | array hc => exact .array hx hz (ih hb hc below')
  | @reach t u sup ht hsup path fits =>
    by_cases same : sup = c
    · exact same ▸ .reach ht hsup path fits
    by_cases isRoot : c = .declared root
    · exact isRoot ▸ .root (isReference_of_bindingOf? ht)
    -- `b` was reached by a search, so it is of a class.
    obtain ⟨rfl, -⟩ | ⟨x, y, rfl, -⟩ | ⟨-, hc', w, path', fits'⟩ := (iff_of_ne same isRoot).1 bc
    · cases hsup
    · cases hsup
    rcases fits with rfl | ⟨d, rfl, named⟩
    · exact .reach ht hc' (path.trans path') fits'
    · -- The way goes on from another type of a class that is not generic.
      cases hb with
      | declared inside plain =>
        rcases path'.cases_head with rfl | ⟨v, edge, rest⟩
        · exact absurd fits'.eq_of_declared same
        · have edge' := rises_of_class resolved later inside plain named edge
          exact .reach ht hc' ((path.tail edge').trans rest) fits'

end

end Env

namespace Resolve

open Env

variable {base e : Env} {root : BindingId} {a b : Ty} {depth : Nat} {weight : BindingId → Nat} {short : Prop}

/-- How far a search may have to go from the type, or from its components. -/
def climb (weight : BindingId → Nat) : Ty → Nat
  | .array component => climb weight component
  | t => weigh weight t

def Decides (base : Env) (root : BindingId) (a b : Ty) (r : Bool) (e : Env) : Prop :=
  base.Later root e ∧ ∀ R, Edges base e R → (r = true ↔ Below R root a b)

section

variable {o : Oracle} {x : Resolve Bool}

theorem decides_yes (below : ∀ R, Below R root a b) :
    Answers o (base.Later root) (pure true) (Decides base root a b) short :=
  .pure fun _ later => ⟨later, fun R _ => iff_of_true rfl (below R)⟩

theorem decides_no (apart : ∀ R, ¬Below R root a b) :
    Answers o (base.Later root) (pure false) (Decides base root a b) short :=
  .pure fun _ later => ⟨later, fun R _ => iff_of_false nofun (apart R)⟩

theorem decides_unless_root (reference : a.isReference = true)
    (h : b ≠ .declared root → Answers o (base.Later root) x (Decides base root a b) short) :
    Answers o (base.Later root) (if b == .declared root then return true else x) (Decides base root a b) short := by
  refine .ite (fun same => ?_) fun other => h (by simpa using other)
  rw [beq_iff_eq.1 same]
  exact decides_yes fun R => .root reference

end

theorem objectType_later (deep : ¬short → depth ≠ 0) :
    Answers (oracle depth) (base.Later root) objectType (fun t e => t = .declared root ∧ base.Later root e)
      short := by
  cases depth with
  | zero => exact .of_error fun e _ => ⟨rfl, by_contra fun long => deep long rfl⟩
  | succ d => exact .of_ok fun e later => ⟨objectType_of_bound later.bound, rfl, later⟩

section

variable (resolved : base.Resolved root) (stored : base.Stored)
  (heavy : ∀ b, ((base.supers b).map weight).sum < weight b)
include resolved stored heavy

theorem reachesType_decides (ha : base.Plain a) (hb : base.Plain b) (differ : a ≠ b)
    (notRoot : b ≠ .declared root) {c d : BindingId} (namedA : bindingOf? a = some c)
    (namedB : bindingOf? b = some d)
    (enough : ¬short → base.VarsResolved ∧ climb weight a + 2 * sizeOf b < depth) :
    Answers (oracle depth) (base.Later root) (reachesType a b) (Decides base root a b) short := by
  have same : climb weight a = weigh weight a := by
    cases a with
    | array => cases namedA
    | _ => rfl
  refine (reachesType_answers resolved stored (hb.isTarget namedB) (ha.knows namedA) heavy ?_).post ?_
  · intro long
    obtain ⟨all, deep⟩ := enough long
    exact ⟨all, by omega, by omega⟩
  · intro r e answer
    refine ⟨answer.1, fun R edges => ?_⟩
    rw [Searches.iff resolved stored answer edges (ha.knows namedA), Below.iff_of_ne differ notRoot, namedA,
      namedB]
    refine ⟨fun h => .inr (.inr ⟨rfl, rfl, h⟩), ?_⟩
    rintro (⟨rfl, -⟩ | ⟨x, y, rfl, -⟩ | ⟨-, -, h⟩)
    · cases namedA
    · cases namedA
    · exact h

theorem isSubtype_step (ha : base.Plain a) (hb : base.Plain b)
    (enough : ¬short → base.VarsResolved ∧ climb weight a + 2 * sizeOf b < depth)
    (components : ∀ x y d, a = .array x → b = .array y → depth = d + 1 →
      Answers (oracle d) (base.Later root) (isSubtype x y) (Decides base root x y) short) :
    Answers (oracle depth) (base.Later root) (isSubtype a b) (Decides base root a b) short := by
  have deep (long : ¬short) : depth ≠ 0 := by have := (enough long).2; omega
  refine .get_bind fun e later => .ite (fun answered => ?_) fun other => ?_
  · have same : a = b := by simpa [ha.proper resolved later, hb.proper resolved later] using answered
    subst same
    exact (decides_yes fun R => .refl).pre fun _ h => h ▸ later
  have differ : a ≠ b := by
    rintro rfl
    simp at other
  have searched {c d : BindingId} (notRoot : b ≠ .declared root) (namedA : bindingOf? a = some c)
      (namedB : bindingOf? b = some d) := reachesType_decides resolved stored heavy ha hb differ notRoot namedA namedB enough
  refine ((objectType_later deep).pre fun _ h => h ▸ later).bind fun object => .assume (fun e h => h.1) ?_
  rintro rfl
  refine Answers.pre (P := base.Later root) ?_ fun e h => h.2
  -- Only an array asks for its component, and only a class starts a search.
  cases hb with
  | primitive =>
    have apart (R : Ty → Ty → Prop) : ¬Below R root a (.primitive _) :=
      fun below => nomatch (below.isReference_eq differ).2
    cases ha <;> exact decides_no apart
  | null =>
    cases ha with
    | primitive => exact decides_no fun R below => nomatch (below.isReference_eq differ).1
    | null => exact absurd rfl differ
    | array | declared | parameterized =>
      refine decides_unless_root rfl fun notRoot => decides_no fun R => ?_
      simp [Below.iff_of_ne differ notRoot, bindingOf?]
  | @array y =>
    cases ha with
    | primitive => exact decides_no fun R below => nomatch (below.isReference_eq differ).1
    | null => exact decides_unless_root rfl fun _ => decides_yes fun R => .null rfl
    | @array x =>
      refine decides_unless_root rfl fun notRoot => .ite (fun references => ?_) fun primitive => ?_
      · obtain ⟨hx', hy'⟩ := Bool.and_eq_true_iff.1 references
        have below : Answers (oracle depth) (base.Later root) (ask (.isSubtype x y)) (Decides base root x y)
            short :=
          .ask (fun none => by_contra fun long => deep long none) fun d succ => components x y d rfl rfl succ
        refine below.post fun r e answer => ⟨answer.1, fun R edges => ?_⟩
        rw [answer.2 R edges, Below.array_iff (by simpa using differ) hx' hy']
      · rw [beq_eq_false_iff_ne.2 (by simpa using differ)]
        refine decides_no fun R below => primitive ?_
        obtain ⟨hx', hy', -⟩ : _ ∧ _ ∧ _ := by simpa [Below.iff_of_ne differ notRoot, bindingOf?] using below
        rw [hx', hy']
        rfl
    | declared | parameterized =>
      refine decides_unless_root rfl fun notRoot => decides_no fun R => ?_
      simp [Below.iff_of_ne differ notRoot, bindingOf?]
  | declared | parameterized =>
    cases ha with
    | primitive => exact decides_no fun R below => nomatch (below.isReference_eq differ).1
    | null => exact decides_unless_root rfl fun _ => decides_yes fun R => .null rfl
    | array =>
      refine decides_unless_root rfl fun notRoot => ?_
      refine (reachesType_array rfl deep).post ?_
      rintro _ e ⟨rfl, later⟩
      refine ⟨later, fun R _ => ?_⟩
      simp [Below.iff_of_ne differ notRoot, bindingOf?]
    | declared | parameterized =>
      refine decides_unless_root rfl fun notRoot => ?_
      exact searched notRoot rfl rfl

theorem isSubtype_answers (ha : base.Plain a) (hb : base.Plain b)
    (enough : ¬short → base.VarsResolved ∧ climb weight a + 2 * sizeOf b < depth) :
    Answers (oracle depth) (base.Later root) (isSubtype a b) (Decides base root a b) short := by
  -- The depth goes down with the arrays; everything else is answered by the search or at once.
  induction ha generalizing b depth with
  | @array x hx ih =>
    refine isSubtype_step resolved stored heavy (.array hx) hb enough ?_
    rintro _ y d ⟨⟩ rfl rfl
    cases hb with
    | array hy =>
      refine ih hy fun long => ?_
      obtain ⟨all, enough⟩ := enough long
      rw [climb, Ty.array.sizeOf_spec] at enough
      exact ⟨all, by omega⟩
  | null => exact isSubtype_step resolved stored heavy .null hb enough fun _ _ _ => nofun
  | primitive => exact isSubtype_step resolved stored heavy .primitive hb enough fun _ _ _ => nofun
  | declared inside plain =>
    exact isSubtype_step resolved stored heavy (.declared inside plain) hb enough fun _ _ _ => nofun
  | parameterized inside args =>
    exact isSubtype_step resolved stored heavy (.parameterized inside args) hb enough fun _ _ _ => nofun

end

end Resolve

namespace Env

open Resolve

variable {provider : Provider} {options : Options} {base e e₁ e₂ : Env} {root : BindingId} {a b c : Ty}

theorem Later.refl (resolved : base.Resolved root) (stored : base.Stored) : base.Later root base :=
  ⟨⟨.refl base, stored⟩, resolved.bound⟩

theorem exists_isSubtype (resolved : base.Resolved root) (stored : base.Stored) (vars : base.VarsResolved)
    (later : base.Later root e) (ha : base.Plain a) (hb : base.Plain b) :
    ∃ depth, ∀ n ≥ depth, ∃ r e', isSubtype a b (oracle n) e = (.ok r, e') ∧ Decides base root a b r e' := by
  obtain ⟨weight, heavy⟩ := stored.ranged.exists_weight resolved.acyclic
  refine ⟨climb weight a + 2 * sizeOf b + 1, fun n deep => ?_⟩
  have answers : Answers (oracle n) (base.Later root) (isSubtype a b) (Decides base root a b) False :=
    isSubtype_answers resolved stored heavy ha hb fun _ => ⟨vars, deep⟩
  rcases outcome : isSubtype a b (oracle n) e with ⟨cause | r, e'⟩
  · exact ((answers e later).2 cause e' outcome).elim
  · exact ⟨r, e', rfl, (answers e later).1 r e' outcome⟩

theorem decides_of_isSubtype (resolved : base.Resolved root) (stored : base.Stored)
    (later : base.Later root e) (ha : base.Plain a) (hb : base.Plain b) {n : Nat} {r : Bool} {e' : Env}
    (answered : isSubtype a b (oracle n) e = (.ok r, e')) : Decides base root a b r e' := by
  obtain ⟨weight, heavy⟩ := stored.ranged.exists_weight resolved.acyclic
  have answers : Answers (oracle n) (base.Later root) (isSubtype a b) (Decides base root a b) True :=
    isSubtype_answers resolved stored heavy ha hb fun long => (long trivial).elim
  exact (answers e later).1 r e' answered

theorem proceeds_isSubtype {n : Nat} {r : Bool} {e' : Env} (answered : isSubtype a b (oracle n) e = (.ok r, e')) :
    Proceeds 2 e none e' :=
  ((lawful_isSubtype (ℓ := 0)).triple.at_depth trivial answered).1

theorem isSubtype_trans (resolved : base.Resolved root) (stored : base.Stored) (later : base.Later root e)
    (ha : base.Plain a) (hb : base.Plain b) (hc : base.Plain c) {n₁ n₂ n₃ : Nat} {r : Bool} {e₁ e₂ e₃ : Env}
    (answer₁ : isSubtype a b (oracle n₁) e = (.ok true, e₁))
    (answer₂ : isSubtype b c (oracle n₂) e₁ = (.ok true, e₂))
    (answer₃ : isSubtype a c (oracle n₃) e₂ = (.ok r, e₃)) : r = true := by
  obtain ⟨later₁, below₁⟩ := decides_of_isSubtype resolved stored later ha hb answer₁
  obtain ⟨later₂, below₂⟩ := decides_of_isSubtype resolved stored later₁ hb hc answer₂
  obtain ⟨later₃, below₃⟩ := decides_of_isSubtype resolved stored later₂ ha hc answer₃
  have ab : Below (base.Rises e₃) root a b := by
    refine ((below₁ _ (edges_rises resolved stored later₁)).1 rfl).mono fun t u edge => ?_
    exact Rises.stable (proceeds_isSubtype answer₃) (Rises.stable (proceeds_isSubtype answer₂) edge)
  have bc : Below (base.Rises e₃) root b c := by
    refine ((below₂ _ (edges_rises resolved stored later₂)).1 rfl).mono fun t u edge => ?_
    exact Rises.stable (proceeds_isSubtype answer₃) edge
  exact (below₃ _ (edges_rises resolved stored later₃)).2 (ab.trans resolved stored later₃ hb hc bc)

/-- Of plain class types one is a subtype of another one if that is the root, or is reached from it through
the supertypes that are answered; for a class any type of the class has to be reached. Subtyping of plain
types is transitive. An answer is given at any depth that is great enough if type variables are resolved. -/
theorem isSubtype_plain (reachable : Reachable provider options e) (resolved : e.Resolved root) :
    (∀ a b, e.Plain a → e.Plain b → e.VarsResolved →
      ∃ depth, ∀ n ≥ depth, ∃ r e', isSubtype a b (oracle n) e = (.ok r, e')) ∧
    (∀ a b, e.Plain a → e.Plain b → (bindingOf? a).isSome = true → (bindingOf? b).isSome = true →
      ∀ n r e', isSubtype a b (oracle n) e = (.ok r, e') →
        (r = true ↔ b = .declared root ∨ ∃ u, Relation.ReflTransGen e'.Climbs a u ∧ b.Fits u)) ∧
    ∀ a b c, e.Plain a → e.Plain b → e.Plain c → ∀ n₁ n₂ e₁ e₂,
      isSubtype a b (oracle n₁) e = (.ok true, e₁) → isSubtype b c (oracle n₂) e₁ = (.ok true, e₂) →
      (∀ n r e₃, isSubtype a c (oracle n) e₂ = (.ok r, e₃) → r = true) ∧
        (e.VarsResolved → ∃ depth, ∀ n ≥ depth, ∃ e₃, isSubtype a c (oracle n) e₂ = (.ok true, e₃)) := by
  have stored := reachable.stored
  have start : e.Later root e := .refl resolved stored
  refine ⟨fun a b ha hb vars => ?_, fun a b ha hb classA classB n r e' answered => ?_, ?_⟩
  · obtain ⟨depth, answers⟩ := exists_isSubtype resolved stored vars start ha hb
    refine ⟨depth, fun n deep => ?_⟩
    obtain ⟨r, e', answered, -⟩ := answers n deep
    exact ⟨r, e', answered⟩
  · obtain ⟨later, decided⟩ := decides_of_isSubtype resolved stored start ha hb answered
    rw [decided _ (edges_climbs resolved stored later), Below.iff_of_class classA classB]
  · intro a b c ha hb hc n₁ n₂ e₁ e₂ answer₁ answer₂
    have later₁ := (decides_of_isSubtype resolved stored start ha hb answer₁).1
    have later₂ := (decides_of_isSubtype resolved stored later₁ hb hc answer₂).1
    refine ⟨fun n r e₃ answered => ?_, fun vars => ?_⟩
    · exact isSubtype_trans resolved stored start ha hb hc answer₁ answer₂ answered
    · obtain ⟨depth, answers⟩ := exists_isSubtype resolved stored vars later₂ ha hc
      refine ⟨depth, fun n deep => ?_⟩
      obtain ⟨r, e₃, answered, -⟩ := answers n deep
      obtain rfl : r = true := isSubtype_trans resolved stored start ha hb hc answer₁ answer₂ answered
      exact ⟨e₃, answered⟩

/-- All supertypes are resolved to flat types of classes of a lower rank, those of the root to none. -/
def isResolvedBy (e : Env) (root : BindingId) (rank : BindingId → Nat) : Bool :=
  e.lookup? e.options.wellKnown.object == some root &&
    (match (e.binding root).supertypes with
      | .resolved { superclass := none, interfaces := [] } => true
      | _ => false) &&
    (List.range e.bindings.size).all fun i => !(e.binding ⟨i⟩).isProblem &&
      match (e.binding ⟨i⟩).supertypes with
      | .resolved s => s.all.all (fun t => t.isFlat && t.isBare) && s.bindings.all (rank · < rank ⟨i⟩)
      | _ => false

theorem resolved_of_isResolvedBy (rank : BindingId → Nat) (h : e.isResolvedBy root rank = true) :
    e.Resolved root ∧ ∀ b s, e.slot (.supertypes b) = .resolved s → ∀ t ∈ s.all, t.isFlat = true := by
  simp only [isResolvedBy, Bool.and_eq_true, List.all_eq_true, List.mem_range] at h
  obtain ⟨⟨bound, top⟩, each⟩ := h
  have stored (b : BindingId) (s : Supertypes) (known : e.slot (.supertypes b) = .resolved s) :
      (∀ t ∈ s.all, t.isFlat = true ∧ t.isBare = true) ∧ ∀ c ∈ s.bindings, rank c < rank b := by
    have checked := (each b.index (has_of_resolved known (by simp))).2
    rw [show (e.binding ⟨b.index⟩).supertypes = _ from known] at checked
    simpa using checked
  have lower {b c : BindingId} (path : Relation.TransGen e.Above b c) : rank c < rank b := by
    induction path with
    | single above =>
      obtain ⟨s, known, member⟩ := above
      exact (stored _ s known).2 _ member
    | tail _ above ih =>
      obtain ⟨s, known, member⟩ := above
      exact Nat.lt_trans ((stored _ s known).2 _ member) ih
  refine ⟨?_, fun b s known t ht => ((stored b s known).1 t ht).1⟩
  exact {
    proper b := by
      by_cases inside : b.index < e.bindings.size
      · simpa using (each b.index inside).1
      · rw [binding_of_size_le (Nat.le_of_not_lt inside)]
        rfl
    bound := by simpa using bound
    resolved b inside := by
      have checked := (each b.index inside).2
      split at checked
      · next s known => exact ⟨s, known⟩
      · cases checked
    acyclic b cycle := Nat.lt_irrefl _ (lower cycle)
    top := by
      split at top
      · next known => exact known
      · cases top
    bare b s known t ht := ((stored b s known).1 t ht).2 }

theorem varsResolved_of_isSome (checked : (List.range e.bindings.size).all
    (fun i => (e.slot (.typeVariables ⟨i⟩)).get?.isSome) = true) : e.VarsResolved := by
  intro b inside
  obtain ⟨vars, known⟩ := Option.isSome_iff_exists.1 (List.all_eq_true.1 checked b.index (List.mem_range.2 inside))
  exact ⟨vars, slot_of_get? (p := .typeVariables b) known⟩

def askTypes (e : Env) (types : List BindingId) : Env :=
  types.foldl (fun e b => ((Operation.ask (.typeVariables b)).perform.run
    ((Operation.ask (.supertypes b)).perform.run e).2).2) e

theorem Reachable.askTypes {types : List BindingId} (h : Reachable provider options e) :
    Reachable provider options (e.askTypes types) := by
  induction types generalizing e with
  | nil => exact h
  | cons b types ih => exact ih (.step (.ask (.typeVariables b)) (.step (.ask (.supertypes b)) h))

/-- A class, a generic one, and one that extends the generic one for the first. -/
def crates : UnitDecl where
  fileName := "U"
  package := "p"
  types := [{ name := "Num" }, { name := "Box", typeParams := [{ name := "T" }] },
    { name := "Crate", superclass := some (.named [.mk "Box" [.type (.named [.mk "Num" []])]]) }]

/-- A session in which the unit has been declared and its types are resolved. -/
def crated : Env :=
  ((Operation.addUnits [crates]).perform.run { options := {}, provider := (Library.core {}).provider }).2.askTypes
    [⟨0⟩, ⟨1⟩, ⟨2⟩, ⟨3⟩]

theorem reachable_crated : Reachable (Library.core {}).provider {} crated :=
  .askTypes (.step (.addUnits [crates]) (.new rfl))

theorem resolved_crated : crated.Resolved ⟨3⟩ :=
  (resolved_of_isResolvedBy (fun b => [1, 1, 2, 0].getD b.index 0) (by decide +kernel)).1

theorem varsResolved_crated : crated.VarsResolved := varsResolved_of_isSome (by decide +kernel)

def numBox : Ty := .parameterized ⟨1⟩ [.declared ⟨0⟩] none

theorem isSubtype_plain_crated :
    (∃ depth, ∀ n ≥ depth, ∃ r e', isSubtype (.declared ⟨2⟩) numBox (oracle n) crated = (.ok r, e')) ∧
    ∃ e₁, isSubtype (.declared ⟨2⟩) numBox (oracle maxDepth) crated = (.ok true, e₁) ∧
      (∃ u, Relation.ReflTransGen e₁.Climbs (.declared ⟨2⟩) u ∧ numBox.Fits u) ∧
      ∃ e₂, isSubtype numBox (.declared ⟨3⟩) (oracle maxDepth) e₁ = (.ok true, e₂) ∧
        ∃ depth, ∀ n ≥ depth, ∃ e₃,
          isSubtype (.declared ⟨2⟩) (.declared ⟨3⟩) (oracle n) e₂ = (.ok true, e₃) := by
  have num : crated.Plain (.declared ⟨0⟩) := .declared (by decide +kernel) (by decide +kernel)
  have crate : crated.Plain (.declared ⟨2⟩) := .declared (by decide +kernel) (by decide +kernel)
  have root : crated.Plain (.declared ⟨3⟩) := .declared (by decide +kernel) (by decide +kernel)
  have box : crated.Plain numBox := .parameterized (by decide +kernel) (by simpa using num)
  have answers : (isSubtype (.declared ⟨2⟩) numBox (oracle maxDepth) crated).1 = .ok true ∧
      (isSubtype numBox (.declared ⟨3⟩) (oracle maxDepth)
        (isSubtype (.declared ⟨2⟩) numBox (oracle maxDepth) crated).2).1 = .ok true := by
    decide +kernel
  have answer₁ : isSubtype (.declared ⟨2⟩) numBox (oracle maxDepth) crated = _ := run_of_outcome answers.1
  have answer₂ : isSubtype numBox (.declared ⟨3⟩) (oracle maxDepth) _ = _ := run_of_outcome answers.2
  obtain ⟨total, iff, trans⟩ := isSubtype_plain reachable_crated resolved_crated
  refine ⟨total _ _ crate box varsResolved_crated, _, answer₁, ?_, _, answer₂, ?_⟩
  · exact ((iff _ _ crate box rfl rfl _ _ _ answer₁).1 rfl).resolve_left nofun
  · exact (trans _ _ _ crate box root _ _ _ _ answer₁ answer₂).2 varsResolved_crated

/-- What is answered when the supertypes of the type are asked for. -/
def answeredAbove (e : Env) (t : Ty) : List Ty :=
  match ((Operation.typeSupertypes t).perform.run e).1 with
  | .ok s => s.all
  | .error _ => []

theorem mem_of_climbs {S : List Ty} {t u : Ty} (closed : ∀ t ∈ S, ∀ u ∈ e.answeredAbove t, u ∈ S) (ht : t ∈ S)
    (path : Relation.ReflTransGen e.Climbs t u) : u ∈ S := by
  induction path with
  | refl => exact ht
  | @tail t u _ edge ih =>
    obtain ⟨s, e', answered, member⟩ := edge
    refine closed t ih u ?_
    rwa [answeredAbove, answered]

/-- Three classes; the signature of the last one gives an argument to the second, which has no parameters. -/
def argued : List Descriptor := [
  { name := "x.A", superclass := some "core.Object" },
  { name := "x.Foo", superclass := some "core.Object" },
  { name := "x.C", superclass := some "x.Foo", signature := some "Lx/Foo<Lx/A;>;" }]

def arguedProvider : Provider := (argued.foldl Library.insert (Library.core {})).provider

/-- A session in which the last class has been found and all types are resolved. -/
def arguedFound : Env :=
  ((Operation.findType "x.C").perform.run { options := {}, provider := arguedProvider }).2.askTypes
    [⟨0⟩, ⟨1⟩, ⟨2⟩, ⟨3⟩]

theorem reachable_arguedFound : Reachable arguedProvider {} arguedFound :=
  .askTypes (.step (.findType "x.C") (.new rfl))

/-- The last class lies below the second one, which is not reached from it. -/
theorem exists_isSubtype_unreached :
    ∃ provider e root a b e', Reachable provider {} e ∧ e.Resolved root ∧
      (∀ c s, e.slot (.supertypes c) = .resolved s → ∀ t ∈ s.all, t.isFlat = true) ∧
      e.Plain (.declared a) ∧ e.Plain (.declared b) ∧
      (Operation.ask (.isSubtype (.declared a) (.declared b))).perform.run e = (.ok true, e') ∧ b ≠ root ∧
      ¬Relation.ReflTransGen e.Climbs (.declared a) (.declared b) ∧
      ¬Relation.ReflTransGen e'.Climbs (.declared a) (.declared b) := by
  have resolved : arguedFound.Resolved ⟨3⟩ ∧ _ :=
    resolved_of_isResolvedBy (fun b => [2, 1, 1, 0].getD b.index 0) (by decide +kernel)
  have answered : ((Operation.ask (.isSubtype (.declared ⟨0⟩) (.declared ⟨1⟩))).perform.run arguedFound).1 =
      .ok true := by
    decide +kernel
  let climbed : List Ty := [.declared ⟨0⟩, .parameterized ⟨1⟩ [.declared ⟨2⟩] none, .declared ⟨3⟩]
  have closed : ∀ t ∈ climbed, ∀ u ∈ arguedFound.answeredAbove t, u ∈ climbed := by decide +kernel
  have closed' : ∀ t ∈ climbed, ∀ u ∈ ((Operation.ask
      (.isSubtype (.declared ⟨0⟩) (.declared ⟨1⟩))).perform.run arguedFound).2.answeredAbove t, u ∈ climbed := by
    decide +kernel
  refine ⟨arguedProvider, arguedFound, ⟨3⟩, ⟨0⟩, ⟨1⟩, _, reachable_arguedFound, resolved.1, resolved.2,
    .declared (by decide +kernel) (by decide +kernel), .declared (by decide +kernel) (by decide +kernel),
    run_of_outcome answered, by decide, fun path => ?_, fun path => ?_⟩
  · exact absurd (mem_of_climbs closed List.mem_cons_self path) (by decide)
  · exact absurd (mem_of_climbs closed' List.mem_cons_self path) (by decide)

end Env

end TeamRoles
