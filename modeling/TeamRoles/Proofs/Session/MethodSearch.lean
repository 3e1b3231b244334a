import TeamRoles.Proofs.Scoped.Advance
import TeamRoles.Proofs.Session.Pass

/-!
Searches for the methods of a name. Of methods with the same erased parameters only the one found first is
given, and since a search goes from a type to those above it, the methods of the type itself come first.
-/

namespace TeamRoles

open Relation (ReflTransGen)

namespace Env

variable {e d : Env} {b a t : BindingId} {name : String} {m n : MethodId} {old found list : List MethodId}
  {seen todo : List BindingId}

/-- The methods of the name that are not there yet are added one after the other. -/
def collect (e : Env) (name : String) (found list : List MethodId) : List MethodId :=
  list.foldl (fun found m =>
    if (e.method m).name != name || found.any (e.sameParameters · m) then found else found ++ [m]) found

def Unlike (e : Env) (list : List MethodId) (m : MethodId) : Prop :=
  ∀ n ∈ list, (e.method n).name = (e.method m).name → e.erasedParams n ≠ e.erasedParams m

structure Collects (e : Env) (name : String) (old list found : List MethodId) : Prop where
  kept : ∀ m ∈ old, m ∈ found
  source : ∀ m ∈ found, m ∈ old ∨ m ∈ list ∧ (e.method m).name = name
  distinct : found.Pairwise fun m n => e.erasedParams m ≠ e.erasedParams n
  covers : ∀ m ∈ list, (e.method m).name = name → ∃ n ∈ found, e.erasedParams n = e.erasedParams m

theorem collects (e : Env) (name : String) (list : List MethodId)
    (distinct : old.Pairwise fun m n => e.erasedParams m ≠ e.erasedParams n) :
    e.Collects name old list (e.collect name old list) := by
  induction list generalizing old with
  | nil => exact ⟨fun _ => id, fun _ => .inl, distinct, nofun⟩
  | cons m list ih =>
    rw [collect, List.foldl_cons]
    -- Either the method is passed over, and there is a reason for that, or it is added.
    split
    next known =>
      obtain ⟨kept, source, distinct, covers⟩ := ih distinct
      refine ⟨kept, fun n hn => (source n hn).imp_right fun h => ⟨List.mem_cons_of_mem m h.1, h.2⟩, distinct, ?_⟩
      refine List.forall_mem_cons.2 ⟨fun named => ?_, covers⟩
      obtain ⟨n, hn, same⟩ : ∃ n ∈ old, e.sameParameters n m = true := by simpa [named] using known
      exact ⟨n, kept n hn, sameParameters_eq_true_iff.1 same⟩
    next new =>
      obtain ⟨named, differ⟩ : (e.method m).name = name ∧ ∀ n ∈ old, e.erasedParams n ≠ e.erasedParams m := by
        simpa [← sameParameters_eq_true_iff] using new
      have distinct : (old ++ [m]).Pairwise fun m n => e.erasedParams m ≠ e.erasedParams n :=
        List.pairwise_append.2 ⟨distinct, List.pairwise_singleton _ _, by simpa using differ⟩
      obtain ⟨kept, source, distinct, covers⟩ := ih distinct
      have added := kept m (List.mem_append_right old (List.mem_singleton_self m))
      refine ⟨fun n hn => kept n (List.mem_append_left [m] hn), fun n hn => ?_, distinct,
        List.forall_mem_cons.2 ⟨fun _ => ⟨m, added, rfl⟩, covers⟩⟩
      rcases source n hn with before | ⟨mem, named⟩
      · rcases List.mem_append.1 before with old | same
        · exact .inl old
        · rw [List.mem_singleton.1 same]
          exact .inr ⟨List.mem_cons_self, named⟩
      · exact .inr ⟨List.mem_cons_of_mem m mem, named⟩

theorem mem_collect {pre post : List MethodId} (named : (e.method m).name = name) (new : e.Unlike pre m) :
    m ∈ e.collect name [] (pre ++ m :: post) := by
  obtain ⟨-, source, distinct, -⟩ := collects e name pre .nil
  have differ : ∀ n ∈ e.collect name [] pre, e.erasedParams n ≠ e.erasedParams m := by
    intro n hn
    obtain ⟨mem, same⟩ := (source n hn).resolve_left List.not_mem_nil
    exact new n mem (same.trans named.symm)
  have taken : ¬ ((e.method m).name != name || (e.collect name [] pre).any (e.sameParameters · m)) = true := by
    simpa [named, sameParameters_eq_true_iff] using differ
  have added : e.collect name [] (pre ++ m :: post) = e.collect name (e.collect name [] pre ++ [m]) post := by
    rw [collect, List.foldl_append, List.foldl_cons]
    exact congrArg (e.collect name · post) (if_neg taken)
  rw [added]
  refine (collects e name post ?_).kept m (List.mem_append_right _ (List.mem_singleton_self m))
  exact List.pairwise_append.2 ⟨distinct, List.pairwise_singleton _ _, by simpa using differ⟩

theorem Advances.sameParameters_eq (h : e.Advances d) (hm : e.HasMethod m) (hn : e.HasMethod n) :
    d.sameParameters m n = e.sameParameters m n := by
  rw [Bool.eq_iff_iff, sameParameters_eq_true_iff, sameParameters_eq_true_iff, h.erasedParams_eq hm,
    h.erasedParams_eq hn]

theorem Advances.collect_eq (h : e.Advances d) (known : ∀ m ∈ found, e.HasMethod m)
    (listed : ∀ m ∈ list, e.HasMethod m) : d.collect name found list = e.collect name found list := by
  induction list generalizing found with
  | nil => rfl
  | cons m list ih =>
    obtain ⟨here, later⟩ := List.forall_mem_cons.1 listed
    have same : found.any (d.sameParameters · m) = found.any (e.sameParameters · m) := by
      rw [Bool.eq_iff_iff, List.any_eq_true, List.any_eq_true]
      exact exists_congr fun n => and_congr_right fun hn => by rw [h.sameParameters_eq (known n hn) here]
    simp only [collect, List.foldl_cons, h.name_eq here, same]
    refine ih ?_ later
    split
    · exact known
    · exact List.forall_mem_append.2 ⟨known, List.forall_mem_singleton.2 here⟩

theorem exists_first {α : Type} {p : α → Prop} {l : List α} (h : ∃ x ∈ l, p x) :
    ∃ pre x post, l = pre ++ x :: post ∧ p x ∧ ∀ y ∈ pre, ¬p y := by
  induction l with
  | nil =>
    obtain ⟨x, hx, -⟩ := h
    cases hx
  | cons a l ih =>
    by_cases here : p a
    · exact ⟨[], a, l, rfl, here, nofun⟩
    · obtain ⟨x, hx, holds⟩ := h
      have later : x ∈ l := (List.mem_cons.1 hx).resolve_left fun same => here (same ▸ holds)
      obtain ⟨pre, y, post, rfl, holds, before⟩ := ih ⟨x, later, holds⟩
      exact ⟨a :: pre, y, post, rfl, holds, List.forall_mem_cons.2 ⟨here, before⟩⟩

/-- How far a search for the methods of the name has come that starts from `b`. -/
structure Sought (e : Env) (b : BindingId) (name : String) (seen todo : List BindingId) (found : List MethodId) :
    Prop where
  reached : ∀ t, t ∈ seen ∨ t ∈ todo → ReflTransGen e.Above b t
  met : ∀ t ∈ seen, (∃ s, e.Shows t s ∧ ∀ c ∈ s.bindings, c ∈ seen ∨ c ∈ todo) ∧
    ∃ list, (e.binding t).methods = .resolved list
  sound : ∀ m ∈ found, (e.method m).name = name ∧ ∃ t ∈ seen, e.Carries t m
  distinct : found.Pairwise fun m n => e.erasedParams m ≠ e.erasedParams n
  covers : ∀ t ∈ seen, ∀ m, e.Carries t m → (e.method m).name = name →
    ∃ n ∈ found, e.erasedParams n = e.erasedParams m
  start : seen = [] ∧ todo = [b] ∧ found = [] ∨ b ∈ seen ∧ ∀ pre m post,
    (e.binding b).methods = .resolved (pre ++ m :: post) → (e.method m).name = name → e.Unlike pre m → m ∈ found

structure Finds (e : Env) (b : BindingId) (name : String) (found : List MethodId) : Prop where
  /-- Every method that is found has the name and is one of a type that is reached. -/
  sound : ∀ m ∈ found, (e.method m).name = name ∧ ∃ t, ReflTransGen e.Above b t ∧ e.Carries t m
  distinct : found.Pairwise fun m n => e.erasedParams m ≠ e.erasedParams n
  /-- The methods of all types that are reached have been resolved. -/
  resolved : ∀ t, ReflTransGen e.Above b t → ∃ list, (e.binding t).methods = .resolved list
  /-- Those of the name are found, or one with the same erased parameters is. -/
  complete : ∀ t m, ReflTransGen e.Above b t → e.Carries t m → (e.method m).name = name →
    ∃ n ∈ found, e.erasedParams n = e.erasedParams m ∧
      ((∃ o, e.Carries b o ∧ (e.method o).name = name ∧ e.erasedParams o = e.erasedParams m) → e.Carries b n)

namespace Sought

theorem begin : e.Sought b name [] [b] [] where
  reached t ht := by
    rw [List.mem_singleton.1 (ht.resolve_left List.not_mem_nil)]
  met := nofun
  sound := nofun
  distinct := .nil
  covers := nofun
  start := .inl ⟨rfl, rfl, rfl⟩

theorem mono (h : e.Sought b name seen todo found) (le : e.Advances d) : d.Sought b name seen todo found := by
  have kept (t : BindingId) (m : MethodId) (ht : t ∈ seen) (listed : d.Carries t m) : e.Carries t m := by
    obtain ⟨-, list, resolved⟩ := h.met t ht
    rw [Carries.iff_of_resolved (le.resolved resolved)] at listed
    exact ⟨list, resolved, listed⟩
  have known (m : MethodId) (hm : m ∈ found) : e.HasMethod m := by
    obtain ⟨-, t, -, listed⟩ := h.sound m hm
    exact le.closed.hasMethod listed
  refine ⟨fun t ht => le.reaches (h.reached t ht), fun t ht => ?_, fun m hm => ?_, ?_, ?_, ?_⟩
  · obtain ⟨⟨s, shown, above⟩, list, resolved⟩ := h.met t ht
    exact ⟨⟨s, le.lasts.extends.shows shown, above⟩, list, le.resolved resolved⟩
  · obtain ⟨named, t, ht, listed⟩ := h.sound m hm
    exact ⟨(le.name_eq (known m hm)).trans named, t, ht, le.carries listed⟩
  · refine h.distinct.imp_of_mem fun {m n} hm hn differ => ?_
    rwa [le.erasedParams_eq (known m hm), le.erasedParams_eq (known n hn)]
  · intro t ht m listed named
    have listed := kept t m ht listed
    have there := le.closed.hasMethod listed
    obtain ⟨n, hn, same⟩ := h.covers t ht m listed ((le.name_eq there).symm.trans named)
    exact ⟨n, hn, by rw [le.erasedParams_eq (known n hn), same, le.erasedParams_eq there]⟩
  · refine h.start.imp_right fun ⟨hb, own⟩ => ⟨hb, fun pre m post resolved named new => ?_⟩
    obtain ⟨-, list, was⟩ := h.met b hb
    obtain rfl : list = pre ++ m :: post := by simpa [resolved] using (le.resolved was).symm
    have there (n : MethodId) (hn : n ∈ pre ++ m :: post) : e.HasMethod n :=
      le.closed.hasMethod ⟨_, was, hn⟩
    have here := there m (by simp)
    refine own pre m post was ((le.name_eq here).symm.trans named) fun n hn same => ?_
    have there := there n (List.mem_append_left _ hn)
    have differ := new n hn (by rw [le.name_eq there, le.name_eq here, same])
    rwa [le.erasedParams_eq there, le.erasedParams_eq here] at differ

theorem skip (h : e.Sought b name seen (a :: todo) found) (known : a ∈ seen) : e.Sought b name seen todo found where
  reached t ht := h.reached t (ht.imp_right (List.mem_cons_of_mem a))
  met t ht := by
    obtain ⟨⟨s, shown, above⟩, resolved⟩ := h.met t ht
    exact ⟨⟨s, shown, fun c hc => by grind⟩, resolved⟩
  sound := h.sound
  distinct := h.distinct
  covers := h.covers
  start := by
    refine .inr (h.start.resolve_left ?_)
    rintro ⟨rfl, -⟩
    exact List.not_mem_nil known

theorem visit (h : e.Sought b name seen (a :: todo) found) {s : Supertypes}
    (shown : e.Shows a s) (resolved : (e.binding a).methods = .resolved list) :
    e.Sought b name (a :: seen) (todo ++ s.bindings) (e.collect name found list) := by
  obtain ⟨kept, source, distinct, covers⟩ := collects e name list h.distinct
  have here : ReflTransGen e.Above b a := h.reached a (.inr List.mem_cons_self)
  have due (c : BindingId) (hc : c ∈ seen ∨ c ∈ a :: todo) : c ∈ a :: seen ∨ c ∈ todo ++ s.bindings := by
    grind
  -- The type that was visited is met, the types above it are due, and all others stay what they were.
  refine ⟨?_, List.forall_mem_cons.2 ⟨?_, fun t ht => ?_⟩, fun m hm => ?_, distinct, ?_, .inr ?_⟩
  · rintro t (ht | ht)
    · rcases List.mem_cons.1 ht with rfl | ht
      · exact here
      · exact h.reached t (.inl ht)
    · rcases List.mem_append.1 ht with ht | ht
      · exact h.reached t (.inr (List.mem_cons_of_mem a ht))
      · exact here.tail (shown.above_iff.2 ht)
  · exact ⟨⟨s, shown, fun c hc => .inr (List.mem_append_right todo hc)⟩, list, resolved⟩
  · obtain ⟨⟨s', shown', above⟩, resolved'⟩ := h.met t ht
    exact ⟨⟨s', shown', fun c hc => due c (above c hc)⟩, resolved'⟩
  · rcases source m hm with old | ⟨mem, named⟩
    · obtain ⟨named, t, ht, listed⟩ := h.sound m old
      exact ⟨named, t, List.mem_cons_of_mem a ht, listed⟩
    · exact ⟨named, a, List.mem_cons_self, list, resolved, mem⟩
  · refine List.forall_mem_cons.2 ⟨fun m listed => covers m ((Carries.iff_of_resolved resolved).1 listed),
      fun t ht m listed named => ?_⟩
    obtain ⟨n, hn, same⟩ := h.covers t ht m listed named
    exact ⟨n, kept n hn, same⟩
  · rcases h.start with ⟨rfl, one, rfl⟩ | ⟨hb, own⟩
    · obtain ⟨rfl, -⟩ := List.cons_eq_cons.1 one
      refine ⟨List.mem_cons_self, fun pre m post own named new => ?_⟩
      obtain rfl : list = pre ++ m :: post := by simpa [own] using resolved.symm
      exact mem_collect named new
    · exact ⟨List.mem_cons_of_mem a hb, fun pre m post resolved named new => kept m (own pre m post resolved named new)⟩

theorem finds (h : e.Sought b name seen [] found) : e.Finds b name found := by
  obtain ⟨hb, own⟩ := h.start.resolve_left (by simp)
  have everywhere {t : BindingId} (path : ReflTransGen e.Above b t) : t ∈ seen := by
    induction path with
    | refl => exact hb
    | tail _ edge ih =>
      obtain ⟨⟨s, shown, above⟩, -⟩ := h.met _ ih
      exact (above _ (shown.above_iff.1 edge)).resolve_right List.not_mem_nil
  refine ⟨fun m hm => ?_, h.distinct, fun t path => (h.met t (everywhere path)).2, fun t m path listed named => ?_⟩
  · obtain ⟨named, t, ht, listed⟩ := h.sound m hm
    exact ⟨named, t, h.reached t (.inl ht), listed⟩
  · by_cases has : ∃ o, e.Carries b o ∧ (e.method o).name = name ∧ e.erasedParams o = e.erasedParams m
    · -- The first such method of the type itself is there.
      obtain ⟨o, ⟨list, resolved, mem⟩, alike⟩ := has
      obtain ⟨pre, n, post, rfl, same, before⟩ := exists_first
        (p := fun n => (e.method n).name = name ∧ e.erasedParams n = e.erasedParams m) ⟨o, mem, alike⟩
      refine ⟨n, own pre n post resolved same.1 fun p hp like equal => ?_, same.2, fun _ => ⟨_, resolved, by simp⟩⟩
      exact before p hp ⟨like.trans same.1, equal.trans same.2⟩
    · obtain ⟨n, hn, same⟩ := h.covers t (everywhere path) m listed named
      exact ⟨n, hn, same, fun own => absurd own has⟩

end Sought

end Env

namespace Resolve

variable {a b : BindingId} {name : String} {seen todo : List BindingId} {found : List MethodId}

def seek (name : String) (found : List MethodId) (current : BindingId) : Resolve (Visit (List MethodId)) := do
  let methods ← ask (.methods current)
  return .inner ((← get).collect name found methods)

theorem seek_secures : Secures (fun e => e.Sought b name seen (a :: todo) found) (seek name found a)
    fun next e => e.Sought b name seen (a :: todo) found ∧ ∃ list, next = .inner (e.collect name found list) ∧
      (e.binding a).methods = .resolved list := by
  have asked : Secures (fun _ => True) (ask (.methods a)) fun list e => (e.binding a).methods = .resolved list :=
    .of_triple (.ask (ℓ := 5) (.methods a) (by simp)) (.ask _)
  refine .bind ((asked.pre fun _ _ => trivial).keeping fun _ _ le h => h.mono le) fun list => .get_bind fun e => .pure ?_
  rintro _ - ⟨rfl, resolved, sought⟩
  exact ⟨sought, list, rfl, resolved⟩

theorem above_secures : Secures (fun _ => True) (above a) fun next e => ∃ s, e.Shows a s ∧ next = s.bindings :=
  .of_triple (above_triple (ℓ := 0)) calm_above

theorem walkFrom_sought {fuel : Nat} :
    Secures (fun e => e.Sought b name seen todo found)
      (walkFrom .breadthFirst above (seek name) fuel seen todo found)
      fun found e => ∃ seen, e.Sought b name seen [] found := by
  induction fuel generalizing seen todo found with
  | zero =>
    cases todo with
    | nil => exact .pure fun _ _ h => ⟨seen, h⟩
    | cons a todo => exact .throw
  | succ fuel ih =>
    cases todo with
    | nil => exact .pure fun _ _ h => ⟨seen, h⟩
    | cons a todo =>
      rw [walkFrom]
      by_cases known : a ∈ seen
      · rw [if_pos (List.contains_iff_mem.2 known)]
        exact ih.pre fun _ h => h.skip known
      · rw [if_neg (fun h => known (List.contains_iff_mem.1 h))]
        refine .bind seek_secures fun next => ?_
        cases next with
        | stop found =>
          refine .pure ?_
          rintro _ - ⟨-, -, ⟨⟩, -⟩
        | leaf found =>
          refine ih.pre ?_
          rintro _ ⟨-, -, ⟨⟩, -⟩
        | inner collected =>
          refine .bind ((above_secures.pre fun _ _ => trivial).keeping ?_) fun next => ih.pre ?_
          · rintro e d le ⟨sought, list, collected, resolved⟩
            refine ⟨sought.mono le, list, ?_, le.resolved resolved⟩
            rw [collected, le.collect_eq (fun m hm => ?_) fun m hm => le.closed.hasMethod ⟨list, resolved, hm⟩]
            obtain ⟨-, t, -, listed⟩ := sought.sound m hm
            exact le.closed.hasMethod listed
          · rintro e ⟨⟨s, shown, rfl⟩, sought, list, collected, resolved⟩
            cases collected
            exact sought.visit shown resolved

theorem findMethods_secures : Secures (fun _ => True) (findMethods b name)
    fun found e => ∃ seen, e.Sought b name seen [] found := by
  have lawful : Secures (fun _ => True) depth fun _ _ => True := .of_triple (Lawful.depth (ℓ := 0)).triple .depth
  exact .bind lawful fun fuel => walkFrom_sought.pre fun _ _ => .begin

end Resolve

namespace Env

/-- A search for methods hides exactly those that others with the same erased parameters stand before. -/
theorem findMethods_finds {provider : Provider} {options : Options} {e e' : Env} {b : BindingId} {name : String}
    {found : List MethodId} (reachable : Reachable provider options e)
    (answered : (Operation.findMethods b name).perform.run e = (.ok found, e')) : e'.Finds b name found := by
  obtain ⟨-, seen, sought⟩ := Resolve.findMethods_secures.at_depth reachable.scoped.1 trivial answered
  exact sought.finds

/-- A class that overrides one of two methods of a name. -/
def shapes : UnitDecl where
  fileName := "U"
  package := "p"
  types := [
    { name := "Shape"
      methods := [
        { name := "scale", params := [{ name := "by", type := .primitive "int" }] },
        { name := "scale", params := [{ name := "by", type := .primitive "double" }] }] },
    { name := "Circle", superclass := some (.ofName "Shape")
      methods := [{ name := "scale", params := [{ name := "by", type := .primitive "int" }] }] }]

theorem findMethods_finds_shapes :
    ∃ found e', Reachable (Library.core {}).provider {} (ofUnit shapes) ∧
      (Operation.findMethods ⟨1⟩ "scale").perform.run (ofUnit shapes) = (.ok found, e') ∧
      found.map e'.methodName = ["p.Circle.scale", "p.Shape.scale"] ∧ e'.Finds ⟨1⟩ "scale" found := by
  have reachable : Reachable (Library.core {}).provider {} (ofUnit shapes) := .step (.addUnits [shapes]) (.new rfl)
  have answered : ((Operation.findMethods ⟨1⟩ "scale").perform.run (ofUnit shapes)).1 = .ok [⟨0⟩, ⟨2⟩] := by
    decide +kernel
  have names : [⟨0⟩, ⟨2⟩].map ((Operation.findMethods ⟨1⟩ "scale").perform.run (ofUnit shapes)).2.methodName =
      ["p.Circle.scale", "p.Shape.scale"] := by decide +kernel
  have answered := Resolve.run_of_outcome answered
  exact ⟨_, _, reachable, answered, names, findMethods_finds reachable answered⟩

end Env

end TeamRoles
