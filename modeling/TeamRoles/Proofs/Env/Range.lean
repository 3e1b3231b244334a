import TeamRoles.Proofs.Env.Lasts

/-!
The numbers in an environment are numbers of types and mappings that it has.
-/

namespace TeamRoles

open Env

variable {ℓ : Nat} {e e' : Env} {r : Option Abort} {x : Binding} {b : BindingId}

theorem Part.InRange.imp {p : Part} {v : p.Value} (h : p.InRange e v)
    (size : e.bindings.size ≤ e'.bindings.size)
    (names : ∀ b c, e.Namesakes b c → e'.Namesakes b c)
    (mappings : ∀ role m, e.OwnsMapping role m → e'.OwnsMapping role m) : p.InRange e' v := by
  cases p with
  | supertypes b | memberTypes b => exact fun b hb => Nat.lt_of_lt_of_le (h b hb) size
  | tsuperRoles role => exact fun b hb => names role b (h b hb)
  | mappings role => exact fun m hm => mappings role m (h m hm)
  | _ => trivial

theorem Part.InRange.of_lasts {p : Part} {v : p.Value} (h : p.InRange e v) (lasts : e.Lasts e') :
    p.InRange e' v :=
  h.imp lasts.size (fun _ _ same => same.of_lasts lasts) fun _ _ owns => owns.of_lasts lasts

theorem Part.InRange.of_sameFrame {p : Part} {v : p.Value} (h : p.InRange e v)
    (same : e.SameFrame e') : p.InRange e' v := by
  refine h.imp (Nat.le_of_eq same.size.symm) (fun b c names => ?_) fun role m owns => ?_
  · rwa [Namesakes, same.size, same.proj_eq (g := Binding.simpleName) fun _ => rfl,
      same.proj_eq (g := Binding.simpleName) fun _ => rfl]
  · rwa [OwnsMapping, Env.mapping, same.mappings]

theorem Env.Shows.lt_size {s : Supertypes} (h : e.Shows b s) : b.index < e.bindings.size := by
  refine lt_size_of_ne_default fun default => ?_
  cases h with
  | resolved stored | inProgress stored =>
    rw [default] at stored
    cases stored

theorem Env.Ranged.lt_size_of_admits {c : BindingId} (h : e.Ranged) (admits : e.Admits b c) :
    c.index < e.bindings.size := by
  cases admits with
  | problem isProblem => exact lt_size_of_isProblem isProblem
  | root denotes =>
    rcases denotes with bound | ⟨d, -, bound⟩
    · exact h.byName _ bound
    · exact h.byName _ bound
  | rootProblem stands =>
    obtain ⟨reason, entry⟩ := stands
    exact h.problems _ entry
  | clear clear =>
    obtain ⟨-, s, shown⟩ := clear c .refl
    exact shown.lt_size

theorem Env.Ranged.lt_of_shows {a c : BindingId} {s : Supertypes} (h : e.Ranged)
    (shown : e.Shows a s) (superclass : s.superclass.bind bindingOf? = some c) :
    c.index < e.bindings.size := by
  cases shown with
  | resolved stored =>
    refine h.slots (.supertypes a) s stored c ?_
    obtain ⟨t, written, named⟩ := Option.bind_eq_some_iff.1 superclass
    exact List.mem_filterMap.2 ⟨t, by simp [Supertypes.all, written], named⟩
  | inProgress => cases superclass

theorem Env.lt_size_of_teamOf? {role team : BindingId} (h : e.teamOf? role = some team) :
    role.index < e.bindings.size := by
  obtain ⟨model, isRole, -⟩ := Option.map_eq_some_iff.1 h
  exact lt_size_of_role_isSome (by rw [isRole]; rfl)

theorem Env.Ranged.namesakes_of_refinesAll {role : BindingId} {found : List BindingId} (h : e.Ranged)
    (refines : e.RefinesAll role found) : ∀ r ∈ found, e.Namesakes role r := by
  obtain ⟨team, teams, next, refines, -⟩ := refines
  rw [refines.found]
  intro r hr
  obtain ⟨u, hu, isFound⟩ := List.mem_filterMap.1 hr
  obtain ⟨members, known⟩ := refines.members u hu
  rw [refined?, known] at isFound
  have accepted := List.find?_some isFound
  have named : (e.binding r).simpleName = (e.binding role).simpleName := by
    simpa using (Bool.and_eq_true_iff.1 accepted).1
  exact ⟨⟨lt_size_of_teamOf? refines.teamOf, h.slots (.memberTypes u) members known r (List.mem_of_find?_eq_some isFound)⟩, named.symm⟩

theorem Env.Ranged.inRange {begun : Env} {p : Part} {v : p.Value} (h : e.Ranged)
    (start : begun.Ranged) (allows : p.Allows begun v e) : p.InRange e v := by
  cases p with
  | supertypes b => exact fun c hc => h.lt_size_of_admits (admits_of_keeps allows c hc)
  | memberTypes b =>
    intro m hm
    rcases allows m hm with ⟨name, bound⟩ | ⟨model, given, fromFile⟩
    · exact h.byName _ bound
    · exact h.roleFiles b model given m fromFile
  | tsuperRoles role => exact h.namesakes_of_refinesAll (allows start)
  | mappings role => exact allows
  | _ => trivial

namespace Env.Ranged

theorem of_sameFrame (h : e.Ranged) (same : e.SameFrame e')
    (slots : ∀ p v, e'.slot p = .resolved v → e.slot p = .resolved v ∨ p.InRange e v)
    (isRole : ∀ role, e'.slot (.mappings role) ≠ .unresolved → (e.binding role).isRole = true) :
    e'.Ranged where
  byName := by
    rw [same.byName, same.size]
    exact h.byName
  problems := by
    rw [same.problems, same.size]
    exact h.problems
  roleFiles b model given := by
    rw [same.proj_eq (g := Binding.team) (fun _ => rfl)] at given
    rw [same.size]
    exact h.roleFiles b model given
  slots p v resolved := by
    have inRange : p.InRange e v := (slots p v resolved).elim (h.slots p v) id
    exact inRange.of_sameFrame same
  isRole role begun := by
    rw [same.proj_eq (g := Binding.isRole) (fun _ => rfl)]
    exact isRole role begun

theorem addBinding (h : e.Ranged) (roles : ∀ model ∈ x.team, model.roleFileRoles = [])
    (slots : ∀ p v, (e.addBinding x).slot p = .resolved v → e.slot p = .resolved v ∨ p.InRange e v) :
    (e.addBinding x).Ranged where
  byName entry he := Nat.lt_of_lt_of_le (h.byName entry he) lasts_addBinding.size
  problems entry he := Nat.lt_of_lt_of_le (h.problems entry he) lasts_addBinding.size
  roleFiles b model given r hr := by
    by_cases new : b = e.nextBinding
    · subst new
      rw [binding_addBinding_self] at given
      rw [roles model given] at hr
      cases hr
    · rw [binding_addBinding_of_ne new] at given
      exact Nat.lt_of_lt_of_le (h.roleFiles b model given r hr) lasts_addBinding.size
  slots p v resolved := by
    have inRange : p.InRange e v := (slots p v resolved).elim (h.slots p v) id
    exact inRange.of_lasts lasts_addBinding
  isRole role begun := lasts_addBinding.has (p := .mappings role) (h.isRole role begun)

theorem bindName {name : String} (h : e.Ranged) (inside : b.index < e.bindings.size) :
    (e.bindName name b).Ranged :=
  { h with byName := List.forall_mem_cons.2 ⟨inside, h.byName⟩ }

theorem introduce (h : e.Ranged) (bare : x.IsBare) : (e.introduce x).Ranged := by
  refine (h.addBinding bare.roleFileRoles fun p v resolved => .inl ?_).bindName ?_
  · rwa [slot_addBinding_of_bare bare.eq] at resolved
  · simp [Env.addBinding, nextBinding]

theorem addProblem {name : String} {reason : ProblemReason} (h : e.Ranged) :
    (e.addProblem (.standIn name reason) name reason).Ranged := by
  have added : (e.addBinding (.standIn name reason)).Ranged := by
    refine h.addBinding (by simp [Binding.standIn]) fun p v resolved => ?_
    cases p with
    | supertypes b | memberTypes b | tsuperRoles b =>
      by_cases new : b = e.nextBinding
      · subst new
        simp only [slot, binding_addBinding_self] at resolved
        cases resolved <;> exact .inr fun _ none => by cases none
      · simp only [slot, binding_addBinding_of_ne new] at resolved
        exact .inl resolved
    | mappings role => exact .inl resolved
    | _ => exact .inr trivial
  have inside : e.nextBinding.index < (e.addBinding (.standIn name reason)).bindings.size := by
    simp [Env.addBinding, nextBinding]
  exact { added with problems := List.forall_mem_cons.2 ⟨inside, added.problems⟩ }

theorem addRoleFile {unit : UnitId} {roles : List BindingId} (h : e.Ranged)
    (inside : ∀ r ∈ roles, r.index < e.bindings.size) : (e.addRoleFile b unit roles).Ranged where
  byName entry he := Nat.lt_of_lt_of_eq (h.byName entry he) size_update.symm
  problems entry he := Nat.lt_of_lt_of_eq (h.problems entry he) size_update.symm
  roleFiles c model given r hr := by
    rw [Env.addRoleFile, size_update]
    rw [Env.addRoleFile, binding_update] at given
    split at given
    · obtain ⟨old, had, rfl⟩ := Option.map_eq_some_iff.1 given
      exact (List.mem_append.1 hr).elim (h.roleFiles c old had r) (inside r)
    · exact h.roleFiles c model given r hr
  slots p v resolved := by
    rw [slot_addRoleFile] at resolved
    exact (h.slots p v resolved).of_lasts lasts_addRoleFile
  isRole role begun := lasts_addRoleFile.has (p := .mappings role) (h.isRole role begun)

theorem isRole_of_setSlot {p : Part} {s : Slot p.Value} {role : BindingId} (h : e.Ranged)
    (has : e.Has p) (begun : (e.setSlot p s).slot (.mappings role) ≠ .unresolved) :
    (e.binding role).isRole = true := by
  by_cases same : Part.mappings role = p
  · subst same
    exact has
  · exact h.isRole role (by rwa [slot_setSlot_of_ne same] at begun)

theorem begin {p : Part} (h : e.Ranged) (has : e.Has p) : (e.setSlot p .inProgress).Ranged := by
  refine h.of_sameFrame sameFrame_setSlot (fun q v resolved => .inl ?_)
    fun role begun => h.isRole_of_setSlot has begun
  rwa [slot_setSlot_of_ne] at resolved
  rintro rfl
  cases (slot_setSlot_self has).symm.trans resolved

end Env.Ranged

theorem Step.ranged (h : Step ℓ e e') (ranged : e.Ranged) : e'.Ranged := by
  cases h with
  | quiet same =>
    refine ranged.of_sameFrame same.toSameFrame (fun p v resolved => .inl ?_) fun role begun => ?_
    · rwa [← same.slots]
    · exact ranged.isRole role (by rwa [← same.slots])
  | declare _ _ bare => exact { ranged.introduce bare with }
  | load _ _ _ bare => exact ranged.introduce bare
  | otherName _ _ bound => exact ranged.bindName (ranged.byName _ (mem_of_lookup bound))
  | standIn => exact ranged.addProblem
  | corrupt _ _ stands =>
    obtain ⟨reason, entry⟩ := stands
    exact ranged.bindName (ranged.problems _ entry)
  | missing | methods => exact { ranged with }
  | roleFile _ inside => exact ranged.addRoleFile inside
  | mapping =>
    refine { ranged with slots := fun p v resolved => ?_ }
    exact (ranged.slots p v resolved).of_lasts lasts_addMapping
  | @store c v => cases c <;> exact { ranged with }

theorem Runs.ranged (h : Runs ℓ e r e') (ranged : e.Ranged) : e'.Ranged := by
  refine h.keeps (I := Ranged) Step.ranged (fun p has _ ranged => ranged.begin has) ?_ ranged
  rintro e p v has - ⟨begun, start, allows⟩ ranged
  refine ranged.of_sameFrame sameFrame_setSlot (fun q w resolved => ?_)
    fun role begun => ranged.isRole_of_setSlot has begun
  by_cases same : q = p
  · subst same
    cases (slot_setSlot_self has).symm.trans resolved
    exact .inr (ranged.inRange start allows)
  · exact .inl (by rwa [slot_setSlot_of_ne same] at resolved)

end TeamRoles
