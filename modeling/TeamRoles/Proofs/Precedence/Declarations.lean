import TeamRoles.Proofs.Hierarchy.Supertypes
import TeamRoles.Proofs.Precedence.Entries

/-!
The precedence declarations of a team are exactly those of the team and of all its super-teams.
-/

namespace TeamRoles

open Precedence Resolve

namespace Env

/-- The team itself and the superclasses above it, as far as they are teams. -/
inductive SuperTeam (e : Env) (team : BindingId) : BindingId → Prop
  | self : (e.binding team).isTeam = true → SuperTeam e team team
  | above {t c : BindingId} {s : Supertypes} : SuperTeam e team t →
    e.slot (.supertypes t) = .resolved s → s.superclass.bind bindingOf? = some c →
    (e.binding c).isTeam = true → SuperTeam e team c

def DeclaredIn (e : Env) (team : BindingId) (d : Declared) : Prop :=
  ∃ t, e.SuperTeam team t ∧ d ∈ declarationsIn (e.binding t) (t == team)

def Covers (e : Env) (team t : BindingId) (found : List Declared) : Prop :=
  ∀ d ∈ declarationsIn (e.binding t) (t == team), d ∈ found

structure Surveyed (e : Env) (team : BindingId) (seen todo : List BindingId)
    (found : List Declared) : Prop where
  ranged : e.Ranged
  inside : ∀ t, t ∈ seen ∨ t ∈ todo → t.index < e.bindings.size
  started : team ∈ seen ∨ team ∈ todo
  above : ∀ t, t ∈ seen ∨ t ∈ todo → (e.binding t).isTeam = true → e.SuperTeam team t
  sound : ∀ d ∈ found, e.DeclaredIn team d
  met : ∀ t ∈ seen, (e.binding t).isTeam = true → e.Covers team t found ∧
    ∃ s, e.Shows t s ∧ ∀ c ∈ s.superclass.bind bindingOf?, c ∈ seen ∨ c ∈ todo

theorem Covers.of_lasts {e e' : Env} {team t : BindingId} {found : List Declared}
    (h : e.Covers team t found) (lasts : e.Lasts e') (inside : t.index < e.bindings.size) :
    e'.Covers team t found := by
  rwa [Covers, declarationsIn, lasts.origin_eq inside]

theorem SuperTeam.isTeam {e : Env} {team t : BindingId} (h : e.SuperTeam team t) :
    (e.binding t).isTeam = true := by
  cases h with
  | self isTeam => exact isTeam
  | above _ _ _ isTeam => exact isTeam

/-- A team whose superclass is none has no super-teams but itself. -/
theorem SuperTeam.eq_of_top {e : Env} {team t : BindingId} (h : e.SuperTeam team t)
    (top : ∀ s ∈ (e.slot (.supertypes team)).get?, ∀ c ∈ s.superclass.bind bindingOf?,
      (e.binding c).isTeam = false) : t = team := by
  induction h with
  | self _ => rfl
  | above _ stored superclass isTeam ih =>
    subst ih
    have other := top _ (by rw [stored]; rfl) _ superclass
    cases other.symm.trans isTeam

theorem SuperTeam.of_lasts {e e' : Env} {team t : BindingId} (h : e.SuperTeam team t)
    (lasts : e.Lasts e') : e'.SuperTeam team t := by
  induction h with
  | self isTeam => exact .self (lasts.isTeam_eq isTeam)
  | above _ stored superclass isTeam ih =>
    refine .above ih ?_ superclass (lasts.isTeam_eq isTeam)
    rw [lasts.slots _ (by simp [stored]), stored]

theorem DeclaredIn.of_lasts {e e' : Env} {team : BindingId} {d : Declared} (h : e.DeclaredIn team d)
    (lasts : e.Lasts e') : e'.DeclaredIn team d := by
  obtain ⟨t, above, mem⟩ := h
  refine ⟨t, above.of_lasts lasts, ?_⟩
  rwa [declarationsIn, lasts.origin_eq (lt_size_of_isTeam above.isTeam)]

namespace Surveyed

variable {e e' : Env} {team a : BindingId} {seen todo : List BindingId} {found : List Declared}

theorem of_lasts (h : e.Surveyed team seen todo found) (lasts : e.Lasts e') (ranged' : e'.Ranged) :
    e'.Surveyed team seen todo found where
  ranged := ranged'
  inside t ht := Nat.lt_of_lt_of_le (h.inside t ht) lasts.size
  started := h.started
  above t ht isTeam := by
    rw [Binding.isTeam, lasts.modifiers_eq (h.inside t ht)] at isTeam
    exact (h.above t ht isTeam).of_lasts lasts
  sound d hd := (h.sound d hd).of_lasts lasts
  met t ht isTeam := by
    have inside := h.inside t (.inl ht)
    rw [Binding.isTeam, lasts.modifiers_eq inside] at isTeam
    obtain ⟨covered, s, shown, above⟩ := h.met t ht isTeam
    exact ⟨covered.of_lasts lasts inside, s, lasts.extends.shows shown, above⟩

theorem skip (h : e.Surveyed team seen (a :: todo) found) (known : a ∈ seen) :
    e.Surveyed team seen todo found := by
  have due (c : BindingId) (hc : c ∈ seen ∨ c ∈ a :: todo) : c ∈ seen ∨ c ∈ todo := by
    grind
  refine ⟨h.ranged, fun t ht => h.inside t (by grind), due team h.started,
    fun t ht => h.above t (by grind), h.sound, fun t ht isTeam => ?_⟩
  obtain ⟨covered, s, shown, above⟩ := h.met t ht isTeam
  exact ⟨covered, s, shown, fun c hc => due c (above c hc)⟩

theorem leaf (h : e.Surveyed team seen (a :: todo) found) (other : (e.binding a).isTeam = false) :
    e.Surveyed team (a :: seen) todo found := by
  have due (c : BindingId) (hc : c ∈ seen ∨ c ∈ a :: todo) : c ∈ a :: seen ∨ c ∈ todo := by
    grind
  refine ⟨h.ranged, fun t ht => h.inside t (by grind), due team h.started,
    fun t ht => h.above t (by grind), h.sound, fun t ht isTeam => ?_⟩
  rcases List.mem_cons.1 ht with rfl | ht
  · rw [other] at isTeam
    cases isTeam
  · obtain ⟨covered, s, shown, above⟩ := h.met t ht isTeam
    exact ⟨covered, s, shown, fun c hc => due c (above c hc)⟩

theorem add (h : e.Surveyed team seen (a :: todo) found) (isTeam : (e.binding a).isTeam = true) :
    e.Surveyed team seen (a :: todo) (found ++ declarationsIn (e.binding a) (a == team)) := by
  refine ⟨h.ranged, h.inside, h.started, h.above, fun d hd => ?_, fun t ht isTeam => ?_⟩
  · rcases List.mem_append.1 hd with old | new
    · exact h.sound d old
    · exact ⟨a, h.above a (.inr List.mem_cons_self) isTeam, new⟩
  · obtain ⟨covered, above⟩ := h.met t ht isTeam
    exact ⟨fun d hd => List.mem_append_left _ (covered d hd), above⟩

theorem visit {s : Supertypes} (h : e.Surveyed team seen (a :: todo) found)
    (isTeam : (e.binding a).isTeam = true) (covered : e.Covers team a found) (shown : e.Shows a s) :
    e.Surveyed team (a :: seen) ((s.superclass.bind bindingOf?).toList ++ todo) found := by
  have due (c : BindingId) (hc : c ∈ seen ∨ c ∈ a :: todo) :
      c ∈ a :: seen ∨ c ∈ (s.superclass.bind bindingOf?).toList ++ todo := by
    grind
  have known (t : BindingId)
      (ht : t ∈ a :: seen ∨ t ∈ (s.superclass.bind bindingOf?).toList ++ todo) :
      s.superclass.bind bindingOf? = some t ∨ t ∈ seen ∨ t ∈ a :: todo := by
    simp only [List.mem_append, Option.mem_toList] at ht
    grind
  refine ⟨h.ranged, fun t ht => ?_, due team h.started, fun t ht isTeam' => ?_, h.sound,
    fun t ht isTeam => ?_⟩
  · rcases known t ht with new | old
    · exact h.ranged.lt_of_shows shown new
    · exact h.inside t old
  · rcases known t ht with new | old
    · have self := h.above a (.inr List.mem_cons_self) isTeam
      cases shown with
      | resolved stored => exact .above self stored new isTeam'
      | inProgress => cases new
    · exact h.above t old isTeam'
  · rcases List.mem_cons.1 ht with rfl | ht
    · refine ⟨covered, s, shown, fun c hc => .inr (List.mem_append_left _ ?_)⟩
      exact Option.mem_toList.2 hc
    · obtain ⟨covered, s', shown', above⟩ := h.met t ht isTeam
      exact ⟨covered, s', shown', fun c hc => due c (above c hc)⟩

theorem complete {t : BindingId} (h : e.Surveyed team seen [] found) (above : e.SuperTeam team t) :
    e.Covers team t found := by
  have reached : t ∈ seen ∧ (e.binding t).isTeam = true := by
    induction above with
    | self isTeam => exact ⟨h.started.resolve_right List.not_mem_nil, isTeam⟩
    | @above t c s _ stored superclass isTeam ih =>
      obtain ⟨-, s', shown, above⟩ := h.met t ih.1 ih.2
      have same : s' = s := by
        cases shown with
        | resolved other => exact Slot.resolved.inj (other.symm.trans stored)
        | inProgress begun => cases begun.symm.trans stored
      subst same
      exact ⟨(above c superclass).resolve_right List.not_mem_nil, isTeam⟩
  exact (h.met t reached.1 reached.2).1

theorem mem_found_iff {d : Declared} (h : e.Surveyed team seen [] found) :
    d ∈ found ↔ e.DeclaredIn team d := by
  constructor
  · exact h.sound d
  · rintro ⟨t, above, mem⟩
    exact h.complete above d mem

end Surveyed

end Env

namespace Resolve

variable {ℓ : Nat} {team t : BindingId}

theorem stable_surveyed {seen todo : List BindingId} {found : List Declared} :
    Stable ℓ fun e => e.Surveyed team seen todo found :=
  fun _ _ _ runs h => h.of_lasts runs.lasts (runs.ranged h.ranged)

variable {seen todo : List BindingId} {found : List Declared}

theorem surveyAbove_triple :
    Triple (ℓ + 1) (fun e => e.Surveyed team seen (t :: todo) found ∧
        (e.binding t).isTeam = true ∧ e.Covers team t found)
      (do return (← superclassOf t).toList)
      fun next e => e.Surveyed team (t :: seen) (next ++ todo) found := by
  have stable : Stable (ℓ + 1) fun e => e.Surveyed team seen (t :: todo) found ∧
      (e.binding t).isTeam = true ∧ e.Covers team t found := by
    intro e r e' runs ⟨h, isTeam, covered⟩
    have inside := h.inside t (.inr List.mem_cons_self)
    exact ⟨stable_surveyed runs h, runs.lasts.isTeam_eq isTeam, covered.of_lasts runs.lasts inside⟩
  refine .framed_bind superclassOf_triple stable (fun _ _ => trivial) fun c => .pure ?_
  rintro e ⟨⟨s, shown, rfl⟩, h, isTeam, covered⟩
  exact h.visit isTeam covered shown

theorem survey_triple :
    Triple ℓ (fun e => e.Surveyed team seen (t :: todo) found) (do
        if ((← get).binding t).isTeam then
          let found ← (do return found ++ declarationsIn ((← get).binding t) (t == team))
          return Visit.inner found
        else return .leaf found)
      fun visit e => match visit with
        | .stop _ => False
        | .leaf found => e.Surveyed team (t :: seen) todo found
        | .inner found => e.Surveyed team seen (t :: todo) found ∧
          (e.binding t).isTeam = true ∧ e.Covers team t found := by
  refine .get_bind fun e => ?_
  by_cases isTeam : (e.binding t).isTeam = true
  · rw [if_pos isTeam]
    refine .bind (.get_bind fun e => .pure (Q := fun found e =>
      e.Surveyed team seen (t :: todo) found ∧ (e.binding t).isTeam = true ∧ e.Covers team t found)
      ?_) fun _ => .pure fun _ h => h
    rintro _ ⟨rfl, rfl, h⟩
    exact ⟨h.add isTeam, isTeam, fun d hd => List.mem_append_right _ hd⟩
  · rw [if_neg isTeam]
    refine .pure ?_
    rintro _ ⟨rfl, h⟩
    exact h.leaf (Bool.eq_false_iff.2 isTeam)

theorem surveyFrom_triple {fuel : Nat} :
    Triple (ℓ + 1) (fun e => e.Surveyed team seen todo found)
      (walkFrom .depthFirst (fun t => do return (← superclassOf t).toList) (fun found t => do
        if ((← get).binding t).isTeam then
          let found ← (do return found ++ declarationsIn ((← get).binding t) (t == team))
          return .inner found
        else return .leaf found) fuel seen todo found)
      fun found e => ∃ seen, e.Surveyed team seen [] found := by
  induction fuel generalizing seen todo found with
  | zero =>
    cases todo with
    | nil => exact .pure fun _ h => ⟨seen, h⟩
    | cons a todo => exact .throw rfl
  | succ fuel ih =>
    cases todo with
    | nil => exact .pure fun _ h => ⟨seen, h⟩
    | cons a todo =>
      rw [walkFrom]
      by_cases known : a ∈ seen
      · rw [if_pos (List.contains_iff_mem.2 known)]
        exact ih.pre fun _ h => h.skip known
      · rw [if_neg (fun h => known (List.contains_iff_mem.1 h))]
        refine .bind survey_triple fun visit => ?_
        cases visit with
        | stop found => exact .pure fun _ h => h.elim
        | leaf found => exact ih
        | inner found => exact .bind surveyAbove_triple fun _ => ih

theorem precedenceDeclarations_triple :
    Triple (ℓ + 1) (fun e => e.Ranged ∧ team.index < e.bindings.size) (precedenceDeclarations team)
      fun found e => ∃ seen, e.Surveyed team seen [] found := by
  have stable : Stable (ℓ + 1) fun e => e.Ranged ∧ team.index < e.bindings.size :=
    fun _ _ _ runs h => ⟨stable_ranged runs h.1, stable_lt_size runs h.2⟩
  refine Lawful.depth.keeping stable fun fuel => .pre surveyFrom_triple fun e h => ?_
  exact ⟨h.1, by simpa using h.2, .inr List.mem_cons_self, by simpa using .self, nofun, nofun⟩

end Resolve

end TeamRoles
