import Mathlib.Data.List.Chain
import Mathlib.Data.List.Find
import Mathlib.Data.List.Nodup
import TeamRoles.Proofs.Env.Range

/-!
The roles that a role refines: those that are called as it is among the members of the super-teams of its
team. What has been found of them stays as it is.
-/

namespace TeamRoles.Env

variable {e e' : Env} {role team a : BindingId} {teams found members : List BindingId}

structure Resembles (e e' : Env) : Prop where
  head : ∀ b, b.index < e.bindings.size → (e'.binding b).head = (e.binding b).head
  shows : ∀ b s, e.Shows b s → e'.Shows b s
  members : ∀ u list, e.slot (.memberTypes u) = .resolved list → e'.slot (.memberTypes u) = .resolved list

theorem Lasts.resembles (h : e.Lasts e') : e.Resembles e' where
  head := h.head
  shows _ _ := h.extends.shows
  members _ _ := h.resolved (p := .memberTypes _)

theorem resembles_setSlot {p : Part} {s : Slot p.Value} (pending : e.slot p = .inProgress)
    (other : ∀ b, p ≠ .supertypes b) : e.Resembles (e.setSlot p s) where
  head b _ := (sameFrame_setSlot (p := p)).head b
  shows b supertypes shown := by
    have same : (e.setSlot p s).slot (.supertypes b) = e.slot (.supertypes b) :=
      slot_setSlot_of_ne (Ne.symm (other b))
    cases shown with
    | resolved known => exact .resolved (same.trans known)
    | inProgress known => exact .inProgress (same.trans known)
  members u list known := by
    rw [slot_setSlot_of_ne, known]
    rintro rfl
    cases pending.symm.trans known

theorem Resembles.proj_eq {α : Type} {g : Binding → α} {b : BindingId} (h : e.Resembles e')
    (fixed : ∀ x, g (Binding.head x) = g x) (inside : b.index < e.bindings.size) :
    g (e'.binding b) = g (e.binding b) := by
  rw [← fixed, h.head b inside, fixed]

theorem Superclass.of_resembles {b : BindingId} {c : Option BindingId} (h : e.Superclass b c)
    (like : e.Resembles e') : e'.Superclass b c := by
  obtain ⟨s, shown, superclass⟩ := h
  exact ⟨s, like.shows b s shown, superclass⟩

theorem SameFrame.teamOf?_eq (h : e.SameFrame e') : e'.teamOf? role = e.teamOf? role := by
  refine h.proj_eq (g := fun x => x.role.map (·.team)) (fun x => ?_) role
  rw [Binding.bare, Option.map_map]
  rfl

theorem teamOf?_eq (like : e.Resembles e') (inside : role.index < e.bindings.size) :
    e'.teamOf? role = e.teamOf? role := by
  refine like.proj_eq (g := fun x => x.role.map (·.team)) (fun x => ?_) inside
  rw [Binding.head, Binding.bare, Option.map_map]
  rfl

theorem refined?_eq (ranged : e.Ranged) (like : e.Resembles e') (inside : role.index < e.bindings.size)
    (known : e.slot (.memberTypes team) = .resolved members) : e'.refined? role team = e.refined? role team := by
  rw [refined?, refined?, known, like.members team members known]
  refine List.find?_congr fun m hm => ?_
  have named (b : BindingId) (inside : b.index < e.bindings.size) :
      (e'.binding b).simpleName = (e.binding b).simpleName :=
    like.proj_eq (g := Binding.simpleName) (fun _ => rfl) inside
  rw [named m (ranged.slots (.memberTypes team) members known m hm), named role inside]

theorem Refines.of_resembles (h : e.Refines role team teams found) (ranged : e.Ranged) (like : e.Resembles e') :
    e'.Refines role team teams found where
  teamOf := (teamOf?_eq like (lt_size_of_teamOf? h.teamOf)).trans h.teamOf
  chain := h.chain.imp fun _ _ above => above.of_resembles like
  nodup := h.nodup
  isTeam u hu := by
    have isTeam := h.isTeam u hu
    exact (like.proj_eq (g := Binding.isTeam) (fun _ => rfl) (lt_size_of_isTeam isTeam)).trans isTeam
  members u hu := (h.members u hu).imp (like.members u)
  found := by
    rw [h.found]
    refine List.filterMap_congr fun u hu => ?_
    obtain ⟨list, known⟩ := h.members u hu
    exact (refined?_eq ranged like (lt_size_of_teamOf? h.teamOf) known).symm

theorem Refines.nil (given : e.teamOf? role = some team) : e.Refines role team [] [] :=
  ⟨given, .singleton team, .nil, nofun, nofun, rfl⟩

theorem Refines.add (h : e.Refines role team teams found) (above : e.Superclass (teams.getLastD team) (some a))
    (new : a ∉ teams) (isTeam : (e.binding a).isTeam = true)
    (known : e.slot (.memberTypes a) = .resolved members) :
    e.Refines role team (teams ++ [a]) (found ++ (e.refined? role a).toList) where
  teamOf := h.teamOf
  chain := by
    refine List.isChain_append.2 ⟨h.chain, .singleton a, fun b hb c hc => ?_⟩
    obtain rfl : teams.getLastD team = b := by simpa [List.getLast?_cons] using hb
    obtain rfl : a = c := by simpa using hc
    exact above
  nodup := by
    rw [← List.concat_eq_append]
    exact h.nodup.concat new
  isTeam u hu := by
    rcases List.mem_append.1 hu with old | same
    · exact h.isTeam u old
    · rwa [List.mem_singleton.1 same]
  members u hu := by
    rcases List.mem_append.1 hu with old | same
    · exact h.members u old
    · exact ⟨members, by rwa [List.mem_singleton.1 same]⟩
  found := by
    rw [List.filterMap_append, h.found]
    cases refined : e.refined? role a <;> simp [refined]

theorem RefinesAll.of_resembles (h : e.RefinesAll role found) (ranged : e.Ranged) (like : e.Resembles e') :
    e'.RefinesAll role found := by
  obtain ⟨team, teams, next, refines, above, complete⟩ := h
  refine ⟨team, teams, next, refines.of_resembles ranged like, above.of_resembles like, fun u hu isTeam => ?_⟩
  obtain ⟨s, shown, rfl⟩ := above
  have inside := ranged.lt_of_shows shown hu
  exact complete u hu ((like.proj_eq (g := Binding.isTeam) (fun _ => rfl) inside).symm.trans isTeam)

end TeamRoles.Env
