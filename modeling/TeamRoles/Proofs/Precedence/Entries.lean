import Mathlib.Data.List.Basic
import TeamRoles.Proofs.Env.Range
import TeamRoles.Proofs.Lawful.Mapping
import TeamRoles.Proofs.Precedence.JoinPoints

/-!
The callins of a team as an environment shows them: those of its roles, and those of their tsuper roles
that are not redefined. They are what the resolution of precedence collects, and they last.
-/

namespace TeamRoles

open Precedence

namespace Env

def callins (e : Env) (role : BindingId) : List MappingId :=
  ((e.slot (.mappings role)).get?.getD []).filter fun m => (e.mapping m).kind.callin?.isSome

def tsuperRoles (e : Env) (role : BindingId) : List BindingId :=
  (e.slot (.tsuperRoles role)).get?.getD []

def roles (e : Env) (team : BindingId) : List BindingId :=
  ((e.slot (.memberTypes team)).get?.getD []).filter fun m => (e.binding m).isRole

def entry (e : Env) (role : BindingId) (inherited : Bool) (m : MappingId) : Entry :=
  ⟨m, (e.binding role).simpleName, (e.mapping m).label, inherited⟩

/-- The callins of a role, then those of the given tsuper roles. -/
def candidatesFrom (e : Env) (role : BindingId) (tsupers : List BindingId) : List Entry :=
  (e.callins role).map (e.entry role false) ++
    tsupers.flatMap fun tsuper => (e.callins tsuper).map (e.entry role true)

def candidates (e : Env) (role : BindingId) : List Entry :=
  e.candidatesFrom role (e.tsuperRoles role)

def entries (e : Env) (team : BindingId) : List Entry :=
  unredefined [] ((e.roles team).flatMap e.candidates)

/-- The mappings of a role have been resolved, or it has none. -/
def HasMappings (e : Env) (role : BindingId) : Prop :=
  (∃ list, e.slot (.mappings role) = .resolved list) ∨
    role.index < e.bindings.size ∧ (e.binding role).isRole = false

def HasTsuperRoles (e : Env) (role : BindingId) : Prop :=
  (∃ list, e.slot (.tsuperRoles role) = .resolved list) ∨
    role.index < e.bindings.size ∧ (e.binding role).role = none

structure HasCandidates (e : Env) (role : BindingId) (tsupers : List BindingId) : Prop where
  inside : role.index < e.bindings.size
  own : e.HasMappings role
  inherited : ∀ tsuper ∈ tsupers, e.HasMappings tsuper

section Lasting

variable {e e' : Env} {role team : BindingId} {tsupers : List BindingId} {m : MappingId}

theorem Ranged.owns_of_mem_callins (h : e.Ranged) (mem : m ∈ e.callins role) :
    e.OwnsMapping role m := by
  have listed := (List.mem_filter.1 mem).1
  cases stored : e.slot (.mappings role) with
  | resolved list =>
    rw [stored] at listed
    exact h.slots (.mappings role) list stored m listed
  | unresolved | inProgress =>
    rw [stored] at listed
    cases listed

theorem Ranged.lt_of_mem_callins (h : e.Ranged) (mem : m ∈ e.callins role) :
    m.index < e.mappings.size :=
  (h.owns_of_mem_callins mem).1

theorem Ranged.namesakes_of_mem_tsuperRoles {tsuper : BindingId} (h : e.Ranged)
    (mem : tsuper ∈ e.tsuperRoles role) : e.Namesakes role tsuper := by
  rw [tsuperRoles] at mem
  cases stored : e.slot (.tsuperRoles role) with
  | resolved list =>
    rw [stored] at mem
    exact h.slots (.tsuperRoles role) list stored tsuper mem
  | unresolved | inProgress =>
    rw [stored] at mem
    cases mem

theorem Ranged.callins_of_not_isRole (h : e.Ranged) (other : (e.binding role).isRole = false) :
    e.callins role = [] := by
  have fresh : e.slot (.mappings role) = .unresolved := by
    by_contra begun
    rw [h.isRole role begun] at other
    cases other
  rw [callins, fresh]
  rfl

theorem HasMappings.of_lasts (h : e.HasMappings role) (lasts : e.Lasts e') : e'.HasMappings role := by
  rcases h with ⟨list, resolved⟩ | ⟨inside, other⟩
  · exact .inl ⟨list, by rw [lasts.slots _ (by simp [resolved]), resolved]⟩
  · exact .inr ⟨Nat.lt_of_lt_of_le inside lasts.size, by rwa [Binding.isRole, lasts.modifiers_eq inside]⟩

theorem HasMappings.callins_eq (h : e.HasMappings role) (lasts : e.Lasts e') (ranged : e.Ranged)
    (ranged' : e'.Ranged) : e'.callins role = e.callins role := by
  rcases h with ⟨list, resolved⟩ | ⟨inside, other⟩
  · have resolved' : e'.slot (.mappings role) = .resolved list := by
      rw [lasts.slots _ (by simp [resolved]), resolved]
    rw [callins, callins, resolved, resolved']
    refine List.filter_congr fun m hm => ?_
    rw [lasts.mapping_eq (ranged.slots (.mappings role) list resolved m hm).1]
  · have other' : (e'.binding role).isRole = false := by
      rwa [Binding.isRole, lasts.modifiers_eq inside]
    rw [ranged.callins_of_not_isRole other, ranged'.callins_of_not_isRole other']

theorem HasCandidates.of_lasts (h : e.HasCandidates role tsupers) (lasts : e.Lasts e') :
    e'.HasCandidates role tsupers where
  inside := Nat.lt_of_lt_of_le h.inside lasts.size
  own := h.own.of_lasts lasts
  inherited tsuper ht := (h.inherited tsuper ht).of_lasts lasts

theorem HasCandidates.candidatesFrom_eq (h : e.HasCandidates role tsupers) (lasts : e.Lasts e')
    (ranged : e.Ranged) (ranged' : e'.Ranged) :
    e'.candidatesFrom role tsupers = e.candidatesFrom role tsupers := by
  have entries (b : BindingId) (inherited : Bool) (has : e.HasMappings b) :
      (e'.callins b).map (e'.entry role inherited) = (e.callins b).map (e.entry role inherited) := by
    rw [has.callins_eq lasts ranged ranged']
    refine List.map_congr_left fun m hm => ?_
    rw [entry, lasts.mapping_eq (ranged.lt_of_mem_callins hm), Binding.simpleName, lasts.name_eq h.inside]
    rfl
  rw [candidatesFrom, candidatesFrom, entries role false h.own]
  congr 1
  exact List.flatMap_congr fun tsuper ht => entries tsuper true (h.inherited tsuper ht)

theorem HasTsuperRoles.of_lasts (h : e.HasTsuperRoles role) (lasts : e.Lasts e') :
    e'.HasTsuperRoles role ∧ e'.tsuperRoles role = e.tsuperRoles role := by
  rcases h with ⟨list, resolved⟩ | ⟨inside, none⟩
  · have same := lasts.slots (.tsuperRoles role) (by simp [resolved])
    exact ⟨.inl ⟨list, same.trans resolved⟩, by rw [tsuperRoles, same, tsuperRoles]⟩
  · have kept := congrArg (fun x => x.role.isNone) (lasts.head role inside)
    simp only [Binding.head, Binding.bare, Option.isNone_map, none] at kept
    have none' : (e'.binding role).role = .none := by simpa using kept
    refine ⟨.inr ⟨Nat.lt_of_lt_of_le inside lasts.size, none'⟩, ?_⟩
    simp only [tsuperRoles, slot, Binding.tsuperRoles, none, none']

/-- All that the callins of a role come from has been resolved. -/
structure Complete (e : Env) (role : BindingId) : Prop where
  tsupers : e.HasTsuperRoles role
  candidates : e.HasCandidates role (e.tsuperRoles role)

theorem Complete.of_lasts (h : e.Complete role) (lasts : e.Lasts e') (ranged : e.Ranged)
    (ranged' : e'.Ranged) : e'.Complete role ∧ e'.candidates role = e.candidates role := by
  obtain ⟨tsupers, same⟩ := h.tsupers.of_lasts lasts
  rw [Env.candidates, same]
  exact ⟨⟨tsupers, by rw [same]; exact h.candidates.of_lasts lasts⟩,
    h.candidates.candidatesFrom_eq lasts ranged ranged'⟩

structure HasEntries (e : Env) (team : BindingId) : Prop where
  ranged : e.Ranged
  members : ∃ list, e.slot (.memberTypes team) = .resolved list
  complete : ∀ role ∈ e.roles team, e.Complete role

theorem roles_eq {members : List BindingId} (h : e.Lasts e') (ranged : e.Ranged)
    (resolved : e.slot (.memberTypes team) = .resolved members) : e'.roles team = e.roles team := by
  have resolved' : e'.slot (.memberTypes team) = .resolved members := by
    rw [h.slots _ (by simp [resolved]), resolved]
  rw [roles, roles, resolved, resolved']
  refine List.filter_congr fun m hm => ?_
  rw [Binding.isRole, h.modifiers_eq (ranged.slots (.memberTypes team) members resolved m hm)]
  rfl

theorem HasEntries.of_lasts (h : e.HasEntries team) (lasts : e.Lasts e') (ranged' : e'.Ranged) :
    e'.HasEntries team ∧ e'.entries team = e.entries team := by
  obtain ⟨members, resolved⟩ := h.members
  have same := roles_eq lasts h.ranged resolved
  have complete (role : BindingId) (hr : role ∈ e.roles team) :=
    (h.complete role hr).of_lasts lasts h.ranged ranged'
  refine ⟨⟨ranged', ⟨members, by rw [lasts.slots _ (by simp [resolved]), resolved]⟩, ?_⟩, ?_⟩
  · rw [same]
    exact fun role hr => (complete role hr).1
  · rw [entries, entries, same]
    congr 1
    exact List.flatMap_congr fun role hr => (complete role hr).2

theorem HasEntries.lt_of_mem {entry : Entry} (h : e.HasEntries team) (mem : entry ∈ e.entries team) :
    entry.mapping.index < e.mappings.size := by
  obtain ⟨role, -, listed⟩ := List.mem_flatMap.1 (unredefined_subset mem)
  rcases List.mem_append.1 listed with own | inherited
  · obtain ⟨m, hm, rfl⟩ := List.mem_map.1 own
    exact h.ranged.lt_of_mem_callins hm
  · obtain ⟨tsuper, -, found⟩ := List.mem_flatMap.1 inherited
    obtain ⟨m, hm, rfl⟩ := List.mem_map.1 found
    exact h.ranged.lt_of_mem_callins hm

end Lasting

end Env

namespace Resolve

variable {ℓ : Nat} {role team : BindingId}

theorem callins_triple :
    Triple (ℓ + 6) (fun e => e.Ranged ∧ role.index < e.bindings.size) (callins role)
      fun list e => list = e.callins role ∧ e.HasMappings role := by
  have inside : Stable (ℓ + 6) fun e => e.Ranged ∧ role.index < e.bindings.size :=
    fun _ _ _ runs h => ⟨stable_ranged runs h.1, stable_lt_size runs h.2⟩
  refine .framed_bind mappings_triple inside (fun _ _ => trivial) fun all => ?_
  refine .get_bind fun e => .pure ?_
  rintro _ ⟨rfl, settled, ranged, inside⟩
  rcases settled with ⟨other, rfl⟩ | resolved
  · exact ⟨(ranged.callins_of_not_isRole other).symm, .inr ⟨inside, other⟩⟩
  · exact ⟨by rw [Env.callins, resolved]; rfl, .inl ⟨all, resolved⟩⟩

/-- The callins of a role have been collected as far as the given tsuper roles. -/
structure Collects (role : BindingId) (simple : String) (before : List Entry)
    (tsupers : List BindingId) (entries : List Entry) (e : Env) : Prop where
  ranged : e.Ranged
  named : (e.binding role).simpleName = simple
  candidates : e.HasCandidates role tsupers
  entries : entries = (e.candidatesFrom role tsupers).foldl keep before

variable {simple : String} {before entries : List Entry} {tsupers : List BindingId}

theorem stable_collects : Stable ℓ (Collects role simple before tsupers entries) := by
  intro e r e' runs h
  refine ⟨runs.ranged h.ranged, ?_, h.candidates.of_lasts runs.lasts, ?_⟩
  · rw [Binding.simpleName, runs.lasts.name_eq h.candidates.inside]
    exact h.named
  · rw [h.candidates.candidatesFrom_eq runs.lasts h.ranged (runs.ranged h.ranged)]
    exact h.entries

def KnowsTsuperRoles (role : BindingId) (tsupers : List BindingId) (e : Env) : Prop :=
  e.HasTsuperRoles role ∧ e.tsuperRoles role = tsupers

theorem stable_knowsTsuperRoles : Stable ℓ (KnowsTsuperRoles role tsupers) := by
  intro e r e' runs ⟨has, known⟩
  obtain ⟨has', same⟩ := has.of_lasts runs.lasts
  exact ⟨has', same.trans known⟩

theorem KnowsTsuperRoles.lt_size {e : Env} {tsuper : BindingId} (h : KnowsTsuperRoles role tsupers e)
    (ranged : e.Ranged) (mem : tsuper ∈ tsupers) : tsuper.index < e.bindings.size := by
  rw [← h.2] at mem
  exact (ranged.namesakes_of_mem_tsuperRoles mem).1.2

theorem knowsTsuperRoles_triple :
    Triple (ℓ + 2) (fun e => role.index < e.bindings.size) (tsuperRoles role)
      (KnowsTsuperRoles role) := by
  refine ((Triple.frame tsuperRoles_triple stable_lt_size).pre fun _ h => ⟨trivial, h⟩).post ?_
  rintro list e ⟨⟨none, rfl⟩ | resolved, inside⟩
  · refine ⟨.inr ⟨inside, none⟩, ?_⟩
    simp [Env.tsuperRoles, Env.slot, Binding.tsuperRoles, none, Slot.get?]
  · exact ⟨.inl ⟨list, resolved⟩, by rw [Env.tsuperRoles, resolved]; rfl⟩

theorem Collects.start {e : Env} (ranged : e.Ranged) (inside : role.index < e.bindings.size)
    (named : (e.binding role).simpleName = simple) (own : e.HasMappings role) :
    Collects role simple before []
      (before ++ (e.callins role).map fun m => ⟨m, simple, (e.mapping m).label, false⟩) e where
  ranged := ranged
  named := named
  candidates := ⟨inside, own, nofun⟩
  entries := by
    subst named
    rw [foldl_keep_own]
    · simp [Env.candidatesFrom, Env.entry]
    · simp +contextual [Env.candidatesFrom, Env.entry]

theorem Collects.inherit {e : Env} {tsuper : BindingId}
    (h : Collects role simple before tsupers entries e) (has : e.HasMappings tsuper) :
    Collects role simple before (tsupers ++ [tsuper]) ((e.callins tsuper).foldl (fun entries m =>
      let label := (e.mapping m).label
      let isRedefined := label.isSome && entries.any fun entry =>
        entry.role == simple && entry.label == label
      if isRedefined then entries else entries ++ [⟨m, simple, label, true⟩]) entries) e where
  ranged := h.ranged
  named := h.named
  candidates := ⟨h.candidates.inside, h.candidates.own, by
    simpa [or_imp, forall_and] using ⟨h.candidates.inherited, has⟩⟩
  entries := by
    have more : e.candidatesFrom role (tsupers ++ [tsuper]) =
        e.candidatesFrom role tsupers ++ (e.callins tsuper).map (e.entry role true) := by
      simp [Env.candidatesFrom]
    rw [more, List.foldl_append, ← h.entries, List.foldl_map]
    rw [← h.named]
    rfl

theorem inheritEntries_triple {inherited : List BindingId} :
    Triple (ℓ + 6) (fun e => KnowsTsuperRoles role inherited e ∧
        Collects role simple before [] entries e)
      (inherited.foldlM (fun entries tsuper => do
        let found ← callins tsuper
        let e ← get
        return found.foldl (fun entries m =>
          let label := (e.mapping m).label
          let isRedefined := label.isSome && entries.any fun entry =>
            entry.role == simple && entry.label == label
          if isRedefined then entries else entries ++ [⟨m, simple, label, true⟩]) entries) entries)
      fun entries e => KnowsTsuperRoles role inherited e ∧
        Collects role simple before inherited entries e := by
  refine .foldlM (I := fun done entries e => KnowsTsuperRoles role inherited e ∧
    Collects role simple before done entries e) fun done tsuper ht entries => ?_
  have stable : Stable (ℓ + 6) fun e => KnowsTsuperRoles role inherited e ∧
      Collects role simple before done entries e := fun _ _ _ runs h =>
    ⟨stable_knowsTsuperRoles runs h.1, stable_collects runs h.2⟩
  refine .framed_bind callins_triple stable ?_ fun found => .get_bind fun e => .pure ?_
  · exact fun e h => ⟨h.2.ranged, h.1.lt_size h.2.ranged ht⟩
  · rintro _ ⟨rfl, ⟨rfl, has⟩, known, collected⟩
    exact ⟨known, collected.inherit has⟩

theorem entriesOf_triple :
    Triple (ℓ + 6) (fun e => e.Ranged ∧ role.index < e.bindings.size) (entriesOf before role)
      fun entries e => (e.Ranged ∧ e.Complete role) ∧
        entries = (e.candidates role).foldl keep before := by
  refine .get_bind fun e₀ => ?_
  extract_lets simple
  have named : Stable (ℓ + 6) fun e => (e.Ranged ∧ role.index < e.bindings.size) ∧
      (e.binding role).simpleName = simple := by
    intro e r e' runs ⟨⟨ranged, inside⟩, named⟩
    refine ⟨⟨runs.ranged ranged, stable_lt_size runs inside⟩, ?_⟩
    rwa [Binding.simpleName, runs.lasts.name_eq inside]
  refine Triple.pre (P := fun e => (e.Ranged ∧ role.index < e.bindings.size) ∧
    (e.binding role).simpleName = simple) ?_ ?_
  · refine .framed_bind callins_triple named (fun _ h => h.1) fun own => .get_bind fun e => ?_
    extract_lets ownEntries
    refine Triple.pre (P := Collects role simple before [] (before ++ ownEntries)) ?_ ?_
    · refine (Triple.mono knowsTsuperRoles_triple (Nat.le_add_left 2 (ℓ + 4))).framed_bind stable_collects
        (fun _ h => h.candidates.inside) fun inherited => .post inheritEntries_triple ?_
      rintro entries e ⟨⟨has, rfl⟩, collected⟩
      exact ⟨⟨collected.ranged, has, collected.candidates⟩, collected.entries⟩
    · rintro _ ⟨rfl, ⟨rfl, has⟩, ⟨ranged, inside⟩, named⟩
      exact .start ranged inside named has
  · rintro _ ⟨rfl, h⟩
    exact ⟨h, rfl⟩

/-- The callins of some roles of a team have been collected. -/
structure CollectsTeam (team : BindingId) (roles done : List BindingId) (entries : List Entry)
    (e : Env) : Prop where
  ranged : e.Ranged
  members : ∃ list, e.slot (.memberTypes team) = .resolved list
  roles : e.roles team = roles
  complete : ∀ role ∈ done, e.Complete role
  entries : entries = (done.flatMap e.candidates).foldl keep []

theorem stable_collectsTeam {roles done : List BindingId} :
    Stable ℓ (CollectsTeam team roles done entries) := by
  intro e r e' runs h
  obtain ⟨members, resolved⟩ := h.members
  have complete (role : BindingId) (hr : role ∈ done) :=
    (h.complete role hr).of_lasts runs.lasts h.ranged (runs.ranged h.ranged)
  refine ⟨runs.ranged h.ranged, ⟨members, stable_slot runs resolved⟩,
    (Env.roles_eq runs.lasts h.ranged resolved).trans h.roles, fun role hr => (complete role hr).1, ?_⟩
  rw [List.flatMap_congr fun role hr => (complete role hr).2]
  exact h.entries

theorem CollectsTeam.add {roles done : List BindingId} {before : List Entry} {e : Env}
    (h : CollectsTeam team roles done before e) (complete : e.Complete role)
    (added : entries = (e.candidates role).foldl keep before) :
    CollectsTeam team roles (done ++ [role]) entries e where
  ranged := h.ranged
  members := h.members
  roles := h.roles
  complete := by simpa [or_imp, forall_and] using ⟨h.complete, complete⟩
  entries := by
    rw [added, h.entries]
    simp

theorem CollectsTeam.lt_size {roles done : List BindingId} {e : Env}
    (h : CollectsTeam team roles done entries e) (mem : role ∈ roles) :
    role.index < e.bindings.size := by
  obtain ⟨members, resolved⟩ := h.members
  rw [← h.roles, Env.roles, resolved] at mem
  exact h.ranged.slots (.memberTypes team) members resolved role (List.mem_filter.1 mem).1

theorem precedenceEntries_triple :
    Triple (ℓ + 6) Env.Ranged (precedenceEntries team)
      fun entries e => e.HasEntries team ∧ entries = e.entries team := by
  refine .framed_bind memberTypes_triple stable_ranged (fun _ _ => trivial) fun members => ?_
  refine .get_bind fun e => ?_
  generalize listed : (members.filter fun m => (e.binding m).isRole) = roles
  refine Triple.pre (P := CollectsTeam team roles [] []) ?_ ?_
  · refine Triple.post (.foldlM (I := CollectsTeam team roles) fun done role hr entries => ?_) ?_
    · refine (Triple.framed entriesOf_triple stable_collectsTeam ?_).post ?_
      · exact fun e h => ⟨h.ranged, h.lt_size hr⟩
      · exact fun added e ⟨⟨⟨_, complete⟩, all⟩, h⟩ => h.add complete all
    · rintro entries e h
      have all : e.roles team = roles := h.roles
      refine ⟨⟨h.ranged, h.members, by rw [all]; exact h.complete⟩, ?_⟩
      rw [h.entries, foldl_keep fun _ => rfl, Env.entries, all]
      rfl
  · rintro _ ⟨rfl, resolved, ranged⟩
    exact ⟨ranged, ⟨members, resolved⟩, by rw [Env.roles, resolved]; exact listed, nofun, rfl⟩

end Resolve

end TeamRoles
