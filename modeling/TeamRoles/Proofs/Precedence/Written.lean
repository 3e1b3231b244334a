import TeamRoles.Proofs.Precedence.Declarations

/-!
What the text of a team says about its callins: the precedence lists that stand in it and in its roles, wherever
these are written, and the callins that its roles have or inherit without redefining them. The lists that are
collected are those inside the declaration of a team; a callin that is left out without being redefined has its
label from a namesake (`HasUnredefined.takesPart_or`).
-/

namespace TeamRoles

open Precedence Resolve

section Splits

variable {α β : Type} {f : α → List β} {l : List α} {pre post : List β} {b : β}

theorem exists_of_flatMap_eq (h : l.flatMap f = pre ++ b :: post) : ∃ before a behind p q,
    l = before ++ a :: behind ∧ f a = p ++ b :: q ∧ pre = before.flatMap f ++ p := by
  induction l generalizing pre with
  | nil => simp at h
  | cons a l ih =>
    rw [List.flatMap_cons, List.append_eq_append_iff] at h
    have later {more : List β} (split : l.flatMap f = more ++ b :: post) (past : pre = f a ++ more) :
        ∃ before c behind p q, a :: l = before ++ c :: behind ∧ f c = p ++ b :: q ∧
          pre = before.flatMap f ++ p := by
      obtain ⟨before, c, behind, p, q, rfl, here, rfl⟩ := ih split
      exact ⟨a :: before, c, behind, p, q, rfl, here, by rw [past, List.flatMap_cons, List.append_assoc]⟩
    rcases h with ⟨more, past, split⟩ | ⟨more, here, split⟩
    · exact later split past
    · cases more with
      | nil =>
        rw [List.append_nil] at here
        exact @later [] split.symm (by rw [here, List.append_nil])
      | cons c more =>
        obtain ⟨rfl, -⟩ := List.cons.inj split
        exact ⟨[], a, l, pre, more, rfl, here, rfl⟩

end Splits

namespace Binding

def precedences (x : Binding) : List PrecedenceDecl :=
  match x.origin with
  | .source decl _ => decl.precedences
  | .binary d => ((d.extension.attributes?.map (·.precedences)).getD []).map fun r =>
    { after := r.after, elements := r.labels }
  | .problem _ => []

/-- The types that are written inside a type, in the same declaration. -/
def writtenTypes (x : Binding) : List TypeDecl := (x.decl?.map (·.memberTypes)).getD []

end Binding

namespace Env

variable {e : Env} {t team : BindingId} {d : Declared}

/-- The list stands in the declaration of the team, or in a type written there. -/
inductive ListsInside (e : Env) (t : BindingId) (d : Declared) : Prop
  | own : d.decl ∈ (e.binding t).precedences → d.role = none → ListsInside e t d
  | inside {m : TypeDecl} : m ∈ (e.binding t).writtenTypes → d.decl ∈ m.precedences → d.role = some m.name →
    ListsInside e t d

/-- Also a role that is written in a role file, or compiled, is a role of its team. -/
structure RoleOf (e : Env) (t role : BindingId) : Prop where
  enclosing : (e.binding role).enclosing = some t
  isRole : (e.binding role).isRole = true

/-- The list stands in the team or in one of its roles. -/
inductive ListsAnywhere (e : Env) (t : BindingId) (d : Declared) : Prop
  | inside : e.ListsInside t d → ListsAnywhere e t d
  | ofRole {role : BindingId} : e.RoleOf t role → d.decl ∈ (e.binding role).precedences →
    d.role = some (e.binding role).simpleName → ListsAnywhere e t d

theorem ListsInside.withOwn {own : Bool} (h : e.ListsInside t d) : e.ListsInside t { d with own := own } := by
  rcases h with ⟨listed, role⟩ | ⟨hm, listed, role⟩
  · exact .own listed role
  · exact .inside hm listed role

/-- All lists of the team and its super-teams stand in the declarations of these. -/
def AllInside (e : Env) (team : BindingId) : Prop :=
  ∀ t d, e.SuperTeam team t → e.ListsAnywhere t d → e.ListsInside t d

theorem mem_declarationsIn {own : Bool} :
    d ∈ declarationsIn (e.binding t) own ↔ e.ListsInside t d ∧ d.own = own := by
  obtain ⟨decl, role, kept⟩ := d
  cases origin : (e.binding t).origin with
  | source written unit =>
    have precedences : (e.binding t).precedences = written.precedences := by simp [Binding.precedences, origin]
    have writtenTypes : (e.binding t).writtenTypes = written.memberTypes := by
      simp [Binding.writtenTypes, Binding.decl?, origin]
    simp only [declarationsIn, origin, List.mem_append, List.mem_map, List.mem_flatMap]
    constructor
    · rintro (⟨p, listed, ⟨⟩⟩ | ⟨m, hm, p, listed, ⟨⟩⟩)
      · exact ⟨.own (precedences ▸ listed) rfl, rfl⟩
      · exact ⟨.inside (writtenTypes ▸ hm) listed rfl, rfl⟩
    · rintro ⟨⟨listed, rfl⟩ | ⟨hm, listed, rfl⟩, rfl⟩
      · exact .inl ⟨decl, precedences ▸ listed, rfl⟩
      · exact .inr ⟨_, writtenTypes ▸ hm, decl, listed, rfl⟩
  | binary descriptor =>
    have precedences : (e.binding t).precedences =
        ((descriptor.extension.attributes?.map (·.precedences)).getD []).map fun r =>
          { after := r.after, elements := r.labels } := by simp [Binding.precedences, origin]
    have writtenTypes : (e.binding t).writtenTypes = [] := by simp [Binding.writtenTypes, Binding.decl?, origin]
    simp only [declarationsIn, origin, List.mem_map]
    constructor
    · rintro ⟨r, listed, ⟨⟩⟩
      exact ⟨.own (precedences ▸ List.mem_map.2 ⟨r, listed, rfl⟩) rfl, rfl⟩
    · rintro ⟨⟨listed, rfl⟩ | ⟨hm, -, -⟩, rfl⟩
      · obtain ⟨r, hr, rfl⟩ := List.mem_map.1 (precedences ▸ listed)
        exact ⟨r, hr, rfl⟩
      · cases writtenTypes ▸ hm
  | problem reason =>
    have precedences : (e.binding t).precedences = [] := by simp [Binding.precedences, origin]
    have writtenTypes : (e.binding t).writtenTypes = [] := by simp [Binding.writtenTypes, Binding.decl?, origin]
    simp only [declarationsIn, origin]
    constructor
    · intro mem
      cases mem
    · rintro ⟨⟨listed, -⟩ | ⟨hm, -, -⟩, -⟩
      · cases precedences ▸ listed
      · cases writtenTypes ▸ hm

variable {role owner : BindingId} {m : MappingId} {entry : Entry}

def HasCallin (e : Env) (role : BindingId) (m : MappingId) : Prop :=
  m ∈ e.callins role ∨ ∃ tsuper ∈ e.tsuperRoles role, m ∈ e.callins tsuper

/-- The callin is one of the role's own, or one that the role inherits and does not redefine: neither the role nor
a tsuper role that is nearer than the callin's has a callin of its label. -/
def HasUnredefined (e : Env) (role : BindingId) (m : MappingId) : Prop :=
  ∃ nearer owner farther, role :: e.tsuperRoles role = nearer ++ owner :: farther ∧ m ∈ e.callins owner ∧
    ∀ other ∈ nearer, ∀ n ∈ e.callins other, (e.mapping n).label = (e.mapping m).label →
      (e.mapping m).label = none

/-- The callin is inherited, and its label is taken by a callin that stands before it: another one of the same
tsuper role, or one of a role that stands before the inheriting one and has its name. -/
def Displaced (e : Env) (team : BindingId) (m : MappingId) : Prop :=
  ∃ role ∈ e.roles team, ∃ owner ∈ e.tsuperRoles role, m ∈ e.callins owner ∧ (e.mapping m).label ≠ none ∧
    ∃ n, (e.mapping n).label = (e.mapping m).label ∧ ([n, m].Sublist (e.callins owner) ∨
      ∃ namesake, [namesake, role].Sublist (e.roles team) ∧
        (e.binding namesake).simpleName = (e.binding role).simpleName ∧ e.HasCallin namesake n)

def TakesPart (e : Env) (team : BindingId) (m : MappingId) : Prop :=
  m ∈ (e.entries team).map (·.mapping)

/-- The roles that a role has callins from: itself, and its tsuper roles, from which it inherits. -/
def callinSources (e : Env) (role : BindingId) : List (BindingId × Bool) :=
  (role, false) :: (e.tsuperRoles role).map (·, true)

def entriesFrom (e : Env) (role : BindingId) (source : BindingId × Bool) : List Entry :=
  (e.callins source.1).map (e.entry role source.2)

theorem map_fst_callinSources : (e.callinSources role).map Prod.fst = role :: e.tsuperRoles role := by
  simp [callinSources, Function.comp_def]

theorem candidates_eq_flatMap : e.candidates role = (e.callinSources role).flatMap (e.entriesFrom role) := by
  rw [candidates, candidatesFrom, callinSources, List.flatMap_cons, List.flatMap_map]
  rfl

theorem hasCallin_of_mem_candidates (mem : entry ∈ e.candidates role) :
    e.HasCallin role entry.mapping ∧ entry.role = (e.binding role).simpleName ∧
      entry.label = (e.mapping entry.mapping).label := by
  rcases List.mem_append.1 mem with own | inherited
  · obtain ⟨m, hm, rfl⟩ := List.mem_map.1 own
    exact ⟨.inl hm, rfl, rfl⟩
  · obtain ⟨tsuper, ht, mem⟩ := List.mem_flatMap.1 inherited
    obtain ⟨m, hm, rfl⟩ := List.mem_map.1 mem
    exact ⟨.inr ⟨tsuper, ht, hm⟩, rfl, rfl⟩

theorem split_candidates {pre post : List Entry} (split : e.candidates role = pre ++ entry :: post) :
    ∃ nearer owner inherited farther earlier m later,
      e.callinSources role = nearer ++ (owner, inherited) :: farther ∧ e.callins owner = earlier ++ m :: later ∧
        entry = e.entry role inherited m ∧
        pre = nearer.flatMap (e.entriesFrom role) ++ earlier.map (e.entry role inherited) := by
  rw [candidates_eq_flatMap] at split
  obtain ⟨nearer, ⟨owner, inherited⟩, farther, p, q, sources, here, rfl⟩ := exists_of_flatMap_eq split
  obtain ⟨earlier, rest, callins, rfl, rest'⟩ := List.map_eq_append_iff.1 here
  obtain ⟨m, later, rfl, rfl, -⟩ := List.map_eq_cons_iff.1 rest'
  exact ⟨nearer, owner, inherited, farther, earlier, m, later, sources, callins, rfl, rfl⟩

theorem exists_split_candidates {nearer farther : List BindingId}
    (lineage : role :: e.tsuperRoles role = nearer ++ owner :: farther) {earlier later : List MappingId}
    (callins : e.callins owner = earlier ++ m :: later) :
    ∃ (sources : List (BindingId × Bool)) (inherited : Bool) (post : List Entry),
      sources.map Prod.fst = nearer ∧ (owner, inherited) ∈ e.callinSources role ∧
        e.candidates role = (sources.flatMap (e.entriesFrom role) ++ earlier.map (e.entry role inherited)) ++
          e.entry role inherited m :: post := by
  rw [← map_fst_callinSources, List.map_eq_append_iff] at lineage
  obtain ⟨sources, rest, split, rfl, rest'⟩ := lineage
  obtain ⟨⟨owner, inherited⟩, farther, rfl, rfl, -⟩ := List.map_eq_cons_iff.1 rest'
  refine ⟨sources, inherited, later.map (e.entry role inherited) ++ farther.flatMap (e.entriesFrom role), rfl,
    by simp [split], ?_⟩
  rw [candidates_eq_flatMap, split, List.flatMap_append, List.flatMap_cons, entriesFrom, callins, List.map_append,
    List.map_cons]
  simp only [List.append_assoc, List.cons_append]

theorem inherited_of_mem_callinSources {inherited : Bool} (mem : (owner, inherited) ∈ e.callinSources role) :
    inherited = false ∨ owner ∈ e.tsuperRoles role := by
  rcases List.mem_cons.1 mem with same | above
  · cases same
    exact .inl rfl
  · obtain ⟨tsuper, listed, same⟩ := List.mem_map.1 above
    exact .inr ((Prod.mk.inj same).1 ▸ listed)

theorem TakesPart.unredefined (h : e.TakesPart team m) : ∃ role ∈ e.roles team, e.HasUnredefined role m := by
  obtain ⟨entry, kept, rfl⟩ := List.mem_map.1 h
  obtain ⟨pre, post, split, notRedefined⟩ := mem_unredefined.1 kept
  obtain ⟨before, role, behind, p, q, roles, here, rfl⟩ := exists_of_flatMap_eq split
  obtain ⟨nearer, owner, inherited, farther, earlier, m, later, sources, callins, rfl, rfl⟩ :=
    split_candidates here
  have lineage := congrArg (List.map Prod.fst) sources
  rw [map_fst_callinSources, List.map_append, List.map_cons] at lineage
  refine ⟨role, by simp [roles], _, owner, _, lineage, by simp [callins, entry], fun other isNearer n hn same => ?_⟩
  obtain ⟨⟨other, flag⟩, isSource, rfl⟩ := List.mem_map.1 isNearer
  by_contra labelled
  -- A role's own callins stand before all others, so this one is inherited.
  have isInherited : inherited = true := by
    cases nearer with
    | nil => cases isSource
    | cons source nearer =>
      have tail : (e.tsuperRoles role).map (·, true) = nearer ++ (owner, inherited) :: farther :=
        (List.cons.inj sources).2
      obtain ⟨_, -, ⟨⟩⟩ := List.mem_map.1 (tail ▸ List.mem_append_right nearer List.mem_cons_self)
      rfl
  refine notRedefined (isRedefined_iff.2 ⟨⟨isInherited, Option.isSome_iff_ne_none.2 labelled⟩, ?_⟩)
  refine ⟨e.entry role flag n, ?_, rfl, same⟩
  refine List.mem_append_right _ (List.mem_append_left _ ?_)
  exact List.mem_flatMap.2 ⟨_, isSource, List.mem_map_of_mem hn⟩

theorem HasUnredefined.takesPart_or (h : e.HasUnredefined role m) (isRole : role ∈ e.roles team) :
    e.TakesPart team m ∨ e.Displaced team m := by
  obtain ⟨nearer, owner, farther, lineage, has, notRedefined⟩ := h
  obtain ⟨earlier, later, callins⟩ := List.append_of_mem has
  obtain ⟨before, behind, roles⟩ := List.append_of_mem isRole
  obtain ⟨sources, inherited, post, rfl, isSource, candidates⟩ := exists_split_candidates lineage callins
  have split : (e.roles team).flatMap e.candidates = (before.flatMap e.candidates ++
      (sources.flatMap (e.entriesFrom role) ++ earlier.map (e.entry role inherited))) ++
        e.entry role inherited m :: (post ++ behind.flatMap e.candidates) := by
    rw [roles, List.flatMap_append, List.flatMap_cons, candidates]
    simp only [List.append_assoc, List.cons_append]
  by_cases redefined : (e.entry role inherited m).isRedefined (before.flatMap e.candidates ++
      (sources.flatMap (e.entriesFrom role) ++ earlier.map (e.entry role inherited))) = true
  -- The callin that is met before stands under a namesake of the role, nearer, or beside this one.
  · obtain ⟨⟨isInherited, labelled⟩, other, met, sameRole, sameLabel⟩ := isRedefined_iff.1 redefined
    have above : owner ∈ e.tsuperRoles role :=
      (inherited_of_mem_callinSources isSource).resolve_left (by simpa [entry] using isInherited)
    have labelled : (e.mapping m).label ≠ none := Option.isSome_iff_ne_none.1 labelled
    refine .inr ⟨role, isRole, owner, above, has, labelled, other.mapping, ?_⟩
    rcases List.mem_append.1 met with elsewhere | met
    · obtain ⟨namesake, isNamesake, candidate⟩ := List.mem_flatMap.1 elsewhere
      obtain ⟨hasIt, under, label⟩ := hasCallin_of_mem_candidates candidate
      refine ⟨label.symm.trans sameLabel, .inr ⟨namesake, ?_, under.symm.trans sameRole, hasIt⟩⟩
      rw [roles]
      exact (List.singleton_sublist.2 isNamesake).append (List.singleton_sublist.2 List.mem_cons_self)
    · rcases List.mem_append.1 met with nearby | here
      · obtain ⟨source, isNearer, mem⟩ := List.mem_flatMap.1 nearby
        obtain ⟨n, hn, rfl⟩ := List.mem_map.1 mem
        exact absurd (notRedefined _ (List.mem_map_of_mem isNearer) n hn sameLabel) labelled
      · obtain ⟨n, hn, rfl⟩ := List.mem_map.1 here
        refine ⟨sameLabel, .inl ?_⟩
        rw [callins]
        exact (List.singleton_sublist.2 hn).append (List.singleton_sublist.2 List.mem_cons_self)
  · exact .inl (List.mem_map.2 ⟨_, mem_unredefined.2 ⟨_, _, split, redefined⟩, rfl⟩)

end Env

end TeamRoles
