import TeamRoles.Proofs.Precedence.Findings

/-!
Which findings there are about the order of a team's callins. Two callins of a join point are found to be
open exactly if their roles have different names and no way leads from one to the other, by the pairs that are
declared inside and by defaults; if names tell the roles of the team apart, these are different roles. Two
callins are called incompatible only where declarations contradict each other, but it may be others that do: a
callin behind a contradiction is named as well.
-/

namespace TeamRoles

open Precedence Relation

namespace Env

def discoveredAt (e : Env) (team : BindingId) (kind : CallinKind) (base : MethodId) : List MappingId :=
  discovered (e.uses team) kind base

def DeclaredAt (e : Env) (team : BindingId) (kind : CallinKind) (base : MethodId) (a b : MappingId) :
    Prop :=
  (a ∈ e.discoveredAt team kind base ∧ b ∈ e.discoveredAt team kind base) ∧
    e.Declares team kind a b ∧ a ≠ b

def roleName (e : Env) (m : MappingId) : String :=
  (e.binding (e.mapping m).role).simpleName

def SameRoleName (e : Env) (a b : MappingId) : Prop := e.roleName a = e.roleName b

/-- The pairs that are declared inside, and those under one role name that are open when their turn comes. -/
def Precedes (e : Env) (team : BindingId) (kind : CallinKind) (base : MethodId) :
    MappingId → MappingId → Prop :=
  withDefaults e.SameRoleName (e.DeclaredAt team kind base) (e.discoveredAt team kind base)

def SameRole (e : Env) (team : BindingId) (a b : MappingId) : Prop :=
  ∃ role ∈ e.roles team, e.HasCallin role a ∧ e.HasCallin role b

/-- As `DeclaredAt`, with the lists of all roles, wherever these are written. -/
def WrittenAt (e : Env) (team : BindingId) (kind : CallinKind) (base : MethodId) (a b : MappingId) : Prop :=
  (a ∈ e.discoveredAt team kind base ∧ b ∈ e.discoveredAt team kind base) ∧
    e.Written team kind a b ∧ a ≠ b

/-- All declared pairs of a join point, and the pairs of one role that are open when their turn comes. -/
def Outranks (e : Env) (team : BindingId) (kind : CallinKind) (base : MethodId) :
    MappingId → MappingId → Prop :=
  withDefaults (e.SameRole team) (e.WrittenAt team kind base) (e.discoveredAt team kind base)

/-- The roles of the team are told apart by their names. -/
def NamedApart (e : Env) (team : BindingId) : Prop :=
  ∀ role ∈ e.roles team, ∀ other ∈ e.roles team,
    (e.binding role).simpleName = (e.binding other).simpleName → role = other

section Graphs

variable {e : Env} {team : BindingId} {entries : List Entry} {declared : List Declared}
  {points : List JoinPoint} {point : JoinPoint} {kind : CallinKind} {base : MethodId} {a b : MappingId}

theorem Ranged.roleName_eq {role : BindingId} (h : e.Ranged) (has : e.HasCallin role a) :
    e.roleName a = (e.binding role).simpleName := by
  rcases has with own | ⟨tsuper, above, inherited⟩
  · rw [roleName, (h.owns_of_mem_callins own).2]
  · rw [roleName, (h.owns_of_mem_callins inherited).2, (h.namesakes_of_mem_tsuperRoles above).2]

theorem exists_role_of_mem (mem : a ∈ e.discoveredAt team kind base) :
    ∃ role ∈ e.roles team, e.HasCallin role a ∧
      roleOf (e.entries team) a = some (e.binding role).simpleName := by
  obtain ⟨entry, listed, same⟩ := List.mem_map.1 (mem_uses.1 (mem_discovered.1 mem)).1
  cases found : (e.entries team).find? (·.mapping == a) with
  | none => exact (List.find?_eq_none.1 found entry listed (by simpa using same)).elim
  | some first =>
    have known : first.mapping = a := by simpa using List.find?_some found
    obtain ⟨role, isRole, candidate⟩ :=
      List.mem_flatMap.1 (unredefined_subset (List.mem_of_find?_eq_some found))
    refine ⟨role, isRole, ?_⟩
    rw [roleOf, found]
    rcases List.mem_append.1 candidate with own | inherited
    · obtain ⟨m, isOwn, rfl⟩ := List.mem_map.1 own
      exact ⟨.inl (known ▸ isOwn), rfl⟩
    · obtain ⟨tsuper, above, inherited⟩ := List.mem_flatMap.1 inherited
      obtain ⟨m, isInherited, rfl⟩ := List.mem_map.1 inherited
      exact ⟨.inr ⟨tsuper, above, known ▸ isInherited⟩, rfl⟩

theorem Ranged.roleOf_eq (h : e.Ranged) (mem : a ∈ e.discoveredAt team kind base) :
    roleOf (e.entries team) a = some (e.roleName a) := by
  obtain ⟨role, -, has, under⟩ := exists_role_of_mem mem
  rw [under, h.roleName_eq has]

theorem Collected.related (h : e.Collected team entries declared points) :
    Related (applicable (declared.flatMap (Declared.edges entries)) (kind == .after))
      (e.discoveredAt team kind base) = e.DeclaredAt team kind base := by
  funext a b
  rw [h.all, Related, h.exists_edge_iff, DeclaredAt]

theorem Collected.graphAt_exact (h : e.Collected team entries declared points) (mem : point ∈ points) :
    (graphAt entries (declared.flatMap (Declared.edges entries)) point).Exact
        (e.discoveredAt team point.kind point.baseMethod) ∧
      (graphAt entries (declared.flatMap (Declared.edges entries)) point).succ.Next =
        e.Precedes team point.kind point.baseMethod := by
  have order : point.order = e.discoveredAt team point.kind point.baseMethod :=
    h.points.discovery point mem
  rw [graphAt, order]
  refine ⟨exact_graphOf.1, ?_⟩
  rw [exact_graphOf.2, h.related, h.all]
  refine withDefaults_congr fun a ha b hb => ?_
  rw [h.has.ranged.roleOf_eq ha, h.has.ranged.roleOf_eq hb, Option.some_inj, SameRoleName]

theorem precedes_of_sameRoleName (isPair : [a, b].Sublist (e.discoveredAt team kind base))
    (same : e.SameRoleName a b) :
    TransGen (e.Precedes team kind base) a b ∨ TransGen (e.Precedes team kind base) b a :=
  withDefaults_ordered isPair same

theorem NamedApart.sameRole_iff (apart : e.NamedApart team) (ranged : e.Ranged)
    (ha : a ∈ e.discoveredAt team kind base) (hb : b ∈ e.discoveredAt team kind base) :
    e.SameRoleName a b ↔ e.SameRole team a b := by
  constructor
  · intro same
    obtain ⟨role, isRole, has, -⟩ := exists_role_of_mem ha
    obtain ⟨other, isOther, has', -⟩ := exists_role_of_mem hb
    rw [SameRoleName, ranged.roleName_eq has, ranged.roleName_eq has'] at same
    obtain rfl := apart role isRole other isOther same
    exact ⟨role, isRole, has, has'⟩
  · rintro ⟨role, -, has, has'⟩
    rw [SameRoleName, ranged.roleName_eq has, ranged.roleName_eq has']

theorem AllInside.declaredAt_eq (allInside : e.AllInside team) :
    e.DeclaredAt team kind base = e.WrittenAt team kind base := by
  funext a b
  exact propext (and_congr_right fun _ => and_congr_left fun _ => ⟨Declares.written, allInside.declares⟩)

theorem AllInside.precedes_eq (allInside : e.AllInside team) (apart : e.NamedApart team) (ranged : e.Ranged) :
    e.Precedes team kind base = e.Outranks team kind base := by
  rw [Precedes, Outranks, allInside.declaredAt_eq]
  exact withDefaults_congr fun a ha b hb => apart.sameRole_iff ranged ha hb

theorem cycle_of_precedes (cycle : TransGen (e.Precedes team kind base) a a) :
    TransGen (e.DeclaredAt team kind base) a a :=
  (cycle_of_withDefaults nodup_discovered cycle cycle).1

end Graphs

end Env

namespace Resolve

variable {e e' : Env} {team : BindingId} {table : PrecedenceTable}

theorem settles_of_computePrecedence (ranged : e.Ranged)
    (built : (computePrecedence team).run e = (.ok table, e')) :
    ∃ entries declared before found,
      (collectCallins team).run e =
        (.ok (entries, declared.flatMap (Declared.edges entries)), before) ∧
      e' = before.raiseAll team found ∧
      e'.Collected team entries declared (joinPoints e' entries) ∧
      Settles entries (declared.flatMap (Declared.edges entries)) (joinPoints e' entries)
        table.joinPoints found := by
  obtain ⟨reported, ordered⟩ := orderCallins_of_computePrecedence built
  rw [orderCallins_eq] at ordered
  rcases outcome : (collectCallins team).run e with ⟨cause | ⟨entries, edges⟩, before⟩
  · cases (bind_apply_error outcome).symm.trans ordered
  · have triple : Triple 6 Env.Ranged (collectCallins team) _ := collectCallins_triple
    obtain ⟨-, declared, h, listed⟩ := triple.run ranged outcome
    dsimp only at h listed
    subst listed
    have finds : Finds team (orderCollected team entries (declared.flatMap (Declared.edges entries)))
      before _ := finds_orderCollected
    obtain ⟨result, found, runs, settles⟩ := finds
    obtain ⟨⟨⟩, rfl⟩ := Prod.mk.inj ((runs _).symm.trans ((bind_apply_ok outcome).symm.trans ordered))
    obtain ⟨d, same⟩ := before.raiseAll_eq team found
    have quiet : Proceeds 0 before none (before.raiseAll team found) := by
      rw [same]
      exact .step (.quiet (Env.same_of_kept rfl)) rfl
    have points : joinPoints (before.raiseAll team found) entries = joinPoints before entries := by
      rw [same]
      rfl
    refine ⟨entries, declared, before, found, rfl, rfl, (stable_collected quiet h).now, ?_⟩
    rwa [points]

end Resolve

namespace Env

variable {provider : Provider} {options : Options} {e e' : Env} {team : BindingId}
  {table : PrecedenceTable}

section Points

variable {entries : List Entry} {declared : List Declared} {points : List JoinPoint}
  {point p : JoinPoint} {found : List Finding} {left : List MappingId} {a b : MappingId}

theorem Collected.mem_unordered (h : e.Collected team entries declared points) (mem : point ∈ points) :
    (a, b) ∈ (graphAt entries (declared.flatMap (Declared.edges entries)) point).unordered point.order ↔
      [a, b].Sublist (e.discoveredAt team point.kind point.baseMethod) ∧ ¬ e.SameRoleName a b ∧
        ¬ TransGen (e.Precedes team point.kind point.baseMethod) a b ∧
        ¬ TransGen (e.Precedes team point.kind point.baseMethod) b a := by
  obtain ⟨exact', next⟩ := h.graphAt_exact mem
  rw [h.points.discovery point mem, ← discoveredAt, exact'.mem_unordered, next]
  refine and_congr_right fun isPair => (and_iff_right_of_imp ?_).symm
  rintro ⟨notThere, notBack⟩ same
  exact (precedes_of_sameRoleName isPair same).elim notThere notBack

theorem Collected.exists_sorted (h : e.Collected team entries declared points) (mem : point ∈ points)
    (arranges : Arranges entries (declared.flatMap (Declared.edges entries)) point p left) :
    ∃ sorted, sort? (graphOf entries (applicable (declared.flatMap (Declared.edges entries))
          (point.kind == .after)) (e.discoveredAt team point.kind point.baseMethod)).succ
          (e.discoveredAt team point.kind point.baseMethod) = some (sorted, left) ∧
      Sorted (graphAt entries (declared.flatMap (Declared.edges entries)) point).succ
        (e.discoveredAt team point.kind point.baseMethod) sorted left ∧ p.order = sorted ++ left := by
  obtain ⟨sorted, result, order⟩ := arranges.sorted
  obtain ⟨sorted', left', result', isSorted⟩ := exists_sort?_graphOf entries
    (applicable (declared.flatMap (Declared.edges entries)) (point.kind == .after)) point.order
  cases result.symm.trans result'
  rw [discoveredAt, ← h.points.discovery point mem]
  exact ⟨sorted, result, isSorted, order⟩

theorem Collected.mem_required (h : e.Collected team entries declared points)
    (settles : Settles entries (declared.flatMap (Declared.edges entries)) points table.joinPoints found)
    (mem : point ∈ points) : .required point.kind point.baseMethod a b ∈ found ↔
      [a, b].Sublist (e.discoveredAt team point.kind point.baseMethod) ∧ ¬ e.SameRoleName a b ∧
        ¬ TransGen (e.Precedes team point.kind point.baseMethod) a b ∧
        ¬ TransGen (e.Precedes team point.kind point.baseMethod) b a := by
  rw [settles.required]
  constructor
  · rintro ⟨other, known, ⟨kind, base⟩, isOpen⟩
    rwa [h.mem_unordered known, kind, base] at isOpen
  · exact fun isOpen => ⟨point, mem, ⟨rfl, rfl⟩, (h.mem_unordered mem).2 isOpen⟩

theorem Collected.ordered (h : e.Collected team entries declared points)
    (settles : Settles entries (declared.flatMap (Declared.edges entries)) points table.joinPoints found)
    (mem : point ∈ points) (none : ∀ a b, .required point.kind point.baseMethod a b ∉ found)
    (ha : a ∈ e.discoveredAt team point.kind point.baseMethod)
    (hb : b ∈ e.discoveredAt team point.kind point.baseMethod) (differ : a ≠ b) :
    TransGen (e.Precedes team point.kind point.baseMethod) a b ∨
      TransGen (e.Precedes team point.kind point.baseMethod) b a := by
  have related {a b : MappingId}
      (isPair : [a, b].Sublist (e.discoveredAt team point.kind point.baseMethod)) :
      TransGen (e.Precedes team point.kind point.baseMethod) a b ∨
        TransGen (e.Precedes team point.kind point.baseMethod) b a := by
    by_contra open'
    refine none a b ((h.mem_required settles mem).2 ⟨isPair, fun same => ?_, not_or.1 open'⟩)
    exact open' (precedes_of_sameRoleName isPair same)
  rcases sublist_or_sublist ha hb differ with isPair | isPair
  · exact related isPair
  · exact (related isPair).symm

theorem Collected.order_unique (h : e.Collected team entries declared points)
    (settles : Settles entries (declared.flatMap (Declared.edges entries)) points table.joinPoints found)
    (mem : point ∈ points)
    (arranges : Arranges entries (declared.flatMap (Declared.edges entries)) point p [])
    (none : ∀ a b, .required point.kind point.baseMethod a b ∉ found) {order : List MappingId}
    (perm : order.Perm p.order) :
    order = p.order ↔ Consistent (e.Precedes team point.kind point.baseMethod) order := by
  obtain ⟨exact', next⟩ := h.graphAt_exact mem
  obtain ⟨sorted, -, isSorted, same⟩ := h.exists_sorted mem arranges
  rw [List.append_nil] at same
  have members : p.order.Perm (e.discoveredAt team point.kind point.baseMethod) := by
    simpa [same] using isSorted.perm
  have consistent : Consistent (e.Precedes team point.kind point.baseMethod) p.order := by
    rw [same, ← next]
    exact isSorted.consistent exact'.onNodes
  constructor
  · rintro rfl
    exact consistent
  · intro other
    refine consistent.unique other (members.nodup_iff.2 nodup_discovered) perm fun a ha b hb => ?_
    exact h.ordered settles mem none (members.mem_iff.1 ha) (members.mem_iff.1 hb)

theorem Collected.declares_of_opposite {withAfter : Bool} (h : e.Collected team entries declared points)
    (opposite : Opposite (applicable (declared.flatMap (Declared.edges entries)) withAfter) a b) :
    ∃ kind, e.Declares team kind a b ∧ e.Declares team kind b a := by
  obtain ⟨there, back⟩ := opposite
  have declares (kind : CallinKind) (same : (kind == .after) = withAfter) :
      e.Declares team kind a b ∧ e.Declares team kind b a := by
    rw [← same, h.all] at there back
    exact ⟨(h.exists_edge_iff.1 there).1, (h.exists_edge_iff.1 back).1⟩
  cases withAfter with
  | false => exact ⟨.before, declares .before rfl⟩
  | true => exact ⟨.after, declares .after rfl⟩

theorem Collected.behind_cycle (h : e.Collected team entries declared points) (mem : point ∈ points)
    (arranges : Arranges entries (declared.flatMap (Declared.edges entries)) point p left)
    (isLeft : a ∈ left) :
    a ∈ p.order ∧ ∃ c, TransGen (e.DeclaredAt team point.kind point.baseMethod) c c ∧
      ReflTransGen (e.Precedes team point.kind point.baseMethod) c a := by
  obtain ⟨sorted, -, isSorted, order⟩ := h.exists_sorted mem arranges
  -- What is left over has a predecessor that is left over, and so leads back into a cycle.
  obtain ⟨c, -, cycle, way⟩ := isSorted.exists_cycle isLeft
  rw [(h.graphAt_exact mem).2] at cycle way
  refine ⟨?_, c, cycle_of_precedes cycle, way⟩
  rw [order]
  exact List.mem_append_right _ isLeft

end Points

/-- Two callins of a join point are found to be open exactly if their roles have different names and neither is
reached from the other. If no two are, and a sort leaves nothing over because there is no cycle, then the
order of the join point is the only one that is consistent. Where names tell the roles apart and all lists
stand inside, this is so with roles for their names and with all declared pairs. -/
theorem required_iff_open (reachable : Reachable provider options e)
    (built : (Resolve.computePrecedence team).run e = (.ok table, e')) :
    ∃ entries edges before found,
      (Resolve.collectCallins team).run e = (.ok (entries, edges), before) ∧
      e' = before.raiseAll team found ∧
      (∀ kind base a b, .required kind base a b ∈ found →
        ∃ p ∈ table.joinPoints, p.kind = kind ∧ p.baseMethod = base) ∧
      ∀ p ∈ table.joinPoints,
        (∀ m ∈ p.order, (∃ role ∈ e'.roles team, e'.HasCallin role m) ∧
          ∀ role, e'.HasCallin role m → e'.roleName m = (e'.binding role).simpleName) ∧
        (∀ a b, .required p.kind p.baseMethod a b ∈ found ↔
          [a, b].Sublist (e'.discoveredAt team p.kind p.baseMethod) ∧ ¬ e'.SameRoleName a b ∧
            ¬ TransGen (e'.Precedes team p.kind p.baseMethod) a b ∧
            ¬ TransGen (e'.Precedes team p.kind p.baseMethod) b a) ∧
        (∀ role a b, e'.HasCallin role a → e'.HasCallin role b →
          .required p.kind p.baseMethod a b ∉ found) ∧
        (e'.NamedApart team → e'.AllInside team →
          (∀ a ∈ p.order, ∀ b ∈ p.order, e'.SameRoleName a b ↔ e'.SameRole team a b) ∧
            e'.Precedes team p.kind p.baseMethod = e'.Outranks team p.kind p.baseMethod) ∧
        ∃ sorted left, sort? (graphOf entries (applicable edges (p.kind == .after))
            (e'.discoveredAt team p.kind p.baseMethod)).succ (e'.discoveredAt team p.kind p.baseMethod) =
              some (sorted, left) ∧
          p.order = sorted ++ left ∧
          (left = [] ↔ ∀ a, ¬ TransGen (e'.Precedes team p.kind p.baseMethod) a a) ∧
          ((∀ a b, .required p.kind p.baseMethod a b ∉ found) → left = [] →
            ∀ order, order.Perm p.order →
              (order = p.order ↔ Consistent (e'.Precedes team p.kind p.baseMethod) order)) := by
  obtain ⟨entries, declared, before, found, collect, raised, h, settles⟩ :=
    Resolve.settles_of_computePrecedence reachable.ranged built
  refine ⟨entries, _, before, found, collect, raised, fun kind base a b mem => ?_, fun p hp => ?_⟩
  · obtain ⟨point, known, ⟨rfl, rfl⟩, -⟩ := (settles.required kind base a b).1 mem
    obtain ⟨p, hp, left, arranges⟩ := exists_of_forall₂ settles.arranged.flip known
    exact ⟨p, hp, arranges.kind, arranges.base⟩
  · obtain ⟨point, known, left, arranges⟩ := exists_of_forall₂ settles.arranged hp
    rw [arranges.kind, arranges.base]
    have required (a b : MappingId) := h.mem_required settles (a := a) (b := b) known
    obtain ⟨sorted, result, isSorted, order⟩ := h.exists_sorted known arranges
    obtain ⟨exact', next⟩ := h.graphAt_exact known
    have members (m : MappingId) (mem : m ∈ p.order) :
        m ∈ e'.discoveredAt team point.kind point.baseMethod := by
      rwa [order, isSorted.perm.mem_iff] at mem
    refine ⟨fun m mem => ⟨?_, fun role => h.has.ranged.roleName_eq⟩, required, ?_, ?_, sorted, left, result,
      order, ?_, ?_⟩
    · obtain ⟨role, isRole, has, -⟩ := exists_role_of_mem (members m mem)
      exact ⟨role, isRole, has⟩
    · intro role a b ha hb mem
      refine ((required a b).1 mem).2.1 ?_
      rw [SameRoleName, h.has.ranged.roleName_eq ha, h.has.ranged.roleName_eq hb]
    · refine fun apart allInside => ⟨fun a ha b hb => ?_, allInside.precedes_eq apart h.has.ranged⟩
      exact apart.sameRole_iff h.has.ranged (members a ha) (members b hb)
    · rw [← next]
      exact isSorted.left_eq_nil_iff exact'.onNodes nodup_discovered
    · rintro none rfl order perm
      exact h.order_unique settles known arranges none perm

/-- A team with two callins of one role, the second of which comes before that of another role. -/
def ranked : UnitDecl where
  fileName := "T"
  types := [{ name := "B", methods := [{ name := "m" }] },
    { name := "T", modifiers := [.team]
      memberTypes := [
        { name := "R", playedBy := some (.ofName "B"), methods := [{ name := "x" }]
          callins := [
            { label := some "a", roleMethod := { name := "x" }, kind := .before
              baseMethods := [{ name := "m" }] },
            { label := some "b", roleMethod := { name := "x" }, kind := .before
              baseMethods := [{ name := "m" }] }] },
        callinRole "S" "c" "y"]
      precedences := [{ elements := ["b", "c"] }] }]

def declaring (unit : UnitDecl) : Env := declaringAll [unit]

theorem reachable_declaring {unit : UnitDecl} : Reachable .empty {} (declaring unit) := reachable_declaringAll

theorem precedence_ranked :
    ((Resolve.computePrecedence ⟨1⟩).run (declaring ranked)).1.toOption.map
        (·.joinPoints.map (·.order)) = some [[⟨0⟩, ⟨1⟩, ⟨2⟩]] ∧
      ((Resolve.computePrecedence ⟨1⟩).run (declaring ranked)).2.roleName ⟨0⟩ =
        ((Resolve.computePrecedence ⟨1⟩).run (declaring ranked)).2.roleName ⟨1⟩ := by
  decide +kernel

theorem required_iff_open_ranked :
    ∃ table, ∃ e' before : Env, ∃ found : List Finding,
      (Resolve.computePrecedence ⟨1⟩).run (declaring ranked) = (.ok table, e') ∧
      table.joinPoints.map (·.order) = [[⟨0⟩, ⟨1⟩, ⟨2⟩]] ∧ e' = before.raiseAll ⟨1⟩ found ∧
      e'.SameRoleName ⟨0⟩ ⟨1⟩ ∧
      ∀ p ∈ table.joinPoints, .required p.kind p.baseMethod ⟨0⟩ ⟨1⟩ ∉ found := by
  obtain ⟨orders, same⟩ := precedence_ranked
  rcases built : (Resolve.computePrecedence ⟨1⟩).run (declaring ranked) with ⟨cause | table, e'⟩
  · rw [built] at orders
    cases orders
  · rw [built] at orders same
    obtain ⟨_, _, before, found, -, raised, -, points⟩ := required_iff_open reachable_declaring built
    refine ⟨table, e', before, found, rfl, Option.some.inj orders, raised, same, fun p hp isOpen => ?_⟩
    exact (((points p hp).2.1 ⟨0⟩ ⟨1⟩).1 isOpen).2.1 same

instance {role : BindingId} {m : MappingId} : Decidable (e.HasCallin role m) :=
  inferInstanceAs (Decidable (_ ∨ ∃ tsuper ∈ e.tsuperRoles role, _))

instance {a b : MappingId} : Decidable (e.SameRole team a b) :=
  inferInstanceAs (Decidable (∃ role ∈ e.roles team, _))

/-- A team with two roles whose names end alike, and a third one in a file of its own, whose list puts its callin
before that of the first. -/
def namesakes : List UnitDecl :=
  [{ fileName := "T"
     package := "p"
     types := [{ name := "B", methods := [{ name := "m" }] },
       { name := "T", modifiers := [.team]
         memberTypes := [callinRole "R" "a" "x", callinRole "A$R" "b" "x"] }] },
   { fileName := "S"
     package := "p"
     teamPackage := some "p.T"
     types := [{ callinRole "S" "c" "x" with precedences := [{ elements := ["c", "a"] }] }] }]

theorem precedences_namesakes {b : BindingId} {decl : PrecedenceDecl}
    (listed : decl ∈ ((ordering namesakes).binding b).precedences) :
    b = ⟨4⟩ ∧ decl.after = false ∧ decl.elements = ["c", "a"] := by
  have known : ∀ i < (ordering namesakes).bindings.size, ∀ decl ∈ ((ordering namesakes).binding ⟨i⟩).precedences,
      i = 4 ∧ decl.after = false ∧ decl.elements = ["c", "a"] := by
    decide +kernel
  have inside : b.index < (ordering namesakes).bindings.size := by
    refine lt_size_of_ne_default fun none => ?_
    rw [none] at listed
    cases listed
  obtain ⟨same, holds⟩ := known b.index inside decl listed
  exact ⟨congrArg BindingId.mk same, holds⟩

theorem written_namesakes {kind : CallinKind} {a b : MappingId} (h : (ordering namesakes).Written ⟨1⟩ kind a b) :
    a = ⟨2⟩ ∧ b = ⟨0⟩ := by
  obtain ⟨t, d, above, stands, puts⟩ := h
  have top : ∀ s ∈ ((ordering namesakes).slot (.supertypes ⟨1⟩)).get?, ∀ c ∈ s.superclass.bind bindingOf?,
      ((ordering namesakes).binding c).isTeam = false := by
    decide +kernel
  obtain rfl := above.eq_of_top top
  have inside : ∀ m ∈ ((ordering namesakes).binding ⟨1⟩).writtenTypes, m.precedences = [] := by decide +kernel
  have elements : ["c", "a"].flatMap (resolveElement ((ordering namesakes).entries ⟨1⟩)
      (some ((ordering namesakes).binding ⟨4⟩).simpleName)) = [⟨2⟩, ⟨0⟩] := by
    decide +kernel
  obtain (⟨listed, -⟩ | ⟨hm, listed, -⟩) | ⟨-, listed, role⟩ := stands
  · cases (precedences_namesakes listed).1
  · rw [inside _ hm] at listed
    cases listed
  · obtain ⟨rfl, after, names⟩ := precedences_namesakes listed
    rw [Declared.Puts, Declared.callins, role, after, names, if_neg (by decide), elements] at puts
    have both : [a, b] = [⟨2⟩, ⟨0⟩] := puts.eq_of_length rfl
    simpa using both

/-- No role has two of the callins, so the one pair that is declared is all there is. -/
theorem outranks_namesakes :
    (ordering namesakes).Outranks ⟨1⟩ .before ⟨1⟩ = fun a b => a = ⟨2⟩ ∧ b = ⟨0⟩ := by
  have discovered : (ordering namesakes).discoveredAt ⟨1⟩ .before ⟨1⟩ = [⟨0⟩, ⟨1⟩, ⟨2⟩] := by decide +kernel
  have apart : ∀ pair ∈ pairs [⟨0⟩, ⟨1⟩, ⟨2⟩], ¬ (ordering namesakes).SameRole ⟨1⟩ pair.1 pair.2 := by
    decide +kernel
  have same : (ordering namesakes).Outranks ⟨1⟩ .before ⟨1⟩ = (ordering namesakes).WrittenAt ⟨1⟩ .before ⟨1⟩ := by
    refine withDefaults_of_apart fun a b isPair => ?_
    rw [discovered] at isPair
    exact apart (a, b) (mem_pairs.2 isPair)
  rw [same]
  funext a b
  rw [WrittenAt, discovered]
  refine propext ⟨?_, ?_⟩
  · rintro ⟨-, written, -⟩
    exact written_namesakes written
  · rintro ⟨rfl, rfl⟩
    obtain ⟨isTeam, enclosing, isRole⟩ : ((ordering namesakes).binding ⟨1⟩).isTeam = true ∧
        ((ordering namesakes).binding ⟨4⟩).enclosing = some ⟨1⟩ ∧
          ((ordering namesakes).binding ⟨4⟩).isRole = true := by
      decide +kernel
    obtain ⟨decl, stands, puts⟩ : ∃ decl ∈ ((ordering namesakes).binding ⟨4⟩).precedences,
        Declared.Puts ((ordering namesakes).entries ⟨1⟩) .before
          ⟨decl, some ((ordering namesakes).binding ⟨4⟩).simpleName, true⟩ ⟨2⟩ ⟨0⟩ := by
      decide +kernel
    exact ⟨by decide, ⟨⟨1⟩, _, .self isTeam, .ofRole ⟨enclosing, isRole⟩ stands rfl, puts⟩, by decide⟩

/-- Two callins of different roles whose names end alike are open and not reported, and two are reported that are
declared in order by the list of a role file. -/
theorem exists_open_not_required :
    ∃ e' table, Reachable .empty {} (declaringAll namesakes) ∧
      (Resolve.computePrecedence ⟨1⟩).run (declaringAll namesakes) = (.ok table, e') ∧
      ∃ p ∈ table.joinPoints, ∃ a b c, p.order = [a, b, c] ∧
        (e'.diagnostics.withId .precedenceRequired).map (·.arguments) =
          [[e'.methodName p.baseMethod, e'.mappingName a, e'.mappingName c],
            [e'.methodName p.baseMethod, e'.mappingName b, e'.mappingName c]] ∧
        [e'.mappingName a, e'.mappingName b, e'.mappingName c].Nodup ∧
        (¬ e'.SameRole ⟨1⟩ a b ∧ ¬ TransGen (e'.Outranks ⟨1⟩ p.kind p.baseMethod) a b ∧
          ¬ TransGen (e'.Outranks ⟨1⟩ p.kind p.baseMethod) b a) ∧
        TransGen (e'.Outranks ⟨1⟩ p.kind p.baseMethod) c a := by
  obtain ⟨table, built, only⟩ := exists_table_ordering namesakes ⟨⟨1⟩, .before, [⟨0⟩, ⟨1⟩, ⟨2⟩]⟩
    (by decide +kernel)
  have reported : ((ordering namesakes).diagnostics.withId .precedenceRequired).map (·.arguments) =
      [["p.B.m", "R.a", "S.c"], ["p.B.m", "R.b", "S.c"]] := by
    decide +kernel
  have named : [(ordering namesakes).methodName ⟨1⟩, (ordering namesakes).mappingName ⟨0⟩,
      (ordering namesakes).mappingName ⟨1⟩, (ordering namesakes).mappingName ⟨2⟩] =
        ["p.B.m", "R.a", "R.b", "S.c"] := by
    decide +kernel
  injection named with base named
  injection named with first named
  injection named with second named
  injection named with third
  have apart : ¬ (ordering namesakes).SameRole ⟨1⟩ ⟨0⟩ ⟨1⟩ := by decide +kernel
  have last {a b : MappingId} (way : TransGen (fun a b : MappingId => a = ⟨2⟩ ∧ b = ⟨0⟩) a b) : a = ⟨2⟩ := by
    obtain ⟨c, ⟨start, -⟩, -⟩ := TransGen.head'_iff.1 way
    exact start
  refine ⟨ordering namesakes, table, reachable_declaringAll, built, ⟨⟨1⟩, .before, [⟨0⟩, ⟨1⟩, ⟨2⟩]⟩, ?_⟩
  rw [only]
  refine ⟨List.mem_singleton_self _, ⟨0⟩, ⟨1⟩, ⟨2⟩, rfl, ?_⟩
  rw [base, first, second, third, outranks_namesakes]
  refine ⟨reported, by decide, ⟨apart, fun way => ?_, fun way => ?_⟩, .single ⟨rfl, rfl⟩⟩
  · cases last way
  · cases last way

/-- Callins are called incompatible if they are declared both ways, or if each of them is on a cycle of
declared pairs of a join point or behind one. -/
theorem incompatible_behind_cycle (reachable : Reachable provider options e)
    (built : (Resolve.computePrecedence team).run e = (.ok table, e')) :
    ∃ collected before found, (Resolve.collectCallins team).run e = (.ok collected, before) ∧
      e' = before.raiseAll team found ∧
      ∀ span a b, .incompatible span a b ∈ found →
        (∃ kind, e'.Declares team kind a b ∧ e'.Declares team kind b a) ∨
        ∃ p ∈ table.joinPoints, ∀ m ∈ [a, b], m ∈ p.order ∧
          ∃ c, TransGen (e'.DeclaredAt team p.kind p.baseMethod) c c ∧
            ReflTransGen (e'.Precedes team p.kind p.baseMethod) c m := by
  obtain ⟨entries, declared, before, found, collect, raised, h, settles⟩ :=
    Resolve.settles_of_computePrecedence reachable.ranged built
  refine ⟨_, before, found, collect, raised, fun span a b mem => ?_⟩
  rcases settles.incompatible span a b mem with ⟨withAfter, opposite⟩ |
    ⟨point, known, _, left, arranges, first, second⟩
  · exact .inl (h.declares_of_opposite opposite)
  · obtain ⟨p, hp, left', arranges'⟩ := exists_of_forall₂ settles.arranged.flip known
    obtain rfl : left' = left := arranges'.left_eq arranges
    refine .inr ⟨p, hp, ?_⟩
    rw [arranges'.kind, arranges'.base]
    simpa using ⟨h.behind_cycle known arranges' first, h.behind_cycle known arranges' second⟩

/-- A team whose declarations order three callins in a circle, and a fourth one behind the first. -/
def circular : UnitDecl where
  fileName := "U"
  package := "p"
  types := [{ name := "B", methods := [{ name := "m" }] },
    { name := "T", modifiers := [.team]
      memberTypes := [callinRole "P" "a" "x", callinRole "Q" "b" "x", callinRole "R" "c" "x",
        callinRole "S" "d" "x"]
      precedences := [{ elements := ["a", "b"] }, { elements := ["b", "c"] }, { elements := ["c", "a"] },
        { elements := ["a", "d"] }] }]

theorem collected_circular :
    ((Resolve.collectCallins ⟨1⟩).run (declaring circular)).1.toOption.map
      (·.2.map fun edge => (edge.high, edge.low)) =
        some [(⟨0⟩, ⟨1⟩), (⟨1⟩, ⟨2⟩), (⟨2⟩, ⟨0⟩), (⟨0⟩, ⟨3⟩)] ∧
    ((Resolve.collectCallins ⟨1⟩).run (declaring circular)).2.diagnostics.withId
      .incompatiblePrecedence = [] := by
  decide +kernel

theorem precedence_circular :
    ((Resolve.computePrecedence ⟨1⟩).run (declaring circular)).1.toOption.map
        (·.joinPoints.map (·.order)) = some [[⟨0⟩, ⟨1⟩, ⟨2⟩, ⟨3⟩]] ∧
      (((Resolve.computePrecedence ⟨1⟩).run (declaring circular)).2.diagnostics.withId
        .incompatiblePrecedence).map (·.arguments) = [["P.a", "S.d"]] ∧
      ((Resolve.computePrecedence ⟨1⟩).run (declaring circular)).2.mappingName ⟨0⟩ = "P.a" ∧
      ((Resolve.computePrecedence ⟨1⟩).run (declaring circular)).2.mappingName ⟨3⟩ = "S.d" := by
  decide +kernel

theorem incompatible_behind_cycle_circular :
    ∃ table, ∃ e' before : Env, ∃ found : List Finding,
      (Resolve.computePrecedence ⟨1⟩).run (declaring circular) = (.ok table, e') ∧
      e' = before.raiseAll ⟨1⟩ found ∧ found ≠ [] ∧
      ∀ span a b, .incompatible span a b ∈ found →
        (∃ kind, e'.Declares ⟨1⟩ kind a b ∧ e'.Declares ⟨1⟩ kind b a) ∨
        ∃ p ∈ table.joinPoints, ∀ m ∈ [a, b], m ∈ p.order ∧
          ∃ c, TransGen (e'.DeclaredAt ⟨1⟩ p.kind p.baseMethod) c c ∧
            ReflTransGen (e'.Precedes ⟨1⟩ p.kind p.baseMethod) c m := by
  obtain ⟨orders, named, -⟩ := precedence_circular
  obtain ⟨-, unnamed⟩ := collected_circular
  rcases built : (Resolve.computePrecedence ⟨1⟩).run (declaring circular) with ⟨cause | table, e'⟩
  · rw [built] at orders
    cases orders
  · rw [built] at named
    obtain ⟨_, before, found, collected, raised, holds⟩ :=
      incompatible_behind_cycle reachable_declaring built
    refine ⟨table, e', before, found, rfl, raised, ?_, holds⟩
    rintro rfl
    rw [collected] at unnamed
    have same : e' = before := raised
    rw [same, unnamed] at named
    cases named

/-- The callin behind the circle is named, though nothing is declared to come after it. -/
theorem exists_incompatible_in_order :
    ∃ table, ∃ e e' : Env, ∃ a b, Reachable .empty {} e ∧
      (Resolve.computePrecedence ⟨1⟩).run e = (.ok table, e') ∧
      (e'.diagnostics.withId .incompatiblePrecedence).map (·.arguments) =
        [[e'.mappingName a, e'.mappingName b]] ∧
      ∀ kind, ¬ TransGen (e'.Declares ⟨1⟩ kind) b a := by
  obtain ⟨orders, named, first, second⟩ := precedence_circular
  obtain ⟨edges, -⟩ := collected_circular
  rcases built : (Resolve.computePrecedence ⟨1⟩).run (declaring circular) with ⟨cause | table, e'⟩
  · rw [built] at orders
    cases orders
  · rw [built] at named first second
    refine ⟨table, _, e', ⟨0⟩, ⟨3⟩, reachable_declaring, built, by rw [named, first, second], ?_⟩
    obtain ⟨entries, declared, before, _, collected, -, h, -⟩ :=
      Resolve.settles_of_computePrecedence reachable_declaring.ranged built
    rw [collected] at edges
    have edges : (declared.flatMap (Declared.edges entries)).map (fun edge => (edge.high, edge.low)) =
        [(⟨0⟩, ⟨1⟩), (⟨1⟩, ⟨2⟩), (⟨2⟩, ⟨0⟩), (⟨0⟩, ⟨3⟩)] := Option.some.inj edges
    have last (kind : CallinKind) (m : MappingId) (declares : e'.Declares ⟨1⟩ kind ⟨3⟩ m) : m = ⟨3⟩ := by
      by_contra differ
      obtain ⟨edge, applies, high, -⟩ := h.exists_edge_iff.2 ⟨declares, Ne.symm differ⟩
      rw [← h.all] at applies
      have listed := List.mem_map_of_mem (f := fun edge : Edge => (edge.high, edge.low))
        (List.mem_filter.1 applies).1
      rw [edges, high] at listed
      simp at listed
    intro kind way
    have stays : ∀ m, TransGen (e'.Declares ⟨1⟩ kind) ⟨3⟩ m → m = ⟨3⟩ := by
      intro m way
      induction way with
      | single declares => exact last kind _ declares
      | tail _ declares ih => exact last kind _ (ih ▸ declares)
    cases stays ⟨0⟩ way

end Env

end TeamRoles
