import TeamRoles.Proofs.Precedence.Consistent
import TeamRoles.Proofs.Precedence.Written
import TeamRoles.Proofs.Session.Reachable

/-!
The order of the callins at a join point. It has callins that are bound there, each of them once, and keeps to
the declarations inside the team and its super-teams as long as these do not contradict each other. A list in a
role that is written elsewhere is passed over (`exists_written_not_kept`).
-/

namespace TeamRoles

namespace Precedence

def Declared.callins (entries : List Entry) (d : Declared) : List MappingId :=
  d.decl.elements.flatMap (resolveElement entries d.role)

def Declared.edges (entries : List Entry) (d : Declared) : List Edge :=
  edgesOf d.decl (d.callins entries)

/-- The first one is to come before the second where callins of the kind meet. An `after` list orders
nothing but `after` callins, and those backwards. -/
def Declared.Puts (entries : List Entry) (kind : CallinKind) (d : Declared) (high low : MappingId) :
    Prop :=
  if d.decl.after then kind = .after ∧ [low, high].Sublist (d.callins entries)
  else [high, low].Sublist (d.callins entries)

theorem Declared.exists_edge_iff {entries : List Entry} {kind : CallinKind} {d : Declared}
    {high low : MappingId} :
    (∃ edge ∈ applicable (d.edges entries) (kind == .after), edge.high = high ∧ edge.low = low) ↔
      d.Puts entries kind high low ∧ high ≠ low := by
  simp only [applicable, edges, edgesOf, List.mem_filter, List.mem_map, Declared.Puts]
  constructor
  · rintro ⟨_, ⟨⟨⟨a, b⟩, ⟨isPair, differ⟩, rfl⟩, applies⟩, rfl, rfl⟩
    rw [mem_pairs] at isPair
    have differ : a ≠ b := by simpa using differ
    cases after : d.decl.after with
    | true =>
      have isAfter : kind = .after := by simpa [after] using applies
      exact ⟨⟨isAfter, isPair⟩, differ.symm⟩
    | false => exact ⟨isPair, differ⟩
  · rintro ⟨puts, differ⟩
    cases after : d.decl.after with
    | true =>
      rw [after, if_pos rfl] at puts
      obtain ⟨rfl, listed⟩ := puts
      exact ⟨_, ⟨⟨(low, high), ⟨mem_pairs.2 listed, by simpa using differ.symm⟩, rfl⟩, by simp⟩, rfl, rfl⟩
    | false =>
      rw [after, if_neg (by simp)] at puts
      exact ⟨_, ⟨⟨(high, low), ⟨mem_pairs.2 puts, by simpa using differ⟩, rfl⟩, by simp⟩, rfl, rfl⟩

/-- A join point after its callins have been put in order. -/
structure Orders (edges : List Edge) (isClean : Prop) (point ordered : JoinPoint) : Prop where
  key : (ordered.kind, ordered.baseMethod) = (point.kind, point.baseMethod)
  perm : ordered.order.Perm point.order
  respects : isClean → ∀ edge ∈ applicable edges (point.kind == .after), edge.high ≠ edge.low →
    edge.high ∈ point.order → edge.low ∈ point.order → [edge.high, edge.low].Sublist ordered.order

theorem Orders.weaken {edges : List Edge} {P Q : Prop} {point ordered : JoinPoint}
    (h : Orders edges P point ordered) (implies : Q → P) : Orders edges Q point ordered :=
  ⟨h.key, h.perm, fun clean => h.respects (implies clean)⟩

theorem exists_sort?_graphOf (entries : List Entry) (edges : List Edge) (members : List MappingId) :
    ∃ sorted left, sort? (graphOf entries edges members).succ members = some (sorted, left) ∧
      Sorted (graphOf entries edges members).succ members sorted left :=
  exists_sort? over_graphOf.closed

theorem Sorted.orders {entries : List Entry} {edges : List Edge} {point : JoinPoint}
    {sorted left : List MappingId}
    (h : Sorted (graphOf entries (applicable edges (point.kind == .after)) point.order).succ
      point.order sorted left) :
    Orders edges (left = []) point { point with order := sorted ++ left } where
  key := rfl
  perm := h.perm
  respects := by
    rintro rfl edge declared differ high low
    rw [List.append_nil]
    exact h.sublist (mem_graphOf declared high low) differ high low

end Precedence

open Precedence

namespace Env

/-- A list inside the declaration of the team, or of one of its super-teams, puts the first callin before the
second. -/
def Declares (e : Env) (team : BindingId) (kind : CallinKind) (high low : MappingId) : Prop :=
  ∃ t d, e.SuperTeam team t ∧ e.ListsInside t d ∧ d.Puts (e.entries team) kind high low

/-- As `Declares`, with the lists of all roles, wherever these are written. -/
def Written (e : Env) (team : BindingId) (kind : CallinKind) (high low : MappingId) : Prop :=
  ∃ t d, e.SuperTeam team t ∧ e.ListsAnywhere t d ∧ d.Puts (e.entries team) kind high low

theorem Declares.written {e : Env} {team : BindingId} {kind : CallinKind} {high low : MappingId}
    (h : e.Declares team kind high low) : e.Written team kind high low := by
  obtain ⟨t, d, above, stands, puts⟩ := h
  exact ⟨t, d, above, .inside stands, puts⟩

theorem AllInside.declares {e : Env} {team : BindingId} {kind : CallinKind} {high low : MappingId}
    (allInside : e.AllInside team) (h : e.Written team kind high low) : e.Declares team kind high low := by
  obtain ⟨t, d, above, stands, puts⟩ := h
  exact ⟨t, d, above, allInside t d above stands, puts⟩

/-- A callin of the team, own or inherited without being redefined, is of the kind and bound to the method. -/
def BoundAt (e : Env) (team : BindingId) (kind : CallinKind) (base : MethodId) (m : MappingId) : Prop :=
  (∃ role ∈ e.roles team, e.HasUnredefined role m) ∧
    (e.mapping m).kind.callin? = some kind ∧ base ∈ (e.mapping m).baseMethods

def TakesPartAt (e : Env) (team : BindingId) (kind : CallinKind) (base : MethodId) (m : MappingId) : Prop :=
  e.TakesPart team m ∧ (e.mapping m).kind.callin? = some kind ∧ base ∈ (e.mapping m).baseMethods

theorem TakesPartAt.boundAt {e : Env} {team : BindingId} {kind : CallinKind} {base : MethodId} {m : MappingId}
    (h : e.TakesPartAt team kind base m) : e.BoundAt team kind base m :=
  ⟨h.1.unredefined, h.2⟩

theorem BoundAt.displaced_or {e : Env} {team : BindingId} {kind : CallinKind} {base : MethodId} {m : MappingId}
    (h : e.BoundAt team kind base m) : e.Displaced team m ∨ e.TakesPartAt team kind base m := by
  obtain ⟨⟨role, isRole, has⟩, bound⟩ := h
  exact (has.takesPart_or isRole).symm.imp_right fun part => ⟨part, bound⟩

def uses (e : Env) (team : BindingId) : List Use :=
  (e.entries team).flatMap fun entry => usesOf e entry.mapping

theorem mem_uses {e : Env} {team : BindingId} {m : MappingId} {kind : CallinKind} {base : MethodId} :
    (m, kind, base) ∈ e.uses team ↔ e.TakesPartAt team kind base m := by
  simp only [uses, TakesPartAt, TakesPart, List.mem_flatMap, List.mem_map, mem_usesOf]
  grind

/-- What is known of a team when its join points are put in order. -/
structure Collected (e : Env) (team : BindingId) (entries : List Entry) (declared : List Declared)
    (points : List JoinPoint) : Prop where
  has : e.HasEntries team
  all : entries = e.entries team
  surveyed : ∃ seen, e.Surveyed team seen [] declared
  points : PointsOf (e.uses team) points

theorem Collected.now {e : Env} {team : BindingId} {entries : List Entry} {declared : List Declared}
    {points : List JoinPoint} (h : e.Collected team entries declared points) :
    e.Collected team entries declared (joinPoints e entries) := by
  obtain ⟨has, rfl, surveyed, -⟩ := h
  exact ⟨has, rfl, surveyed, pointsOf_joinPoints⟩

theorem HasEntries.uses_eq {e e' : Env} {team : BindingId} (h : e.HasEntries team)
    (lasts : e.Lasts e') (ranged' : e'.Ranged) : e'.uses team = e.uses team := by
  rw [uses, uses, (h.of_lasts lasts ranged').2]
  refine List.flatMap_congr fun entry mem => ?_
  rw [usesOf, usesOf, lasts.mapping_eq (h.lt_of_mem mem)]

theorem HasEntries.lt_size {e : Env} {team : BindingId} (h : e.HasEntries team) :
    team.index < e.bindings.size := by
  obtain ⟨members, resolved⟩ := h.members
  refine lt_size_of_ne_default fun default => ?_
  rw [slot, Binding.memberTypes, default] at resolved
  cases resolved

end Env

namespace Resolve

variable {ℓ : Nat} {team : BindingId} {entries : List Entry} {edges : List Edge}

theorem Triple.mapM_eq {α β : Type} {l : List α} {f : α → Resolve β} {g : α → β}
    (hf : ∀ a, Triple ℓ (fun _ => True) (f a) fun b _ => b = g a) :
    Triple ℓ (fun _ => True) (l.mapM f) fun bs _ => bs = l.map g := by
  suffices loop : ∀ bs, Triple ℓ (fun _ => True) (List.mapM.loop f l bs)
      fun found _ => found = bs.reverse ++ l.map g from loop []
  induction l with
  | nil => exact fun bs => .pure fun _ _ => by simp
  | cons a l ih =>
    intro bs
    refine (hf a).framed_bind (fun _ _ _ _ => id) (fun _ _ => trivial) fun b => .assume ?_
    rintro rfl
    exact (ih (g a :: bs)).post fun _ _ h => by simpa using h

theorem declaredEdges_triple {d : Declared} :
    Triple ℓ (fun _ => True) (declaredEdges team entries d) fun edges _ => edges = d.edges entries := by
  refine .bind (Triple.mapM_eq (g := resolveElement entries d.role) fun element => ?_) fun callins =>
    .pure ?_
  · exact .ite (Lawful.before lawful_reportFor fun _ => .pure fun _ _ => rfl) (.pure fun _ _ => rfl)
  · rintro _ rfl
    rfl

theorem checkLeftover_triple {left : List MappingId} {reported : Reported} :
    Triple ℓ (fun _ => True) (checkLeftover team left reported)
      fun reported' _ => reported' = [] → reported = [] ∧ left = [] := by
  unfold checkLeftover
  split
  · split
    · next known =>
      refine .pure ?_
      rintro _ - rfl
      simp at known
    · exact Lawful.get.before fun _ => Lawful.before lawful_reportIncompatible fun _ => .pure nofun
  · next empty =>
    refine .pure fun _ _ clean => ⟨clean, ?_⟩
    cases left with
    | nil => rfl
    | cons a left => exact (empty a _ rfl (List.getLast?_cons)).elim

theorem orderJoinPoint_triple {point : JoinPoint} {reported : Reported} :
    Triple ℓ (fun _ => True) (orderJoinPoint team entries edges point reported)
      fun result _ => (result.2 = [] → reported = []) ∧ Orders edges (result.2 = []) point result.1 := by
  refine Lawful.get.before fun e => Lawful.before (.forM fun _ => lawful_reportFor) fun _ => ?_
  obtain ⟨sorted, left, found, isSorted⟩ :=
    exists_sort?_graphOf entries (applicable edges (point.kind == .after)) point.order
  rw [found]
  refine .bind checkLeftover_triple fun reported' => .pure fun _ settled => ?_
  exact ⟨fun clean => (settled clean).1, isSorted.orders.weaken fun clean => (settled clean).2⟩

def Ordered (edges : List Edge) (before : List JoinPoint) (done : List JoinPoint × Reported) : Prop :=
  (done.1.map fun p => (p.kind, p.baseMethod)) = (before.map fun p => (p.kind, p.baseMethod)) ∧
    ∀ p ∈ done.1, ∃ point ∈ before, Orders edges (done.2 = []) point p

theorem orderJoinPoints_triple {points : List JoinPoint} {reported : Reported} :
    Triple ℓ (fun _ => True)
      (points.foldlM (fun (done, reported) point => do
        let (point, reported) ← orderJoinPoint team entries edges point reported
        return (done ++ [point], reported)) (([] : List JoinPoint), reported))
      fun result _ => Ordered edges points result := by
  refine Triple.pre (P := fun _ => Ordered edges [] ([], reported)) ?_ fun _ _ => ⟨rfl, nofun⟩
  refine Triple.post (.foldlM (I := fun before result _ => Ordered edges before result) ?_) fun _ _ => id
  rintro before point - ⟨done, reported⟩
  refine (Triple.framed orderJoinPoint_triple (fun _ _ _ _ => id) fun _ _ => trivial).bind ?_
  rintro ⟨ordered, reported'⟩
  refine .pure ?_
  rintro e ⟨⟨clean, orders⟩, keys, done⟩
  refine ⟨?_, fun p hp => ?_⟩
  · simp only [List.map_append, keys, List.map_singleton, orders.key]
  · rcases List.mem_append.1 hp with old | new
    · obtain ⟨point, mem, orders⟩ := done p old
      exact ⟨point, List.mem_append_left _ mem, orders.weaken clean⟩
    · rw [List.mem_singleton.1 new]
      exact ⟨point, List.mem_append_right _ (List.mem_singleton_self _), orders⟩

theorem stable_hasEntries :
    Stable ℓ fun e => e.HasEntries team ∧ entries = e.entries team := by
  rintro e r e' runs ⟨has, rfl⟩
  obtain ⟨has', same⟩ := has.of_lasts runs.lasts (runs.ranged has.ranged)
  exact ⟨has', same.symm⟩

theorem stable_collected {declared : List Declared} {points : List JoinPoint} :
    Stable ℓ fun e => e.Collected team entries declared points := by
  intro e r e' runs h
  obtain ⟨has, all⟩ := stable_hasEntries runs ⟨h.has, h.all⟩
  obtain ⟨seen, surveyed⟩ := h.surveyed
  refine ⟨has, all, ⟨seen, stable_surveyed runs surveyed⟩, ?_⟩
  rw [h.has.uses_eq runs.lasts has.ranged]
  exact h.points

def collectCallins (team : BindingId) : Resolve (List Entry × List Edge) := do
  let entries ← precedenceEntries team
  checkDuplicateLabels entries
  let declared ← precedenceDeclarations team
  let edges ← declared.mapM (declaredEdges team entries)
  return (entries, edges.flatten)

/-- The callins at each join point in their order, once they have been collected. -/
def orderCollected (team : BindingId) (entries : List Entry) (edges : List Edge) :
    Resolve (List JoinPoint × Reported) := do
  let reported ← checkOppositeEdges team (applicable edges false) []
  let reported ← checkOppositeEdges team edges reported
  let points := joinPoints (← get) entries
  points.foldlM (fun (done, reported) point => do
    let (point, reported) ← orderJoinPoint team entries edges point reported
    return (done ++ [point], reported)) (([] : List JoinPoint), reported)

theorem orderCallins_eq :
    orderCallins team = collectCallins team >>= fun c => orderCollected team c.1 c.2 := by
  simp only [orderCallins, orderRelisted, id, collectCallins, orderCollected, bind_assoc, pure_bind]

theorem collectCallins_triple :
    Triple (ℓ + 6) Env.Ranged (collectCallins team) fun c e => ∃ declared,
      e.Collected team c.1 declared (joinPoints e c.1) ∧
        c.2 = declared.flatMap (Declared.edges c.1) := by
  refine .bind precedenceEntries_triple fun entries => ?_
  refine Lawful.keeping lawful_checkDuplicateLabels stable_hasEntries fun _ => ?_
  refine .framed_bind precedenceDeclarations_triple stable_hasEntries
    (fun e h => ⟨h.1.ranged, h.1.lt_size⟩) fun declared => ?_
  have stable : Stable (ℓ + 6) fun e => (∃ seen, e.Surveyed team seen [] declared) ∧
      e.HasEntries team ∧ entries = e.entries team := by
    rintro e r e' runs ⟨⟨seen, surveyed⟩, has⟩
    exact ⟨⟨seen, stable_surveyed runs surveyed⟩, stable_hasEntries runs has⟩
  refine (Triple.mapM_eq fun d => declaredEdges_triple).framed_bind stable (fun _ _ => trivial)
    fun edges => .pure ?_
  rintro e ⟨rfl, surveyed, has, rfl⟩
  exact ⟨declared, ⟨has, rfl, surveyed, pointsOf_joinPoints⟩, List.flatMap_def.symm⟩

theorem orderCallins_triple :
    Triple (ℓ + 6) Env.Ranged (orderCallins team) fun result e => ∃ declared points,
      e.Collected team (e.entries team) declared points ∧
        Ordered (declared.flatMap (Declared.edges (e.entries team))) points result := by
  rw [orderCallins_eq]
  refine .bind collectCallins_triple fun c => ?_
  obtain ⟨entries, edges⟩ := c
  dsimp only
  have stable : Stable (ℓ + 6) fun e => ∃ declared,
      e.Collected team entries declared (joinPoints e entries) ∧
        edges = declared.flatMap (Declared.edges entries) := by
    rintro e r e' runs ⟨declared, h, all⟩
    exact ⟨declared, (stable_collected runs h).now, all⟩
  refine Lawful.keeping lawful_checkOppositeEdges stable fun _ => ?_
  refine Lawful.keeping lawful_checkOppositeEdges stable fun reported => .get_bind fun e => ?_
  refine .of_start ?_
  rintro start ⟨rfl, declared, h, rfl⟩
  refine Triple.pre (P := fun e' => e'.Collected team entries declared (joinPoints start entries)) ?_ ?_
  · refine (Triple.framed orderJoinPoints_triple stable_collected fun _ _ => trivial).post ?_
    rintro result e' ⟨ordered, h⟩
    obtain rfl := h.all
    exact ⟨declared, _, h, ordered⟩
  · rintro _ rfl
    exact h

theorem orderCallins_of_computePrecedence {e e' : Env} {table : PrecedenceTable}
    (built : (computePrecedence team).run e = (.ok table, e')) :
    ∃ reported, (orderCallins team).run e = (.ok (table.joinPoints, reported), e') := by
  unfold run computePrecedence at built
  unfold run
  rcases outcome : orderCallins team (oracle maxDepth) e with ⟨result, e₁⟩
  cases result with
  | error cause =>
    rw [bind_apply_error outcome] at built
    cases built
  | ok result =>
    rw [bind_apply_ok outcome] at built
    cases built
    exact ⟨result.2, rfl⟩

end Resolve

namespace Env

variable {provider : Provider} {options : Options} {e e' : Env} {team : BindingId}

theorem Collected.exists_edge_iff {entries : List Entry} {declared : List Declared}
    {points : List JoinPoint} {kind : CallinKind} {high low : MappingId}
    (h : e.Collected team entries declared points) :
    (∃ edge ∈ applicable (declared.flatMap (Declared.edges (e.entries team))) (kind == .after),
      edge.high = high ∧ edge.low = low) ↔ e.Declares team kind high low ∧ high ≠ low := by
  obtain ⟨seen, surveyed⟩ := h.surveyed
  have apart : applicable (declared.flatMap (Declared.edges (e.entries team))) (kind == .after) =
      declared.flatMap fun d => applicable (d.edges (e.entries team)) (kind == .after) := by
    rw [applicable, List.filter_flatMap]
    rfl
  rw [apart]
  constructor
  · rintro ⟨edge, mem, ends⟩
    obtain ⟨d, found, mem⟩ := List.mem_flatMap.1 mem
    obtain ⟨puts, differ⟩ := Declared.exists_edge_iff.1 ⟨edge, mem, ends⟩
    obtain ⟨t, above, stands⟩ := surveyed.mem_found_iff.1 found
    exact ⟨⟨t, d, above, (mem_declarationsIn.1 stands).1, puts⟩, differ⟩
  · rintro ⟨⟨t, d, above, stands, puts⟩, differ⟩
    obtain ⟨edge, mem, ends⟩ := Declared.exists_edge_iff.2 ⟨puts, differ⟩
    -- Whether a list is the team's own matters for what is reported, not for what it orders.
    have listed : { d with own := t == team } ∈ Resolve.declarationsIn (e.binding t) (t == team) :=
      mem_declarationsIn.2 ⟨stands.withOwn, rfl⟩
    have found := surveyed.mem_found_iff.2 ⟨t, above, listed⟩
    exact ⟨edge, List.mem_flatMap.2 ⟨_, found, mem⟩, ends⟩

theorem Collected.edge {entries : List Entry} {declared : List Declared} {points : List JoinPoint}
    {kind : CallinKind} {high low : MappingId} (h : e.Collected team entries declared points)
    (puts : e.Declares team kind high low) (differ : high ≠ low) :
    ∃ edge ∈ applicable (declared.flatMap (Declared.edges (e.entries team))) (kind == .after),
      edge.high = high ∧ edge.low = low :=
  h.exists_edge_iff.2 ⟨puts, differ⟩

/-- A sort of callins does not fail. Every join point of a team has callins that are bound there, each of them
once, and all of them but those whose label is taken. Unless two callins were recorded as incompatible it has
them in the order that the team and its super-teams declare inside. -/
theorem joinPoints_ordered (provider : Provider) (options : Options) :
    (∀ entries edges members, (sort? (graphOf entries edges members).succ members).isSome) ∧
    ∀ {e e' team table}, Reachable provider options e →
      (Resolve.computePrecedence team).run e = (.ok table, e') →
      ∃ reported, (Resolve.orderCallins team).run e = (.ok (table.joinPoints, reported), e') ∧
        (table.joinPoints.map fun p => (p.kind, p.baseMethod)).Nodup ∧
        (∀ kind base m, e'.BoundAt team kind base m → e'.Displaced team m ∨
          ∃ p ∈ table.joinPoints, p.kind = kind ∧ p.baseMethod = base ∧ m ∈ p.order) ∧
        ∀ p ∈ table.joinPoints,
          p.order.Nodup ∧ (∀ m ∈ p.order, e'.BoundAt team p.kind p.baseMethod m) ∧
          (reported = [] → ∀ high low, high ≠ low → high ∈ p.order → low ∈ p.order →
            (e'.Declares team p.kind high low → [high, low].Sublist p.order) ∧
            (e'.AllInside team → e'.Written team p.kind high low → [high, low].Sublist p.order)) := by
  refine ⟨fun entries edges members => ?_, fun {e e' team table} reachable built => ?_⟩
  · obtain ⟨sorted, left, found, -⟩ := exists_sort?_graphOf entries edges members
    exact Option.isSome_of_eq_some found
  · obtain ⟨reported, run⟩ := Resolve.orderCallins_of_computePrecedence built
    have triple : Resolve.Triple 6 _ (Resolve.orderCallins team) _ := Resolve.orderCallins_triple
    obtain ⟨-, declared, points, h, keys, ordered⟩ := triple.run reachable.ranged run
    -- Sorting permutes a join point, so its callins are those that were collected there.
    have known (p : JoinPoint) (hp : p ∈ table.joinPoints) :
        p.order.Nodup ∧ ∀ m, m ∈ p.order ↔ e'.TakesPartAt team p.kind p.baseMethod m := by
      obtain ⟨point, mem, orders⟩ := ordered p hp
      obtain ⟨nodup, uses⟩ := h.points.orders point mem
      obtain ⟨kind, base⟩ := Prod.mk.inj orders.key
      exact ⟨orders.perm.nodup_iff.2 nodup, fun m => by rw [orders.perm.mem_iff, uses, mem_uses, kind, base]⟩
    refine ⟨reported, run, by rw [keys]; exact h.points.keys, fun kind base m bound => ?_, fun p hp => ?_⟩
    · refine bound.displaced_or.imp_right fun part => ?_
      have key := List.mem_map.2 (h.points.complete (m, kind, base) (mem_uses.2 part))
      rw [← keys] at key
      obtain ⟨p, hp, same⟩ := List.mem_map.1 key
      obtain ⟨rfl, rfl⟩ := Prod.mk.inj same
      exact ⟨p, hp, rfl, rfl, ((known p hp).2 m).2 part⟩
    · obtain ⟨nodup, members⟩ := known p hp
      obtain ⟨point, mem, orders⟩ := ordered p hp
      refine ⟨nodup, fun m hm => ((members m).1 hm).boundAt, fun clean high low differ hh hl => ?_⟩
      have kept (puts : e'.Declares team p.kind high low) : [high, low].Sublist p.order := by
        obtain ⟨edge, applies, rfl, rfl⟩ := h.edge puts differ
        rw [(Prod.mk.inj orders.key).1] at applies
        exact orders.respects clean edge applies differ (orders.perm.mem_iff.1 hh) (orders.perm.mem_iff.1 hl)
      exact ⟨kept, fun allInside written => kept (allInside.declares written)⟩

instance {entries : List Entry} {kind : CallinKind} {d : Declared} {high low : MappingId} :
    Decidable (d.Puts entries kind high low) :=
  inferInstanceAs (Decidable (if d.decl.after then _ else _))

def declaringAll (units : List UnitDecl) : Env :=
  ((Operation.addUnits units).perform.run { options := {}, provider := .empty }).2

theorem reachable_declaringAll {units : List UnitDecl} : Reachable .empty {} (declaringAll units) :=
  .step (.addUnits units) (.new rfl)

/-- The session with these units after the callins of the second type have been put in order. -/
def ordering (units : List UnitDecl) : Env := ((Resolve.computePrecedence ⟨1⟩).run (declaringAll units)).2

theorem exists_table_ordering (units : List UnitDecl) (point : JoinPoint)
    (computed : ((Resolve.computePrecedence ⟨1⟩).run (declaringAll units)).1.toOption.map
      (·.joinPoints.map fun p => (p.baseMethod, p.kind, p.order)) =
        some [(point.baseMethod, point.kind, point.order)]) :
    ∃ table, (Resolve.computePrecedence ⟨1⟩).run (declaringAll units) = (.ok table, ordering units) ∧
      table.joinPoints = [point] := by
  rw [ordering]
  rcases built : (Resolve.computePrecedence ⟨1⟩).run (declaringAll units) with ⟨cause | table, e'⟩
  · rw [built] at computed
    cases computed
  · rw [built] at computed
    obtain ⟨p, only, same⟩ := List.map_eq_singleton_iff.1 (Option.some.inj computed)
    cases p
    cases point
    cases same
    exact ⟨table, rfl, only⟩

/-- A role that is played by `B`, with a callin of a label to the method `m`. -/
def callinRole (name label method : String) : TypeDecl where
  name
  playedBy := some (.ofName "B")
  methods := [{ name := method }]
  callins := [{
    label := some label, roleMethod := { name := method }, kind := .before,
    baseMethods := [{ name := "m" }] }]

/-- A team that puts its second role before the first one. -/
def reordered : UnitDecl where
  fileName := "T"
  types := [{ name := "B", methods := [{ name := "m" }] },
    { name := "T", modifiers := [.team]
      memberTypes := [callinRole "R" "r" "a", callinRole "S" "s" "b"]
      precedences := [{ elements := ["S", "R"] }] }]

theorem joinPoints_ordered_reordered :
    ∃ e e' table, Reachable .empty {} e ∧
      (Resolve.computePrecedence ⟨1⟩).run e = (.ok table, e') ∧
      e'.Declares ⟨1⟩ .before ⟨1⟩ ⟨0⟩ ∧
      table.joinPoints.map (fun p => (p.kind, p.order)) = [(.before, [⟨1⟩, ⟨0⟩])] ∧
      ∀ p ∈ table.joinPoints, p.order.Nodup ∧ [⟨1⟩, ⟨0⟩].Sublist p.order := by
  obtain ⟨table, built, only⟩ := exists_table_ordering [reordered] ⟨⟨1⟩, .before, [⟨1⟩, ⟨0⟩]⟩ (by decide +kernel)
  have unreported : ((Resolve.orderCallins ⟨1⟩).run (declaringAll [reordered])).1.toOption.map (·.2) =
      some [] := by
    decide +kernel
  have isTeam : ((ordering [reordered]).binding ⟨1⟩).isTeam = true := by decide +kernel
  obtain ⟨d, mem, puts⟩ : ∃ d ∈ Resolve.declarationsIn ((ordering [reordered]).binding ⟨1⟩) true,
      d.Puts ((ordering [reordered]).entries ⟨1⟩) .before ⟨1⟩ ⟨0⟩ := by
    decide +kernel
  have declares : (ordering [reordered]).Declares ⟨1⟩ .before ⟨1⟩ ⟨0⟩ :=
    ⟨⟨1⟩, d, .self isTeam, (mem_declarationsIn.1 mem).1, puts⟩
  refine ⟨_, _, table, reachable_declaringAll, built, declares, by rw [only]; rfl, fun p hp => ?_⟩
  obtain ⟨reported, run, -, -, points⟩ := (joinPoints_ordered _ _).2 reachable_declaringAll built
  obtain ⟨nodup, -, respects⟩ := points p hp
  rw [run] at unreported
  rw [only, List.mem_singleton] at hp
  subst hp
  exact ⟨nodup, (respects (Option.some.inj unreported) ⟨1⟩ ⟨0⟩ (by decide) (by decide) (by decide)).1 declares⟩

/-- A team without a type inside, and a role of it in a file of its own, which orders its two callins backwards. -/
def filed : List UnitDecl :=
  [{ fileName := "T"
     package := "p"
     types := [{ name := "B", methods := [{ name := "m" }] }, { name := "T", modifiers := [.team] }] },
   { fileName := "R"
     package := "p"
     teamPackage := some "p.T"
     types := [{ callinRole "R" "a" "x" with
       callins := (callinRole "R" "a" "x").callins ++ (callinRole "R" "b" "x").callins
       precedences := [{ elements := ["b", "a"] }] }] }]

/-- The list of a role that is written in a role file is not kept to, and nothing is recorded. -/
theorem exists_written_not_kept :
    ∃ e' table high low, Reachable .empty {} (declaringAll filed) ∧
      (Resolve.computePrecedence ⟨1⟩).run (declaringAll filed) = (.ok table, e') ∧
      (Resolve.orderCallins ⟨1⟩).run (declaringAll filed) = (.ok (table.joinPoints, []), e') ∧
      ∃ p ∈ table.joinPoints, e'.Written ⟨1⟩ p.kind high low ∧ high ≠ low ∧ high ∈ p.order ∧ low ∈ p.order ∧
        ¬ [high, low].Sublist p.order := by
  obtain ⟨table, built, only⟩ := exists_table_ordering filed ⟨⟨1⟩, .before, [⟨0⟩, ⟨1⟩]⟩ (by decide +kernel)
  have unreported : ((Resolve.orderCallins ⟨1⟩).run (declaringAll filed)).1.toOption.map (·.2) = some [] := by
    decide +kernel
  obtain ⟨isTeam, enclosing, isRole⟩ : ((ordering filed).binding ⟨1⟩).isTeam = true ∧
      ((ordering filed).binding ⟨2⟩).enclosing = some ⟨1⟩ ∧ ((ordering filed).binding ⟨2⟩).isRole = true := by
    decide +kernel
  obtain ⟨decl, stands, puts⟩ : ∃ decl ∈ ((ordering filed).binding ⟨2⟩).precedences,
      Declared.Puts ((ordering filed).entries ⟨1⟩) .before
        ⟨decl, some ((ordering filed).binding ⟨2⟩).simpleName, true⟩ ⟨1⟩ ⟨0⟩ := by
    decide +kernel
  have written : (ordering filed).Written ⟨1⟩ .before ⟨1⟩ ⟨0⟩ :=
    ⟨⟨1⟩, _, .self isTeam, .ofRole ⟨enclosing, isRole⟩ stands rfl, puts⟩
  obtain ⟨reported, run⟩ := Resolve.orderCallins_of_computePrecedence built
  rw [run] at unreported
  obtain rfl : reported = [] := Option.some.inj unreported
  refine ⟨ordering filed, table, ⟨1⟩, ⟨0⟩, reachable_declaringAll, built, run, ⟨⟨1⟩, .before, [⟨0⟩, ⟨1⟩]⟩, ?_⟩
  rw [only]
  exact ⟨List.mem_singleton_self _, written, by decide, by decide, by decide, by decide⟩

end Env

end TeamRoles
