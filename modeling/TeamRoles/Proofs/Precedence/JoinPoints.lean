import TeamRoles.Proofs.Precedence.Graph

/-!
The callins of a team without those that are redefined, and the join points at which they meet.
-/

namespace TeamRoles.Precedence

/-- An inherited callin whose label an earlier one of the same role has is redefined. -/
def Entry.isRedefined (before : List Entry) (entry : Entry) : Bool :=
  entry.inherited && entry.label.isSome &&
    before.any fun other => other.role == entry.role && other.label == entry.label

def unredefined (before : List Entry) : List Entry → List Entry
  | [] => []
  | entry :: rest =>
    if entry.isRedefined before then unredefined (before ++ [entry]) rest
    else entry :: unredefined (before ++ [entry]) rest

def keep (kept : List Entry) (entry : Entry) : List Entry :=
  if entry.isRedefined kept then kept else kept ++ [entry]

theorem unredefined_subset {before l : List Entry} : unredefined before l ⊆ l := by
  induction l generalizing before with
  | nil => exact List.nil_subset _
  | cons entry rest ih =>
    rw [unredefined]
    split
    · exact List.subset_cons_of_subset _ ih
    · exact List.cons_subset_cons _ ih

theorem mem_unredefined_from {before l : List Entry} {entry : Entry} : entry ∈ unredefined before l ↔
    ∃ pre post, l = pre ++ entry :: post ∧ ¬ entry.isRedefined (before ++ pre) := by
  induction l generalizing before with
  | nil => simp [unredefined]
  | cons first rest ih =>
    have later : (∃ pre post, rest = pre ++ entry :: post ∧ ¬ entry.isRedefined (before ++ [first] ++ pre)) ↔
        ∃ pre post, first :: rest = (first :: pre) ++ entry :: post ∧
          ¬ entry.isRedefined (before ++ first :: pre) := by simp
    have known : entry ∈ unredefined before (first :: rest) ↔
        (entry = first ∧ ¬ first.isRedefined before) ∨ entry ∈ unredefined (before ++ [first]) rest := by
      rw [unredefined]
      split
      · next redefined => simp [redefined]
      · next new => simp [new]
    rw [known, ih, later]
    constructor
    · rintro (⟨rfl, new⟩ | ⟨pre, post, split, new⟩)
      · exact ⟨[], rest, rfl, by simpa using new⟩
      · exact ⟨first :: pre, post, split, new⟩
    · rintro ⟨pre, post, split, new⟩
      cases pre with
      | nil =>
        obtain ⟨rfl, -⟩ := List.cons.inj split
        exact .inl ⟨rfl, by simpa using new⟩
      | cons a pre =>
        obtain ⟨rfl, -⟩ := List.cons.inj split
        exact .inr ⟨pre, post, split, new⟩

theorem mem_unredefined {l : List Entry} {entry : Entry} : entry ∈ unredefined [] l ↔
    ∃ pre post, l = pre ++ entry :: post ∧ ¬ entry.isRedefined pre := mem_unredefined_from

theorem isRedefined_iff {before : List Entry} {entry : Entry} :
    entry.isRedefined before = true ↔ (entry.inherited = true ∧ entry.label.isSome = true) ∧
      ∃ other ∈ before, other.role = entry.role ∧ other.label = entry.label := by
  simp [Entry.isRedefined]

theorem isRedefined_keep {before kept : List Entry} {entry : Entry}
    (same : ∀ other : Entry, other.isRedefined kept = other.isRedefined before) (other : Entry) :
    other.isRedefined (keep kept entry) = other.isRedefined (before ++ [entry]) := by
  have met (l : List Entry) : other.isRedefined (l ++ [entry]) = true ↔
      other.isRedefined l = true ∨ (other.inherited = true ∧ other.label.isSome = true) ∧
        entry.role = other.role ∧ entry.label = other.label := by
    simp only [isRedefined_iff, List.mem_append, List.mem_singleton]
    grind
  rw [Bool.eq_iff_iff, met]
  unfold keep
  split
  · next redefined =>
    obtain ⟨-, first, isKept, role, label⟩ := isRedefined_iff.1 redefined
    rw [same]
    refine ⟨.inl, fun h => h.elim id fun ⟨inherited, role', label'⟩ => ?_⟩
    rw [← same]
    exact isRedefined_iff.2 ⟨inherited, first, isKept, role.trans role', label.trans label'⟩
  · rw [met, same]

theorem foldl_keep {l before kept : List Entry}
    (same : ∀ other : Entry, other.isRedefined kept = other.isRedefined before) :
    l.foldl keep kept = kept ++ unredefined before l := by
  induction l generalizing before kept with
  | nil => simp [unredefined]
  | cons entry rest ih =>
    rw [List.foldl_cons, ih (isRedefined_keep same), unredefined, keep, same]
    split
    · rfl
    · simp

theorem foldl_keep_own {l kept : List Entry} (own : ∀ entry ∈ l, entry.inherited = false) :
    l.foldl keep kept = kept ++ l := by
  induction l generalizing kept with
  | nil => simp
  | cons entry rest ih =>
    obtain ⟨first, others⟩ := List.forall_mem_cons.1 own
    rw [List.foldl_cons, ih others, keep, Entry.isRedefined, first]
    simp

abbrev Use := MappingId × CallinKind × MethodId

def usesOf (e : Env) (m : MappingId) : List Use :=
  match (e.mapping m).kind.callin? with
  | none => []
  | some kind => (e.mapping m).baseMethods.map (m, kind, ·)

theorem mem_usesOf {e : Env} {m n : MappingId} {kind : CallinKind} {base : MethodId} :
    (n, kind, base) ∈ usesOf e m ↔
      n = m ∧ (e.mapping m).kind.callin? = some kind ∧ base ∈ (e.mapping m).baseMethods := by
  unfold usesOf
  split
  · next none => simp [none]
  · next given => simp [given, eq_comm, and_left_comm]

def discovered (uses : List Use) (kind : CallinKind) (base : MethodId) : List MappingId :=
  addAll [] ((uses.filter fun use => use.2 = (kind, base)).map Prod.fst)

structure PointsOf (uses : List Use) (points : List JoinPoint) : Prop where
  keys : (points.map fun p => (p.kind, p.baseMethod)).Nodup
  discovery : ∀ p ∈ points, p.order = discovered uses p.kind p.baseMethod
  complete : ∀ use ∈ uses, ∃ p ∈ points, (p.kind, p.baseMethod) = use.2

section Points

variable {uses : List Use} {points : List JoinPoint} {m n : MappingId} {kind kind' : CallinKind}
  {base base' : MethodId} {p : JoinPoint}

theorem mem_discovered : m ∈ discovered uses kind base ↔ (m, kind, base) ∈ uses := by
  simp [discovered, mem_addAll]

theorem nodup_discovered : (discovered uses kind base).Nodup := nodup_addAll List.nodup_nil

theorem PointsOf.orders (h : PointsOf uses points) (p : JoinPoint) (mem : p ∈ points) :
    p.order.Nodup ∧ ∀ m, m ∈ p.order ↔ (m, p.kind, p.baseMethod) ∈ uses := by
  rw [h.discovery p mem]
  exact ⟨nodup_discovered, fun _ => mem_discovered⟩

theorem discovered_append : discovered (uses ++ [(m, kind, base)]) kind' base' =
    if (base', kind') = (base, kind) ∧ m ∉ discovered uses kind' base' then
      discovered uses kind' base' ++ [m]
    else discovered uses kind' base' := by
  by_cases here : (base', kind') = (base, kind)
  · cases here
    simp only [discovered, List.filter_append, List.map_append, addAll_append]
    grind [addAll]
  · have elsewhere : ¬ (kind = kind' ∧ base = base') := by grind
    simp [discovered, here, elsewhere]

/-- A join point with one callin more, if it is the callin's and does not have it. -/
def extend (m : MappingId) (kind : CallinKind) (base : MethodId) (p : JoinPoint) : JoinPoint :=
  if (p.baseMethod == base && p.kind == kind) && !p.order.contains m then
    { p with order := p.order ++ [m] }
  else p

@[simp]
theorem kind_extend : (extend m kind base p).kind = p.kind := by
  unfold extend
  split <;> rfl

@[simp]
theorem baseMethod_extend : (extend m kind base p).baseMethod = p.baseMethod := by
  unfold extend
  split <;> rfl

theorem order_extend (known : p.order = discovered uses p.kind p.baseMethod) :
    (extend m kind base p).order = discovered (uses ++ [(m, kind, base)]) p.kind p.baseMethod := by
  rw [discovered_append, ← known]
  unfold extend
  simp only [Bool.and_eq_true, beq_iff_eq, Bool.not_eq_true', List.contains_eq_mem,
    decide_eq_false_iff_not, Prod.mk.injEq]
  split <;> rfl

theorem PointsOf.map_extend (h : PointsOf uses points)
    (here : (kind, base) ∈ points.map fun p => (p.kind, p.baseMethod)) :
    PointsOf (uses ++ [(m, kind, base)]) (points.map (extend m kind base)) := by
  have keys : (points.map (extend m kind base)).map (fun p => (p.kind, p.baseMethod)) =
      points.map fun p => (p.kind, p.baseMethod) := by simp [Function.comp_def]
  refine ⟨by rw [keys]; exact h.keys, ?_, ?_⟩
  · intro p' hp'
    obtain ⟨p, hp, rfl⟩ := List.mem_map.1 hp'
    rw [kind_extend, baseMethod_extend, order_extend (h.discovery p hp)]
  · have known (use : Use) (hu : use ∈ uses ++ [(m, kind, base)]) :
        use.2 ∈ points.map fun p => (p.kind, p.baseMethod) := by
      rcases List.mem_append.1 hu with old | new
      · exact List.mem_map.2 (h.complete use old)
      · rw [List.mem_singleton.1 new]
        exact here
    intro use hu
    exact List.mem_map.1 (keys ▸ known use hu)

theorem PointsOf.append (h : PointsOf uses points)
    (nowhere : (kind, base) ∉ points.map fun p => (p.kind, p.baseMethod)) :
    PointsOf (uses ++ [(m, kind, base)]) (points ++ [⟨base, kind, [m]⟩]) := by
  have none : discovered uses kind base = [] := by
    rw [List.eq_nil_iff_forall_not_mem]
    intro n used
    exact nowhere (List.mem_map.2 (h.complete _ (mem_discovered.1 used)))
  refine ⟨?_, ?_, ?_⟩
  · rw [List.map_append, List.nodup_append]
    refine ⟨h.keys, by simp, fun key old key' new => ?_⟩
    rw [List.mem_singleton.1 new]
    rintro rfl
    exact nowhere old
  · intro p hp
    rcases List.mem_append.1 hp with old | new
    · rw [discovered_append, if_neg, h.discovery p old]
      rintro ⟨⟨⟩, -⟩
      exact nowhere (List.mem_map_of_mem old)
    · rw [List.mem_singleton.1 new, discovered_append, none]
      simp
  · intro use hu
    rcases List.mem_append.1 hu with old | new
    · obtain ⟨p, hp, key⟩ := h.complete use old
      exact ⟨p, List.mem_append_left _ hp, key⟩
    · rw [List.mem_singleton.1 new]
      exact ⟨_, List.mem_append_right _ (List.mem_singleton_self _), rfl⟩

theorem PointsOf.add (h : PointsOf uses points) :
    PointsOf (uses ++ [(m, kind, base)]) (joinPoints.add m kind points base) := by
  have here : points.any (fun p => p.baseMethod == base && p.kind == kind) = true ↔
      (kind, base) ∈ points.map fun p => (p.kind, p.baseMethod) := by
    simp [and_comm]
  unfold joinPoints.add
  extract_lets isHere
  split
  · next any => exact h.map_extend (here.1 any)
  · next none => exact h.append fun any => none (here.2 any)

theorem PointsOf.foldl_add {more : List Use} (h : PointsOf uses points) :
    PointsOf (uses ++ more)
      (more.foldl (fun points use => joinPoints.add use.1 use.2.1 points use.2.2) points) := by
  induction more generalizing uses points with
  | nil => simpa using h
  | cons use more ih => simpa using ih h.add

end Points

theorem joinPoints_eq_foldl {e : Env} {entries : List Entry} :
    joinPoints e entries = (entries.flatMap fun entry => usesOf e entry.mapping).foldl
      (fun points use => joinPoints.add use.1 use.2.1 points use.2.2) [] := by
  rw [List.foldl_flatMap, joinPoints]
  congr 1
  funext points entry
  unfold usesOf
  cases (e.mapping entry.mapping).kind.callin? with
  | none => rfl
  | some kind => rw [List.foldl_map]

theorem pointsOf_joinPoints {e : Env} {entries : List Entry} :
    PointsOf (entries.flatMap fun entry => usesOf e entry.mapping) (joinPoints e entries) := by
  have empty : PointsOf [] [] := ⟨List.nodup_nil, nofun, nofun⟩
  rw [joinPoints_eq_foldl]
  exact empty.foldl_add

end TeamRoles.Precedence
