import TeamRoles.Proofs.Pairing.Basic
import TeamRoles.Proofs.Precedence.Order

/-!
What is found wrong while the callins of a team are put in order. That is all the environment learns of
it: a pair that is declared both ways, two callins of a join point that nothing orders, and the ends of
what a sort leaves over.
-/

namespace TeamRoles

open Precedence

namespace Precedence

inductive Finding where
  | required (kind : CallinKind) (base : MethodId) (first second : MappingId)
  | incompatible (span : Span) (first second : MappingId)

def Opposite (edges : List Edge) (a b : MappingId) : Prop :=
  (∃ edge ∈ edges, edge.high = a ∧ edge.low = b) ∧ ∃ edge ∈ edges, edge.high = b ∧ edge.low = a

def graphAt (entries : List Entry) (edges : List Edge) (point : JoinPoint) : Graph MappingId :=
  graphOf entries (applicable edges (point.kind == .after)) point.order

/-- A join point after its callins have been sorted, with those that are left over. -/
structure Arranges (entries : List Entry) (edges : List Edge) (point ordered : JoinPoint)
    (left : List MappingId) : Prop where
  kind : ordered.kind = point.kind
  base : ordered.baseMethod = point.baseMethod
  sorted : ∃ sorted, sort? (graphAt entries edges point).succ point.order = some (sorted, left) ∧
    ordered.order = sorted ++ left

structure Explains (entries : List Entry) (edges : List Edge) (point : JoinPoint)
    (left : List MappingId) (found : List Finding) : Prop where
  required : ∀ kind base a b, .required kind base a b ∈ found ↔
    (point.kind = kind ∧ point.baseMethod = base) ∧
      (a, b) ∈ (graphAt entries edges point).unordered point.order
  incompatible : ∀ span a b, .incompatible span a b ∈ found → a ∈ left ∧ b ∈ left

structure Settles (entries : List Entry) (edges : List Edge) (points ordered : List JoinPoint)
    (found : List Finding) : Prop where
  arranged : List.Forall₂ (fun point p => ∃ left, Arranges entries edges point p left) points ordered
  required : ∀ kind base a b, .required kind base a b ∈ found ↔
    ∃ point ∈ points, (point.kind = kind ∧ point.baseMethod = base) ∧
      (a, b) ∈ (graphAt entries edges point).unordered point.order
  incompatible : ∀ span a b, .incompatible span a b ∈ found →
    (∃ withAfter, Opposite (applicable edges withAfter) a b) ∨
      ∃ point ∈ points, ∃ p left, Arranges entries edges point p left ∧ a ∈ left ∧ b ∈ left

def Contradictions (P : MappingId → MappingId → Prop) (found : List Finding) : Prop :=
  ∀ f ∈ found, ∃ span a b, f = .incompatible span a b ∧ P a b

theorem exists_of_forall₂ {α β : Type} {R : α → β → Prop} {l : List α} {l' : List β}
    (h : List.Forall₂ R l l') {b : β} (mem : b ∈ l') : ∃ a ∈ l, R a b := by
  induction h with
  | nil => cases mem
  | cons first _ ih =>
    rcases List.mem_cons.1 mem with rfl | mem
    · exact ⟨_, List.mem_cons_self, first⟩
    · obtain ⟨a, ha, related⟩ := ih mem
      exact ⟨a, List.mem_cons_of_mem _ ha, related⟩

section Pairs

variable {entries : List Entry} {edges : List Edge} {points ordered : List JoinPoint}
  {point p : JoinPoint} {left : List MappingId} {found more : List Finding}
  {P P' : MappingId → MappingId → Prop} {a b : MappingId}

theorem Arranges.left_eq {p' : JoinPoint} {left' : List MappingId}
    (h : Arranges entries edges point p left) (h' : Arranges entries edges point p' left') :
    left = left' := by
  obtain ⟨_, result, -⟩ := h.sorted
  obtain ⟨_, result', -⟩ := h'.sorted
  cases result.symm.trans result'
  rfl

theorem orderedPair_mem (symm : ∀ {a b}, P a b → P b a) (h : P a b) :
    P (orderedPair a b).1 (orderedPair a b).2 := by
  unfold orderedPair
  split
  · exact h
  · exact symm h

theorem Opposite.symm (h : Opposite edges a b) : Opposite edges b a := And.symm h

theorem contradictions_nil : Contradictions P [] := nofun

theorem Contradictions.append (h : Contradictions P found) (h' : Contradictions P more) :
    Contradictions P (found ++ more) := by
  intro f mem
  exact (List.mem_append.1 mem).elim (h f) (h' f)

theorem Contradictions.imp (h : Contradictions P found) (imp : ∀ a b, P a b → P' a b) :
    Contradictions P' found := by
  intro f mem
  obtain ⟨span, a, b, same, holds⟩ := h f mem
  exact ⟨span, a, b, same, imp a b holds⟩

theorem Contradictions.not_required (h : Contradictions P found) {kind : CallinKind} {base : MethodId} :
    .required kind base a b ∉ found := by
  intro mem
  obtain ⟨_, _, _, same, -⟩ := h _ mem
  cases same

theorem Contradictions.incompatible (h : Contradictions P found) {span : Span}
    (mem : .incompatible span a b ∈ found) : P a b := by
  obtain ⟨_, _, _, same, holds⟩ := h _ mem
  cases same
  exact holds

theorem Settles.start
    (h : Contradictions (fun a b => ∃ withAfter, Opposite (applicable edges withAfter) a b) found) :
    Settles entries edges [] [] found where
  arranged := .nil
  required kind base a b := by simpa using h.not_required
  incompatible span a b mem := .inl (h.incompatible mem)

theorem Settles.add (h : Settles entries edges points ordered found)
    (arranges : Arranges entries edges point p left) (explains : Explains entries edges point left more) :
    Settles entries edges (points ++ [point]) (ordered ++ [p]) (found ++ more) where
  arranged := List.rel_append h.arranged (.cons ⟨left, arranges⟩ .nil)
  required kind base a b := by
    rw [List.mem_append, h.required, explains.required]
    simp [or_and_right, exists_or]
  incompatible span a b mem := by
    rcases List.mem_append.1 mem with old | new
    · refine (h.incompatible span a b old).imp id ?_
      rintro ⟨point, known, left⟩
      exact ⟨point, List.mem_append_left _ known, left⟩
    · exact .inr ⟨point, by simp, p, left, arranges, explains.incompatible span a b new⟩

end Pairs

end Precedence

namespace Env

def raise (e : Env) (team : BindingId) : Finding → Env
  | .required _ base a b =>
    e.report ((e.binding team).unit?.map fun u => (e.unit u).decl.fileName) .precedenceRequired
      (e.mapping b).span [e.methodName base, e.mappingName a, e.mappingName b]
  | .incompatible span a b =>
    e.report ((e.binding team).unit?.map fun u => (e.unit u).decl.fileName) .incompatiblePrecedence
      span [e.mappingName a, e.mappingName b]

def raiseAll (e : Env) (team : BindingId) (found : List Finding) : Env :=
  found.foldl (fun e f => e.raise team f) e

theorem raiseAll_append {e : Env} {team : BindingId} {found more : List Finding} :
    e.raiseAll team (found ++ more) = (e.raiseAll team found).raiseAll team more :=
  List.foldl_append

theorem raiseAll_eq (e : Env) (team : BindingId) (found : List Finding) :
    ∃ d, e.raiseAll team found = { e with diagnostics := d } := by
  induction found generalizing e with
  | nil => exact ⟨e.diagnostics, rfl⟩
  | cons f found ih =>
    obtain ⟨d, same⟩ := ih (e.raise team f)
    refine ⟨d, same.trans ?_⟩
    cases f <;> rfl

end Env

namespace Resolve

variable {α β : Type} {team : BindingId} {e : Env}

/-- The resolution answers, and does nothing but report what it finds. -/
def Finds (team : BindingId) (x : Resolve α) (e : Env) (Q : α → List Finding → Prop) : Prop :=
  ∃ a found, (∀ o, x o e = (.ok a, e.raiseAll team found)) ∧ Q a found

namespace Finds

variable {x : Resolve α} {f : α → Resolve β} {Q Q' : α → List Finding → Prop}
  {R : β → List Finding → Prop}

theorem pure {a : α} (h : Q a []) : Finds team (pure a) e Q := ⟨a, [], fun _ => rfl, h⟩

theorem post (h : Finds team x e Q) (post : ∀ a found, Q a found → Q' a found) :
    Finds team x e Q' := by
  obtain ⟨a, found, runs, holds⟩ := h
  exact ⟨a, found, runs, post a found holds⟩

theorem bind (hx : Finds team x e Q) (hf : ∀ a found, Q a found →
      Finds team (f a) (e.raiseAll team found) fun b more => R b (found ++ more)) :
    Finds team (x >>= f) e R := by
  obtain ⟨a, found, runs, holds⟩ := hx
  obtain ⟨b, more, runs', holds'⟩ := hf a found holds
  refine ⟨b, found ++ more, fun o => ?_, holds'⟩
  rw [bind_apply_ok (runs o), runs' o, Env.raiseAll_append]

theorem get_bind {f : Env → Resolve β} (h : Finds team (f e) e R) :
    Finds team (get >>= f) e R := h

theorem foldlM_from {f : β → α → Resolve β} {I : List α → β → List Finding → Prop}
    {l before : List α} {b : β}
    {found : List Finding} (start : I before b found)
    (step : ∀ before, ∀ a ∈ l, ∀ b found e, I before b found →
      Finds team (f b a) e fun b more => I (before ++ [a]) b (found ++ more)) :
    Finds team (l.foldlM f b) e fun b more => I (before ++ l) b (found ++ more) := by
  induction l generalizing before b found e with
  | nil => exact .pure (by simpa using start)
  | cons a l ih =>
    refine (step before a List.mem_cons_self b found e start).bind fun b more h => ?_
    refine (ih h fun before c hc => step before c (List.mem_cons_of_mem a hc)).post fun b rest h => ?_
    simpa using h

theorem foldlM {f : β → α → Resolve β} {I : List α → β → List Finding → Prop} {l : List α} {b : β}
    (start : I [] b []) (step : ∀ before, ∀ a ∈ l, ∀ b found e, I before b found →
      Finds team (f b a) e fun b more => I (before ++ [a]) b (found ++ more)) :
    Finds team (l.foldlM f b) e (I l) :=
  foldlM_from start step

end Finds

theorem finds_reportIncompatible {span : Span} {pair : MappingId × MappingId} :
    Finds team (reportIncompatible team span pair) e
      fun _ found => found = [.incompatible span pair.1 pair.2] :=
  ⟨(), _, fun _ => rfl, rfl⟩

theorem forM_reportRequired {point : JoinPoint} {l : List (MappingId × MappingId)} {d : Diagnostics}
    (o : Oracle) :
    (l.forM fun (a, b) => reportFor team .precedenceRequired (e.mapping b).span
        [e.methodName point.baseMethod, e.mappingName a, e.mappingName b]) o { e with diagnostics := d } =
      (.ok ⟨⟩, Env.raiseAll { e with diagnostics := d } team
        (l.map fun pair => .required point.kind point.baseMethod pair.1 pair.2)) := by
  induction l generalizing d with
  | nil => rfl
  | cons pair l ih => exact ih

variable {entries : List Entry} {edges : List Edge} {reported : Reported}

theorem finds_checkOppositeEdges : Finds team (checkOppositeEdges team edges reported) e
    fun _ found => Contradictions (Opposite edges) found := by
  refine .foldlM (I := fun _ _ => Contradictions (Opposite edges)) contradictions_nil ?_
  intro _ edge listed reported found e known
  extract_lets pair isOpposite
  split
  · next met =>
    refine finds_reportIncompatible.bind fun _ more reported => .pure ?_
    have opposite : Opposite edges edge.high edge.low := by
      obtain ⟨other, mem, ends⟩ := List.any_eq_true.1 (Bool.and_eq_true_iff.1 met).1
      exact ⟨⟨edge, listed, rfl, rfl⟩, other, mem, by simpa using ends⟩
    rw [reported, List.append_nil]
    refine known.append fun f mem => ⟨edge.span, _, _, List.mem_singleton.1 mem, ?_⟩
    exact orderedPair_mem Opposite.symm opposite
  · exact .pure (by rwa [List.append_nil])

theorem finds_checkLeftover {left : List MappingId} : Finds team (checkLeftover team left reported) e
    fun _ found => Contradictions (fun a b => a ∈ left ∧ b ∈ left) found := by
  unfold checkLeftover
  split
  · next first last head behind =>
    have ends : first ∈ left ∧ last ∈ left :=
      ⟨List.mem_of_head? head, List.mem_of_getLast? behind⟩
    split
    · exact .pure contradictions_nil
    · refine .get_bind (finds_reportIncompatible.bind fun _ more reported => .pure ?_)
      rw [reported, List.append_nil]
      refine fun f mem => ⟨_, _, _, List.mem_singleton.1 mem, ?_⟩
      exact orderedPair_mem (P := fun a b => a ∈ left ∧ b ∈ left) And.symm ends
  · exact .pure contradictions_nil

theorem finds_orderJoinPoint {point : JoinPoint} :
    Finds team (orderJoinPoint team entries edges point reported) e fun result found =>
      ∃ left, Arranges entries edges point result.1 left ∧ Explains entries edges point left found := by
  obtain ⟨sorted, left, isSorted, -⟩ :=
    exists_sort?_graphOf entries (applicable edges (point.kind == .after)) point.order
  refine .get_bind (Finds.bind (Q := fun _ found => found = ((graphAt entries edges point).unordered
    point.order).map fun pair => .required point.kind point.baseMethod pair.1 pair.2)
    ⟨⟨⟩, _, fun o => forM_reportRequired o, rfl⟩ fun _ required known => ?_)
  rw [isSorted]
  refine finds_checkLeftover.bind fun _ more contradictions => .pure ?_
  refine ⟨left, ⟨rfl, rfl, sorted, isSorted, rfl⟩, ?_, ?_⟩
  · intro kind base a b
    rw [List.append_nil, List.mem_append, or_iff_left contradictions.not_required, known, List.mem_map]
    simp [eq_comm, and_assoc, and_left_comm]
  · intro span a b mem
    rw [List.append_nil, List.mem_append, known] at mem
    refine contradictions.incompatible (mem.resolve_left ?_)
    simp

theorem finds_orderCollected : Finds team (orderCollected team entries edges) e fun result found =>
    Settles entries edges (joinPoints e entries) result.1 found := by
  refine finds_checkOppositeEdges.bind fun _ plain opposite => ?_
  refine finds_checkOppositeEdges.bind fun reported all opposite' => .get_bind ?_
  have start : Settles entries edges [] [] (plain ++ all) := by
    refine .start (.append (opposite.imp fun _ _ h => ⟨false, h⟩) (opposite'.imp fun _ _ h => ⟨true, ?_⟩))
    simpa [applicable] using h
  obtain ⟨d, same⟩ : ∃ d, (e.raiseAll team plain).raiseAll team all = { e with diagnostics := d } := by
    rw [← Env.raiseAll_append]
    exact Env.raiseAll_eq e team _
  rw [same]
  refine Finds.post (Q := fun (result : List JoinPoint × Reported) more =>
    Settles entries edges (joinPoints e entries) result.1 ((plain ++ all) ++ more)) ?_ ?_
  · refine .foldlM (I := fun points (result : List JoinPoint × Reported) more =>
      Settles entries edges points result.1 ((plain ++ all) ++ more)) (by simpa using start) ?_
    rintro before point - ⟨done, reported⟩ found e settles
    refine finds_orderJoinPoint.bind ?_
    rintro ⟨p, reported⟩ more ⟨left, arranges, explains⟩
    refine .pure ?_
    rw [List.append_nil, ← List.append_assoc]
    exact settles.add arranges explains
  · intro result more h
    rwa [← List.append_assoc]

end Resolve

end TeamRoles
