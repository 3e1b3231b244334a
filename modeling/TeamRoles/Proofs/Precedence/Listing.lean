import TeamRoles.Proofs.Precedence.Required

/-!
The order of a team's callins does not depend on how its declarations are listed: in another order, or some of
them more than once, they order the callins in the same way, leave the same pairs open and contradict each
other in the same pairs.
-/

namespace TeamRoles

namespace Precedence

section Sorting

variable {α : Type} [DecidableEq α] {succ succ' : Successors α} {c c' : Counters α} {nodes waiting : List α}

theorem Counters.Right.of_eq (right : c.Right succ waiting) (right' : c'.Right succ' waiting)
    (same : ∀ a, (succ.of a).Perm (succ'.of a)) (a : α) : c.of a = c'.of a := by
  rw [right a, right' a, (List.Perm.flatMap_left waiting fun b _ => same b).count_eq]

theorem sortFrom?_congr (right : c.Right succ waiting) (right' : c'.Right succ' waiting)
    (same : ∀ a, (succ.of a).Perm (succ'.of a)) : sortFrom? succ c waiting = sortFrom? succ' c' waiting := by
  have zeros : (c.of · == 0) = (c'.of · == 0) := by
    funext a
    rw [right.of_eq right' same]
  fun_induction sortFrom? succ c waiting generalizing c' with
  | case1 c waiting none =>
    rw [zeros] at none
    rw [sortFrom?]
    split
    · rfl
    · next found => cases none.symm.trans found
  | case2 c waiting a found ih =>
    have isWaiting : a ∈ waiting := List.mem_of_find?_eq_some found
    obtain ⟨d, lowered, rest⟩ := right.lower isWaiting
    obtain ⟨d', lowered', rest'⟩ := right'.lower isWaiting
    rw [zeros] at found
    rw [sortFrom?, lowered]
    split
    · next none => cases found.symm.trans none
    · next b found' =>
      obtain rfl : a = b := Option.some.inj (found.symm.trans found')
      have zeros' : (d.of · == 0) = (d'.of · == 0) := by
        funext b
        rw [rest.of_eq rest' same]
      rw [lowered']
      simp [ih d rest rest' zeros']

theorem sort?_congr (closed : ∀ a, succ.of a ⊆ nodes) (closed' : ∀ a, succ'.of a ⊆ nodes)
    (same : ∀ a, (succ.of a).Perm (succ'.of a)) : sort? succ nodes = sort? succ' nodes :=
  sortFrom?_congr (Counters.right_ofSuccessors closed) (Counters.right_ofSuccessors closed') same

end Sorting

namespace Successors

variable {α : Type} [DecidableEq α] {s : Successors α} {a b : α}

def Distinct (s : Successors α) : Prop := ∀ a, (s.of a).Nodup

theorem distinct_ofNodes {nodes : List α} : (ofNodes nodes).Distinct := by
  intro a
  rw [of_ofNodes]
  exact .nil

theorem Distinct.insert (h : s.Distinct) : (s.insert a b).Distinct := by
  intro x
  have found : (s.insert a b).lookup x =
      (s.lookup x).map fun next => if x = a then addAll next [b] else next :=
    lookup_map (f := fun x next => if x = a then addAll next [b] else next)
  have before := h x
  rw [of] at before ⊢
  rw [found]
  cases known : s.lookup x with
  | none => simp
  | some next =>
    simp only [known, Option.getD_some, Option.map_some] at before ⊢
    split
    · exact nodup_addAll before
    · exact before

theorem Distinct.relate (h : s.Distinct) : (s.relate a b).Distinct := by
  unfold Successors.relate
  split
  · exact h.insert
  · exact h

theorem Distinct.perm {s' : Successors α} (h : s.Distinct) (h' : s'.Distinct) (same : s.Next = s'.Next) (a : α) :
    (s.of a).Perm (s'.of a) :=
  (List.perm_ext_iff_of_nodup (h a) (h' a)).2 fun b => iff_of_eq (congrFun (congrFun same a) b)

end Successors

theorem Graph.distinct_addDefaults {α : Type} [DecidableEq α] {g : Graph α} {together : α → α → Bool}
    {nodes : List α} (h : g.succ.Distinct) : (g.addDefaults together nodes).succ.Distinct := by
  rw [Graph.addDefaults]
  generalize pairs nodes = tried
  induction tried generalizing g with
  | nil => exact h
  | cons pair tried ih =>
    apply ih
    dsimp only
    split
    · exact h.insert
    · exact h

section Graphs

variable {entries : List Entry} {edges edges' : List Edge} {members : List MappingId}

theorem distinct_graphOf : (graphOf entries edges members).succ.Distinct := by
  apply Graph.distinct_addDefaults
  suffices relates : ∀ s : Successors MappingId, s.Distinct →
      (edges.foldl (fun succ edge => succ.relate edge.high edge.low) s).Distinct from
    relates _ Successors.distinct_ofNodes
  induction edges with
  | nil => exact fun _ h => h
  | cons edge edges ih => exact fun s h => ih _ h.relate

theorem next_graphOf (same : ∀ edge, edge ∈ edges ↔ edge ∈ edges') :
    (graphOf entries edges members).succ.Next = (graphOf entries edges' members).succ.Next := by
  have related : Related edges members = Related edges' members := by
    funext a b
    simp only [Related, same]
  rw [exact_graphOf.2, exact_graphOf.2, related]

theorem unordered_graphOf (same : ∀ edge, edge ∈ edges ↔ edge ∈ edges') :
    (graphOf entries edges members).unordered members = (graphOf entries edges' members).unordered members := by
  refine List.filter_congr fun pair _ => ?_
  rw [Bool.not_inj_iff, Bool.eq_iff_iff, exact_graphOf.1.isOrdered_iff, exact_graphOf.1.isOrdered_iff,
    next_graphOf same]

theorem sort?_graphOf (same : ∀ edge, edge ∈ edges ↔ edge ∈ edges') :
    sort? (graphOf entries edges members).succ members = sort? (graphOf entries edges' members).succ members :=
  sort?_congr over_graphOf.closed over_graphOf.closed (distinct_graphOf.perm distinct_graphOf (next_graphOf same))

theorem mem_applicable_congr {withAfter : Bool} (same : ∀ edge, edge ∈ edges ↔ edge ∈ edges') (edge : Edge) :
    edge ∈ applicable edges withAfter ↔ edge ∈ applicable edges' withAfter := by
  rw [applicable, applicable, List.mem_filter, List.mem_filter, same]

end Graphs

end Precedence

open Precedence

namespace Env

/-- The environment after further reports, none of which is about an open pair. -/
structure Notes (e e' : Env) : Prop where
  same : e' = { e with diagnostics := { e.diagnostics with problems := e'.diagnostics.problems } }
  required : e'.diagnostics.withId .precedenceRequired = e.diagnostics.withId .precedenceRequired

namespace Notes

variable {e e' e'' : Env}

theorem refl (e : Env) : e.Notes e := ⟨rfl, rfl⟩

theorem symm (h : e.Notes e') : e'.Notes e := by
  refine ⟨?_, h.required.symm⟩
  rw [h.same]

theorem trans (h : e.Notes e') (h' : e'.Notes e'') : e.Notes e'' := by
  refine ⟨?_, h'.required.trans h.required⟩
  rw [h'.same, h.same]

end Notes

theorem id_of_toReport? {d : Diagnostics} {p : ProblemId} {span : Span} {arguments : List String} {x : Problem}
    (h : d.toReport? p span arguments = some x) : x.id = p := by
  unfold Diagnostics.toReport? at h
  split at h
  · cases h
  · obtain ⟨_, -, same⟩ := Option.bind_eq_some_iff.1 h
    cases same
    rfl

theorem withId_report {e : Env} {file : Option String} {p q : ProblemId} {span : Span} {arguments : List String} :
    (e.report file p span arguments).diagnostics.withId q = e.diagnostics.withId q ++
      if p = q then ((e.diagnostics.setFile file).toReport? p span arguments).toList else [] := by
  unfold report Diagnostics.report
  cases new : (e.diagnostics.setFile file).toReport? p span arguments with
  | none => simp [Diagnostics.setFile, Diagnostics.withId]
  | some x => 
    have known : x.id = p := id_of_toReport? new
    by_cases same : p = q <;> simp [Diagnostics.setFile, Diagnostics.withId, known, same]

variable {e e' : Env} {file : Option String} {p : ProblemId} {span : Span} {arguments : List String}

theorem problems_report : e.report file p span arguments = { e with
    diagnostics := { e.diagnostics with problems := (e.report file p span arguments).diagnostics.problems } } := by
  unfold report Diagnostics.report
  cases (e.diagnostics.setFile file).toReport? p span arguments <;> rfl

theorem notes_report (other : p ≠ .precedenceRequired) : e.Notes (e.report file p span arguments) where
  same := problems_report
  required := by rw [withId_report, if_neg other, List.append_nil]

theorem Notes.report (h : e.Notes e') : (e.report file p span arguments).Notes (e'.report file p span arguments) where
  same := by
    rw [problems_report (e := e), problems_report (e := e'), h.same]
  required := by
    rw [withId_report, withId_report, h.required, h.same]
    rfl

theorem Notes.raiseAll {team : BindingId} (h : e.Notes e') (found : List Finding) :
    (e.raiseAll team found).Notes (e'.raiseAll team found) := by
  induction found generalizing e e' with
  | nil => exact h
  | cons f found ih =>
    apply ih
    have next := h.same
    cases f <;>
    · unfold raise
      rw [next]
      rw [next] at h
      exact h.report

end Env

namespace Resolve

variable {α β : Type} {team : BindingId} {entries : List Entry} {edges edges' : List Edge}
  {reported reported' : Reported}

def Remarks (x : Resolve α) (Q : α → Prop) : Prop :=
  ∀ o e, ∃ a e', x o e = (.ok a, e') ∧ e.Notes e' ∧ Q a

namespace Remarks

variable {x : Resolve α} {f : α → Resolve β} {Q Q' : α → Prop} {R : β → Prop}

theorem pure {a : α} (h : Q a) : Remarks (pure a) Q := fun _ e => ⟨a, e, rfl, .refl e, h⟩

theorem post (h : Remarks x Q) (post : ∀ a, Q a → Q' a) : Remarks x Q' := by
  intro o e
  obtain ⟨a, e', run, notes, holds⟩ := h o e
  exact ⟨a, e', run, notes, post a holds⟩

theorem bind (hx : Remarks x Q) (hf : ∀ a, Q a → Remarks (f a) R) : Remarks (x >>= f) R := by
  intro o e
  obtain ⟨a, e', run, notes, holds⟩ := hx o e
  obtain ⟨b, e'', run', notes', holds'⟩ := hf a holds o e'
  exact ⟨b, e'', (bind_apply_ok run).trans run', notes.trans notes', holds'⟩

theorem get_bind {f : Env → Resolve β} (h : ∀ e, Remarks (f e) R) : Remarks (get >>= f) R := fun o e => h e o e

theorem mapM {f : α → Resolve β} {g : α → β} (h : ∀ a, Remarks (f a) (· = g a)) (l : List α) :
    Remarks (l.mapM f) (· = l.map g) := by
  induction l with
  | nil => exact .pure rfl
  | cons a l ih =>
    rw [List.mapM_cons]
    refine (h a).bind fun b first => ih.bind fun bs rest => .pure ?_
    rw [first, rest, List.map_cons]

theorem foldlM_from {f : β → α → Resolve β} {I : List α → β → Prop} {l before : List α} {b : β}
    (start : I before b) (step : ∀ before, ∀ a ∈ l, ∀ b, I before b → Remarks (f b a) (I (before ++ [a]))) :
    Remarks (l.foldlM f b) (I (before ++ l)) := by
  induction l generalizing before b with
  | nil => exact .pure (by simpa using start)
  | cons a l ih =>
    refine (step before a List.mem_cons_self b start).bind fun b h => ?_
    have rest := ih h fun before c hc => step before c (List.mem_cons_of_mem a hc)
    simpa using rest

theorem foldlM {f : β → α → Resolve β} {I : List α → β → Prop} {l : List α} {b : β} (start : I [] b)
    (step : ∀ before, ∀ a ∈ l, ∀ b, I before b → Remarks (f b a) (I (before ++ [a]))) :
    Remarks (l.foldlM f b) (I l) := foldlM_from start step

end Remarks

theorem remarks_reportFor {b : BindingId} {p : ProblemId} {span : Span} {arguments : List String}
    (other : p ≠ .precedenceRequired) : Remarks (reportFor b p span arguments) fun _ => True :=
  fun _ _ => ⟨(), _, rfl, Env.notes_report other, trivial⟩

theorem remarks_reportIncompatible {span : Span} {pair : MappingId × MappingId} :
    Remarks (reportIncompatible team span pair) fun _ => True :=
  .get_bind fun _ => remarks_reportFor (by decide)

theorem remarks_declaredEdges (team : BindingId) (entries : List Entry) (d : Declared) :
    Remarks (declaredEdges team entries d) (· = d.edges entries) := by
  refine (Remarks.mapM (g := resolveElement entries d.role) (fun element => ?_) _).bind fun callins named => .pure ?_
  · dsimp only
    split
    · exact (remarks_reportFor (by decide)).bind fun _ _ => .pure rfl
    · exact .pure rfl
  · rw [named]
    rfl

/-- The pair of an edge that is opposite to one of the edges. -/
def Opposed (edges listed : List Edge) (pair : MappingId × MappingId) : Prop :=
  ∃ edge ∈ listed, Opposite edges edge.high edge.low ∧ pair = orderedPair edge.high edge.low

theorem opposed_concat {listed : List Edge} {edge : Edge} {pair : MappingId × MappingId} :
    Opposed edges (listed ++ [edge]) pair ↔ Opposed edges listed pair ∨
      Opposite edges edge.high edge.low ∧ pair = orderedPair edge.high edge.low := by
  simp [Opposed, or_and_right, exists_or]

theorem opposed_congr (same : ∀ edge, edge ∈ edges ↔ edge ∈ edges') {pair : MappingId × MappingId} :
    Opposed edges edges pair ↔ Opposed edges' edges' pair := by
  simp only [Opposed, Precedence.Opposite, same]

theorem remarks_checkOppositeEdges : Remarks (checkOppositeEdges team edges reported) fun reported' =>
    ∀ pair, pair ∈ reported' ↔ pair ∈ reported ∨ Opposed edges edges pair := by
  refine .foldlM (I := fun before (sofar : Reported) =>
    ∀ pair, pair ∈ sofar ↔ pair ∈ reported ∨ Opposed edges before pair) (by simp [Opposed]) ?_
  intro before edge listed sofar known
  extract_lets pair isOpposite
  have opposite : isOpposite = true ↔ Opposite edges edge.high edge.low := by
    simp only [isOpposite, List.any_eq_true, Bool.and_eq_true, beq_iff_eq]
    exact (and_iff_right ⟨edge, listed, rfl, rfl⟩).symm
  simp only [opposed_concat, ← or_assoc, ← known, ← opposite]
  split
  · next met =>
    refine remarks_reportIncompatible.bind fun _ _ => .pure fun other => ?_
    rw [List.mem_cons, or_comm, (Bool.and_eq_true_iff.1 met).1]
    exact or_congr_right (and_iff_right rfl).symm
  · next unmet =>
    refine .pure fun other => (or_iff_left_of_imp ?_).symm
    rintro ⟨isOpposite, rfl⟩
    simpa [isOpposite] using unmet

/-- The ends of what is left over are contradictory, unless others there are known to be. -/
def LeftOver (left : List MappingId) (reported : Reported) (pair : MappingId × MappingId) : Prop :=
  (∀ a ∈ left, ∀ b ∈ left, orderedPair a b ∉ reported) ∧
    ∃ first ∈ left.head?, ∃ last ∈ left.getLast?, pair = orderedPair first last

theorem leftOver_congr (same : ∀ pair, pair ∈ reported ↔ pair ∈ reported') {left : List MappingId}
    {pair : MappingId × MappingId} : LeftOver left reported pair ↔ LeftOver left reported' pair := by
  simp only [LeftOver, same]

theorem remarks_checkLeftover (team : BindingId) (left : List MappingId) (reported : Reported) :
    Remarks (checkLeftover team left reported) fun reported' =>
      ∀ pair, pair ∈ reported' ↔ pair ∈ reported ∨ LeftOver left reported pair := by
  unfold checkLeftover
  split
  · next first last head behind =>
    split
    · next met =>
      refine .pure fun pair => (or_iff_left fun leftOver => ?_).symm
      obtain ⟨a, ha, b, hb, found⟩ : ∃ a ∈ left, ∃ b ∈ left, orderedPair a b ∈ reported := by simpa using met
      exact leftOver.1 a ha b hb found
    · next unmet =>
      have unknown : ∀ a ∈ left, ∀ b ∈ left, orderedPair a b ∉ reported := by simpa using unmet
      refine .get_bind fun e => remarks_reportIncompatible.bind fun _ _ => .pure fun pair => ?_
      rw [List.mem_cons, or_comm, LeftOver, and_iff_right unknown, head, behind]
      simp
  · next empty =>
    refine .pure fun pair => (or_iff_left ?_).symm
    rintro ⟨-, first, head, last, behind, -⟩
    exact empty first last head behind

variable {o : Oracle} {e e' : Env} {point : JoinPoint}

def openAt (entries : List Entry) (edges : List Edge) (point : JoinPoint) : List Finding :=
  ((graphAt entries edges point).unordered point.order).map fun pair =>
    .required point.kind point.baseMethod pair.1 pair.2

theorem orderJoinPoint_apply {sorted left : List MappingId}
    (done : sort? (graphAt entries edges point).succ point.order = some (sorted, left)) :
    orderJoinPoint team entries edges point reported o e =
      (do let reported ← checkLeftover team left reported
          return ({ point with order := sorted ++ left }, reported)) o
        (e.raiseAll team (openAt entries edges point)) := by
  have sort : sort? (graphOf entries (applicable edges (point.kind == .after)) point.order).succ point.order =
    some (sorted, left) := done
  unfold orderJoinPoint
  rw [get_bind_apply]
  refine (bind_apply_ok (forM_reportRequired (d := e.diagnostics) o)).trans ?_
  rw [sort]
  rfl

theorem orderJoinPoint_same (team : BindingId) (entries : List Entry) (point : JoinPoint) (o : Oracle)
    (same : ∀ edge, edge ∈ edges ↔ edge ∈ edges')
    (known : ∀ pair, pair ∈ reported ↔ pair ∈ reported') (notes : e.Notes e') : ∃ p r r' f f',
    orderJoinPoint team entries edges point reported o e = (.ok (p, r), f) ∧
      orderJoinPoint team entries edges' point reported' o e' = (.ok (p, r'), f') ∧ f.Notes f' ∧
      ∀ pair, pair ∈ r ↔ pair ∈ r' := by
  have applies : ∀ edge, edge ∈ applicable edges (point.kind == .after) ↔
      edge ∈ applicable edges' (point.kind == .after) := mem_applicable_congr same
  have unordered : openAt entries edges point = openAt entries edges' point :=
    congrArg (List.map _) (unordered_graphOf applies)
  have sort : sort? (graphAt entries edges point).succ point.order =
    sort? (graphAt entries edges' point).succ point.order := sort?_graphOf applies
  obtain ⟨sorted, left, done, -⟩ :=
    exists_sort?_graphOf entries (applicable edges (point.kind == .after)) point.order
  rw [orderJoinPoint_apply done, orderJoinPoint_apply (sort.symm.trans done), ← unordered]
  obtain ⟨r, f, run, toF, holds⟩ := remarks_checkLeftover team left reported o
    (e.raiseAll team (openAt entries edges point))
  obtain ⟨r', f', run', toF', holds'⟩ := remarks_checkLeftover team left reported' o
    (e'.raiseAll team (openAt entries edges point))
  refine ⟨_, r, r', f, f', bind_apply_ok run, bind_apply_ok run',
    (toF.symm.trans (notes.raiseAll _)).trans toF', fun pair => ?_⟩
  rw [holds, holds', known, leftOver_congr known]

def orderPoints (team : BindingId) (entries : List Entry) (edges : List Edge) (points : List JoinPoint)
    (start : List JoinPoint × Reported) : Resolve (List JoinPoint × Reported) :=
  points.foldlM (fun (done, reported) point => do
    let (point, reported) ← orderJoinPoint team entries edges point reported
    return (done ++ [point], reported)) start

theorem orderPoints_same {points done : List JoinPoint} (same : ∀ edge, edge ∈ edges ↔ edge ∈ edges')
    (known : ∀ pair, pair ∈ reported ↔ pair ∈ reported') (notes : e.Notes e') : ∃ ps r r' f f',
    orderPoints team entries edges points (done, reported) o e = (.ok (ps, r), f) ∧
      orderPoints team entries edges' points (done, reported') o e' = (.ok (ps, r'), f') ∧ f.Notes f' ∧
      ∀ pair, pair ∈ r ↔ pair ∈ r' := by
  induction points generalizing done reported reported' e e' with
  | nil => exact ⟨done, reported, reported', e, e', rfl, rfl, notes, known⟩
  | cons point points ih =>
    obtain ⟨p, r, r', f, f', run, run', notes, known⟩ :=
      orderJoinPoint_same team entries point o same known notes
    obtain ⟨ps, r, r', g, g', rest, rest', notes, known⟩ := ih known notes
    refine ⟨ps, r, r', g, g', ?_, ?_, notes, known⟩
    · exact (bind_apply_ok (bind_apply_ok run)).trans rest
    · exact (bind_apply_ok (bind_apply_ok run')).trans rest'

theorem remarks_opposites (team : BindingId) (edges : List Edge) : Remarks
    (do let reported ← checkOppositeEdges team (applicable edges false) []
        checkOppositeEdges team edges reported) fun reported => ∀ pair, pair ∈ reported ↔
      Opposed (applicable edges false) (applicable edges false) pair ∨ Opposed edges edges pair := by
  refine remarks_checkOppositeEdges.bind fun plain isPlain => remarks_checkOppositeEdges.post fun all isAll pair => ?_
  rw [isAll, isPlain, or_iff_right (List.not_mem_nil (a := pair))]

theorem orderCollected_same (same : ∀ edge, edge ∈ edges ↔ edge ∈ edges') (notes : e.Notes e') : ∃ ps r r' f f',
    orderCollected team entries edges o e = (.ok (ps, r), f) ∧
      orderCollected team entries edges' o e' = (.ok (ps, r'), f') ∧ f.Notes f' ∧
      ∀ pair, pair ∈ r ↔ pair ∈ r' := by
  have split (edges : List Edge) : orderCollected team entries edges =
      (do let reported ← checkOppositeEdges team (applicable edges false) []
          checkOppositeEdges team edges reported) >>= fun reported => get >>= fun e =>
        orderPoints team entries edges (joinPoints e entries) ([], reported) := by
    rw [bind_assoc]
    rfl
  obtain ⟨r, f, run, toF, holds⟩ := remarks_opposites team edges o e
  obtain ⟨r', f', run', toF', holds'⟩ := remarks_opposites team edges' o e'
  have known (pair : MappingId × MappingId) : pair ∈ r ↔ pair ∈ r' := by
    rw [holds, holds', opposed_congr (mem_applicable_congr same), opposed_congr same]
  have notes' : f.Notes f' := (toF.symm.trans notes).trans toF'
  have points : joinPoints f' entries = joinPoints f entries := by
    rw [notes'.same]
    rfl
  rw [split, split, bind_apply_ok run, bind_apply_ok run', get_bind_apply, get_bind_apply, points]
  exact orderPoints_same same known notes'

theorem orderDeclared_same (team : BindingId) (entries : List Entry) {declared declared' : List Declared}
    (same : ∀ d, d ∈ declared ↔ d ∈ declared') (o : Oracle) (e : Env) : ∃ ps r r' f f',
    (declared.mapM (declaredEdges team entries) >>= fun edges =>
        orderCollected team entries edges.flatten) o e = (.ok (ps, r), f) ∧
      (declared'.mapM (declaredEdges team entries) >>= fun edges =>
        orderCollected team entries edges.flatten) o e = (.ok (ps, r'), f') ∧ f.Notes f' ∧
      ∀ pair, pair ∈ r ↔ pair ∈ r' := by
  have edges (declared : List Declared) := Remarks.mapM (remarks_declaredEdges team entries) declared o e
  obtain ⟨_, f, run, notes, rfl⟩ := edges declared
  obtain ⟨_, f', run', notes', rfl⟩ := edges declared'
  rw [bind_apply_ok run, bind_apply_ok run']
  refine orderCollected_same (fun edge => ?_) (notes.symm.trans notes')
  simp only [List.mem_flatten, List.mem_map, same]

/-- The declarations of a team may be listed in another order, and each of them more than once: the callins of
each join point stay in their order, the same pairs are reported as open, and the same pairs are recorded as
contradictory, if any are. -/
theorem order_relisted {relist : List Declared → List Declared} (members : ∀ l d, d ∈ relist l ↔ d ∈ l)
    (team : BindingId) (o : Oracle) (e : Env) :
    orderRelisted id team = orderCallins team ∧
    ((∃ cause f, orderCallins team o e = (.error cause, f) ∧ orderRelisted relist team o e = (.error cause, f)) ∨
    ∃ points reported reported' f f', orderCallins team o e = (.ok (points, reported), f) ∧
      orderRelisted relist team o e = (.ok (points, reported'), f') ∧
      f'.diagnostics.withId .precedenceRequired = f.diagnostics.withId .precedenceRequired ∧
      (∀ pair, pair ∈ reported' ↔ pair ∈ reported) ∧ (reported' = [] ↔ reported = [])) := by
  refine ⟨rfl, ?_⟩
  rw [orderCallins]
  have collect (relist : List Declared → List Declared) : orderRelisted relist team =
      (do let entries ← precedenceEntries team
          checkDuplicateLabels entries
          let declared ← precedenceDeclarations team
          return (entries, declared)) >>= fun c =>
        (relist c.2).mapM (declaredEdges team c.1) >>= fun edges => orderCollected team c.1 edges.flatten := by
    simp only [orderRelisted, orderCollected, bind_assoc, pure_bind]
  rw [collect id, collect relist]
  generalize (do
    let entries ← precedenceEntries team
    checkDuplicateLabels entries
    let declared ← precedenceDeclarations team
    return (entries, declared)) = collected
  rcases outcome : collected o e with ⟨cause | ⟨entries, declared⟩, f⟩
  · exact .inl ⟨cause, f, bind_apply_error outcome, bind_apply_error outcome⟩
  · obtain ⟨points, r, r', g, g', run, run', notes, known⟩ := orderDeclared_same team entries
      (fun d => (members declared d).symm) o f
    refine .inr ⟨points, r, r', g, g', (bind_apply_ok outcome).trans run, (bind_apply_ok outcome).trans run',
      notes.required, fun pair => (known pair).symm, ?_⟩
    simp only [List.eq_nil_iff_forall_not_mem, known]

def twice (l : List Declared) : List Declared := l.reverse ++ l

theorem mem_twice (l : List Declared) (d : Declared) : d ∈ twice l ↔ d ∈ l := by simp [twice]

/-- A team whose declarations order three callins in a circle, and leave a fourth one open. -/
def circleAndOne : UnitDecl where
  fileName := "U"
  package := "p"
  types := [{ name := "B", methods := [{ name := "m" }] },
    { name := "T", modifiers := [.team]
      memberTypes := [Env.callinRole "P" "a" "x", Env.callinRole "Q" "b" "x", Env.callinRole "R" "c" "x",
        Env.callinRole "S" "d" "x"]
      precedences := [{ elements := ["a", "b"] }, { elements := ["b", "c"] }, { elements := ["c", "a"] }] }]

theorem ordered_circleAndOne :
    ((orderCallins ⟨1⟩).run (Env.declaring circleAndOne)).1.toOption.map
      (fun result => (result.1.map (·.order), result.2)) = some ([[⟨3⟩, ⟨0⟩, ⟨1⟩, ⟨2⟩]], [(⟨0⟩, ⟨2⟩)]) ∧
    (((orderCallins ⟨1⟩).run (Env.declaring circleAndOne)).2.diagnostics.withId .precedenceRequired).map
      (·.arguments) = [["p.B.m", "P.a", "S.d"], ["p.B.m", "Q.b", "S.d"], ["p.B.m", "R.c", "S.d"]] := by
  decide +kernel

theorem order_relisted_circleAndOne : (∀ l d, d ∈ twice l ↔ d ∈ l) ∧ ∃ points reported f,
    (orderRelisted twice ⟨1⟩).run (Env.declaring circleAndOne) = (.ok (points, reported), f) ∧
      points.map (·.order) = [[⟨3⟩, ⟨0⟩, ⟨1⟩, ⟨2⟩]] ∧ (⟨0⟩, ⟨2⟩) ∈ reported ∧
      (f.diagnostics.withId .precedenceRequired).length = 3 := by
  refine ⟨mem_twice, ?_⟩
  obtain ⟨ordered, required⟩ := ordered_circleAndOne
  obtain ⟨-, ⟨cause, f, failed, -⟩ | ⟨points, reported, reported', f, f', run, run', same, recorded, -⟩⟩ :=
    order_relisted mem_twice ⟨1⟩ (oracle maxDepth) (Env.declaring circleAndOne)
  · unfold Resolve.run at ordered
    rw [failed] at ordered
    cases ordered
  · unfold Resolve.run at ordered required
    rw [run] at ordered required
    obtain ⟨orders, rfl⟩ := Prod.mk.inj (Option.some.inj ordered)
    refine ⟨points, reported', f', run', orders, (recorded _).2 List.mem_cons_self, ?_⟩
    rw [same]
    simpa using congrArg List.length required

end Resolve

end TeamRoles
