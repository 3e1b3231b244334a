import TeamRoles.Proofs.Env.Compositional
import TeamRoles.Proofs.Env.Proceeds

/-!
Lawful resolutions: those that proceed by runs of a level. They are closed under everything resolutions are
made of, so that a resolution is lawful because its steps are.
-/

namespace TeamRoles

namespace Query

@[simp] def level : {α : Type} → Query α → Nat
  | _, .findType _ => 0
  | _, .supertypes _ => 1
  | _, .typeVariables _ => 1
  | _, .isSubtype _ _ => 2
  | _, .contains _ _ => 2
  | _, .isEquivalent _ _ => 2
  | _, .baseClass _ => 3
  | _, .fields _ => 4
  | _, .fieldType _ => 4
  | _, .methods _ => 5

/-- What an answer says about the environment it is given in. -/
def Holds : {α : Type} → Query α → α → Env → Prop
  | _, .findType name, found, e => ∀ b ∈ found, e.Denotes name b
  | _, .supertypes b, s, e => e.Shows b s
  | _, .typeVariables b, vars, e => e.slot (.typeVariables b) = .resolved vars
  | _, .fields b, list, e => e.slot (.fields b) = .resolved list
  | _, .methods b, list, e => e.slot (.methods b) = .resolved list
  | _, .baseClass b, _, e => e.slot (.baseClass b) ≠ .unresolved
  | _, .fieldType f, t, e => e.IsStandIn t ∨ (e.field f).pendingAnchor = none ∧ (e.field f).type = t
  | _, _, _, _ => True

end Query

namespace Resolve

variable {α β σ : Type}

def aborted : Except Abort α → Option Abort
  | .ok _ => none
  | .error cause => some cause

end Resolve

structure Oracle.Lawful (o : Oracle) : Prop where
  runs {α : Type} (q : Query α) (e : Env) :
    Proceeds q.level e (Resolve.aborted (o.ask q e).1) (o.ask q e).2
  holds {α : Type} (q : Query α) (e : Env) (a : α) :
    (o.ask q e).1 = .ok a → q.Holds a (o.ask q e).2

def Visit.found {σ : Type} : Visit σ → σ
  | .stop found => found
  | .leaf found => found
  | .inner found => found

theorem WalkOrder.mem_push {α : Type} {order : WalkOrder} {todo above : List α} {a : α} :
    a ∈ order.push todo above ↔ a ∈ todo ∨ a ∈ above := by
  cases order <;> simp [WalkOrder.push, or_comm]

namespace Resolve

variable {α β σ : Type} {ℓ : Nat}

def Lawful (ℓ : Nat) (x : Resolve α) : Prop :=
  ∀ o : Oracle, o.Lawful → ∀ e : Env, Proceeds ℓ e (aborted (x o e).1) (x o e).2

/-- A lawful resolution with what it needs and what it leaves when it is not aborted. -/
def Triple (ℓ : Nat) (P : Env → Prop) (x : Resolve α) (Q : α → Env → Prop) : Prop :=
  ∀ o : Oracle, o.Lawful → ∀ e, P e →
    Proceeds ℓ e (aborted (x o e).1) (x o e).2 ∧ ∀ a, (x o e).1 = .ok a → Q a (x o e).2

def Stable (ℓ : Nat) (P : Env → Prop) : Prop :=
  ∀ ⦃e : Env⦄ ⦃r : Option Abort⦄ ⦃e' : Env⦄, Proceeds ℓ e r e' → P e → P e'

theorem stable_of_steps {P : Env → Prop} (step : ∀ {e e' : Env}, Step ℓ e e' → P e → P e') :
    Stable 0 P :=
  fun _ _ _ run => run.runs.keeps_of_steps rfl step

theorem stable_ranged : Stable ℓ Env.Ranged := fun _ _ _ run => run.ranged

section Triples

variable {P : Env → Prop} {Q : α → Env → Prop} {R : β → Env → Prop} {x : Resolve α}
  {f : α → Resolve β}

theorem Triple.lawful (h : Triple ℓ (fun _ => True) x Q) : Lawful ℓ x :=
  fun o ho e => (h o ho e trivial).1

theorem Triple.mono {m : Nat} (h : Triple m P x Q) (le : m ≤ ℓ) : Triple ℓ P x Q :=
  fun o ho e he => ⟨(h o ho e he).1.mono le, (h o ho e he).2⟩

theorem Lawful.keeps (h : Lawful ℓ x) (stable : Stable ℓ P) : Triple ℓ P x fun _ => P :=
  fun o ho e he => ⟨h o ho e, fun _ _ => stable (h o ho e) he⟩

theorem Triple.pure {a : α} (h : ∀ e, P e → Q a e) : Triple ℓ P (pure a) Q := by
  intro o _ e he
  refine ⟨.done, ?_⟩
  rintro _ ⟨⟩
  exact h e he

theorem Triple.throw {cause : Abort} (h : cause.isReentrant = false) :
    Triple ℓ P (throw cause : Resolve α) Q := by
  intro o _ e _
  exact ⟨.stop h, nofun⟩

theorem bind_apply_ok {o : Oracle} {e e' : Env} {a : α} (h : x o e = (.ok a, e')) :
    (x >>= f) o e = f a o e' := by
  change Resolve.bind x f o e = _
  rw [Resolve.bind, h]

theorem bind_apply_error {o : Oracle} {e e' : Env} {cause : Abort}
    (h : x o e = (.error cause, e')) : (x >>= f) o e = (.error cause, e') := by
  change Resolve.bind x f o e = _
  rw [Resolve.bind, h]

theorem ends_bind {S : Option Abort → Env → Prop} {o : Oracle} {e : Env}
    (hx : S (aborted (x o e).1) (x o e).2 ∧ ∀ a, (x o e).1 = .ok a → Q a (x o e).2)
    (hf : ∀ a d, S none d → Q a d →
      S (aborted (f a o d).1) (f a o d).2 ∧ ∀ b, (f a o d).1 = .ok b → R b (f a o d).2) :
    S (aborted ((x >>= f) o e).1) ((x >>= f) o e).2 ∧
      ∀ b, ((x >>= f) o e).1 = .ok b → R b ((x >>= f) o e).2 := by
  obtain ⟨ends, holds⟩ := hx
  rcases outcome : x o e with ⟨cause | a, d⟩
  · rw [outcome] at ends
    rw [bind_apply_error outcome]
    exact ⟨ends, nofun⟩
  · rw [outcome] at ends holds
    rw [bind_apply_ok outcome]
    exact hf a d ends (holds a rfl)

theorem after_bind {S : Env → Env → Prop} {o : Oracle} {e : Env} (trans : ∀ {c d e}, S c d → S d e → S c e)
    (first : S e (x o e).2) (rest : ∀ a d, S d (f a o d).2) : S e ((x >>= f) o e).2 :=
  (ends_bind (S := fun _ => S e) (Q := fun _ _ => True) (R := fun _ _ => True) ⟨first, fun _ _ => trivial⟩
    fun a d h _ => ⟨trans h (rest a d), fun _ _ => trivial⟩).1

theorem bind_eq_ok {o : Oracle} {e e' : Env} {b : β} (h : (x >>= f) o e = (.ok b, e')) :
    ∃ a d, x o e = (.ok a, d) ∧ f a o d = (.ok b, e') := by
  rcases outcome : x o e with ⟨cause | a, d⟩
  · cases (bind_apply_error outcome).symm.trans h
  · exact ⟨a, d, rfl, (bind_apply_ok outcome).symm.trans h⟩

instance : LawfulMonad Resolve := by
  refine .mk' Resolve (fun x => funext fun o => funext fun e => ?_) (fun _ _ => rfl)
    fun x f g => funext fun o => funext fun e => ?_
  · change (x >>= pure) o e = x o e
    rcases outcome : x o e with ⟨cause | a, e'⟩
    · exact bind_apply_error outcome
    · exact bind_apply_ok outcome
  · rcases outcome : x o e with ⟨cause | a, e'⟩
    · rw [bind_apply_error (bind_apply_error outcome), bind_apply_error outcome]
    · change Resolve.bind (x >>= f) g o e = _
      rw [Resolve.bind, bind_apply_ok outcome, bind_apply_ok outcome]
      rfl

theorem Triple.bind (hx : Triple ℓ P x Q) (hf : ∀ a, Triple ℓ (Q a) (f a) R) :
    Triple ℓ P (x >>= f) R :=
  fun o ho e he => ends_bind (S := Proceeds ℓ e) (hx o ho e he) fun a d runs known =>
    (hf a o ho d known).imp_left runs.seq

theorem Triple.discard {Q : Env → Prop} (h : Triple ℓ P x fun _ => Q) :
    Triple ℓ P (discard x) fun _ => Q :=
  h.bind fun _ => .pure fun _ h => h

theorem Triple.pre {P' : Env → Prop} (h : Triple ℓ P x Q) (pre : ∀ e, P' e → P e) :
    Triple ℓ P' x Q :=
  fun o ho e he => h o ho e (pre e he)

theorem Triple.post {Q' : α → Env → Prop} (h : Triple ℓ P x Q) (post : ∀ a e, Q a e → Q' a e) :
    Triple ℓ P x Q' := by
  intro o ho e he
  obtain ⟨runs, holds⟩ := h o ho e he
  exact ⟨runs, fun a ha => post a _ (holds a ha)⟩

theorem Triple.frame {P' : Env → Prop} (h : Triple ℓ P x Q) (stable : Stable ℓ P') :
    Triple ℓ (fun e => P e ∧ P' e) x fun a e => Q a e ∧ P' e := by
  intro o ho e ⟨he, he'⟩
  obtain ⟨runs, holds⟩ := h o ho e he
  exact ⟨runs, fun a ha => ⟨holds a ha, stable runs he'⟩⟩

theorem Triple.framed {F : Env → Prop} (hx : Triple ℓ P x Q) (stable : Stable ℓ F)
    (pre : ∀ e, F e → P e) : Triple ℓ F x fun a e => Q a e ∧ F e :=
  (hx.frame stable).pre fun e he => ⟨pre e he, he⟩

theorem Triple.framed_bind {F : Env → Prop} (hx : Triple ℓ P x Q) (stable : Stable ℓ F)
    (pre : ∀ e, F e → P e) (hf : ∀ a, Triple ℓ (fun e => Q a e ∧ F e) (f a) R) :
    Triple ℓ F (x >>= f) R :=
  .bind (hx.framed stable pre) hf

theorem Triple.of_exists {ι : Type} {P : ι → Env → Prop} (h : ∀ i, Triple ℓ (P i) x Q) :
    Triple ℓ (fun e => ∃ i, P i e) x Q :=
  fun o ho e ⟨i, he⟩ => h i o ho e he

theorem Triple.assume {c : Prop} (h : c → Triple ℓ P x Q) : Triple ℓ (fun e => c ∧ P e) x Q :=
  fun o ho e he => h he.1 o ho e he.2

theorem Triple.of_start (h : ∀ start, P start → Triple ℓ (fun e => e = start) x Q) : Triple ℓ P x Q :=
  fun o ho e he => h e he o ho e rfl

theorem Triple.since (start : Env) (h : Triple ℓ P x Q) :
    Triple ℓ (fun e => e = start ∧ P e) x fun a e => Q a e ∧ Proceeds ℓ start none e := by
  rintro o ho e ⟨rfl, he⟩
  obtain ⟨runs, holds⟩ := h o ho e he
  refine ⟨runs, fun a ha => ⟨holds a ha, ?_⟩⟩
  rwa [ha] at runs

theorem Lawful.under (h : Lawful ℓ x) : Triple ℓ P x fun _ _ => True :=
  fun o ho e _ => ⟨h o ho e, fun _ _ => trivial⟩

theorem Lawful.triple (h : Lawful ℓ x) : Triple ℓ (fun _ => True) x fun _ _ => True := h.under

theorem Triple.any (h : Triple ℓ (fun _ => True) x Q) : Triple ℓ P x Q := h.pre fun _ _ => trivial

theorem Triple.ite {c : Prop} [Decidable c] {y : Resolve α} (hx : Triple ℓ P x Q)
    (hy : Triple ℓ P y Q) : Triple ℓ P (if c then x else y) Q := by
  split
  · exact hx
  · exact hy

theorem Lawful.before (hx : Lawful ℓ x) (hf : ∀ a, Triple ℓ (fun _ => True) (f a) R) :
    Triple ℓ P (x >>= f) R :=
  hx.under.bind hf

theorem Lawful.keeping (hx : Lawful ℓ x) (stable : Stable ℓ P) (hf : ∀ a, Triple ℓ P (f a) R) :
    Triple ℓ P (x >>= f) R :=
  (hx.keeps stable).bind hf

theorem Lawful.keepingAt (m : Nat) (le : m ≤ ℓ) (hx : Lawful m x) (stable : Stable m P)
    (hf : ∀ a, Triple ℓ P (f a) R) : Triple ℓ P (x >>= f) R :=
  ((hx.keeps stable).mono le).bind hf

theorem Triple.lawful_bind (hx : Triple ℓ (fun _ => True) x Q)
    (hf : ∀ a, Triple ℓ (Q a) (f a) fun _ _ => True) : Lawful ℓ (x >>= f) :=
  (hx.bind hf).lawful

theorem Triple.get_bind {f : Env → Resolve β}
    (h : ∀ e, Triple ℓ (fun e' => e' = e ∧ P e') (f e) R) : Triple ℓ P (get >>= f) R := by
  intro o ho e he
  exact h e o ho e ⟨rfl, he⟩

theorem Triple.get_start {start : Env} {f : Env → Resolve β}
    (h : Triple ℓ (fun e => e = start) (f start) R) :
    Triple ℓ (fun e => e = start) (get >>= f) R := by
  rintro o ho e rfl
  exact h o ho e rfl

theorem Triple.ask (q : Query α) (h : q.level ≤ ℓ) :
    Triple ℓ (fun _ => True) (ask q) q.Holds :=
  fun _ ho e _ => ⟨(ho.runs q e).mono h, ho.holds q e⟩

end Triples

namespace Lawful

variable {x : Resolve α} {f : α → Resolve β}

theorem pure {a : α} : Lawful ℓ (pure a) := fun _ _ _ => .done

theorem throw {cause : Abort} (h : cause.isReentrant = false) :
    Lawful ℓ (throw cause : Resolve α) :=
  fun _ _ _ => .stop h

theorem get : Lawful ℓ (get : Resolve Env) := fun _ _ _ => .done

theorem depth : Lawful ℓ depth := fun _ _ _ => .done

theorem ask (q : Query α) (h : q.level ≤ ℓ) : Lawful ℓ (ask q) :=
  (Triple.ask q h).lawful

theorem bind (hx : Lawful ℓ x) (hf : ∀ a, Lawful ℓ (f a)) : Lawful ℓ (x >>= f) :=
  (hx.triple.bind fun a => (hf a).triple).lawful

theorem map {g : α → β} (hx : Lawful ℓ x) : Lawful ℓ (g <$> x) := hx.bind fun _ => pure

theorem discard (hx : Lawful ℓ x) : Lawful ℓ (discard x) := hx.map

theorem same {f : Env → Env} (h : ∀ e : Env, e.Same (f e)) (fields : ∀ e : Env, (f e).anchoring = e.anchoring) :
    Lawful ℓ (modify f) :=
  fun _ _ e => .step (.quiet (h e)) (fields e)

theorem elsewhere {f : Env → Env} (h : ∀ e : Env, ((f e).kept, (f e).anchoring) = (e.kept, e.anchoring)) :
    Lawful ℓ (modify f) :=
  same (fun e => Env.same_of_kept (Prod.mk.inj (h e)).1) fun e => (Prod.mk.inj (h e)).2

theorem modifyGet {f : Env → α × Env} (h : ∀ e : Env, ((f e).2.kept, (f e).2.anchoring) = (e.kept, e.anchoring)) :
    Lawful ℓ (modifyGet f) :=
  fun _ _ e => .step (.quiet (Env.same_of_kept (Prod.mk.inj (h e)).1)) (Prod.mk.inj (h e)).2

theorem ite {c : Prop} [Decidable c] {y : Resolve α} (hx : Lawful ℓ x) (hy : Lawful ℓ y) :
    Lawful ℓ (if c then x else y) := by
  split
  · exact hx
  · exact hy

theorem compositional : Compositional (Lawful ℓ) where
  pure := pure
  bind := bind
  tooDeep := throw rfl
  depth := depth

section Lists

variable {l : List α}

theorem forM {f : α → Resolve PUnit} (hf : ∀ a, Lawful ℓ (f a)) : Lawful ℓ (l.forM f) :=
  compositional.forM fun a _ => hf a

theorem optionForM {o : Option α} {f : α → Resolve PUnit} (hf : ∀ a, Lawful ℓ (f a)) : Lawful ℓ (o.forM f) :=
  compositional.optionForM hf

theorem foldlM {f : σ → α → Resolve σ} (hf : ∀ s a, Lawful ℓ (f s a)) (s : σ) : Lawful ℓ (l.foldlM f s) :=
  compositional.foldlM (fun s a _ => hf s a) s

theorem mapM (hf : ∀ a, Lawful ℓ (f a)) : Lawful ℓ (l.mapM f) := compositional.mapM fun a _ => hf a

theorem filterMapM {f : α → Resolve (Option β)} (hf : ∀ a, Lawful ℓ (f a)) : Lawful ℓ (l.filterMapM f) :=
  compositional.filterMapM fun a _ => hf a

theorem findSomeM? {f : α → Resolve (Option β)} (hf : ∀ a, Lawful ℓ (f a)) : Lawful ℓ (l.findSomeM? f) :=
  compositional.findSomeM? fun a _ => hf a

end Lists

end Lawful

section Collections

variable {l : List α} {Q : β → Env → Prop}

theorem Triple.foldlM {f : β → α → Resolve β} {I : List α → β → Env → Prop} {before : List α} {b : β}
    (hf : ∀ before, ∀ a ∈ l, ∀ b, Triple ℓ (I before b) (f b a) (I (before ++ [a]))) :
    Triple ℓ (I before b) (l.foldlM f b) (I (before ++ l)) := by
  induction l generalizing before b with
  | nil => exact .pure fun _ h => by rwa [List.append_nil]
  | cons a l ih =>
    refine .bind (hf before a List.mem_cons_self b) fun b => ?_
    have rest : Triple ℓ (I (before ++ [a]) b) (l.foldlM f b) (I ((before ++ [a]) ++ l)) :=
      ih fun before c hc => hf before c (List.mem_cons_of_mem a hc)
    rwa [List.append_assoc] at rest

theorem Triple.foldlM_keeping {f : β → α → Resolve β} {I : β → Env → Prop} {b : β}
    (hf : ∀ a ∈ l, ∀ b, Triple ℓ (I b) (f b a) I) : Triple ℓ (I b) (l.foldlM f b) I := by
  induction l generalizing b with
  | nil => exact .pure fun _ h => h
  | cons a l ih =>
    refine .bind (hf a List.mem_cons_self b) fun b => ih fun c hc => ?_
    exact hf c (List.mem_cons_of_mem a hc)

theorem Triple.mapM {f : α → Resolve β} (hf : ∀ a, Triple ℓ (fun _ => True) (f a) Q)
    (stable : ∀ b, Stable ℓ (Q b)) :
    Triple ℓ (fun _ => True) (l.mapM f) fun bs e => ∀ b ∈ bs, Q b e := by
  suffices loop : ∀ bs, Triple ℓ (fun e => ∀ b ∈ bs, Q b e) (List.mapM.loop f l bs)
      fun bs e => ∀ b ∈ bs, Q b e from (loop []).pre fun _ _ => nofun
  induction l with
  | nil => exact fun bs => .pure fun e h b hb => h b (List.mem_reverse.1 hb)
  | cons a l ih =>
    intro bs
    have kept : Stable ℓ fun e => ∀ b ∈ bs, Q b e := fun _ _ _ runs h b hb => stable b runs (h b hb)
    refine .bind (((hf a).frame kept).pre fun _ h => ⟨trivial, h⟩) fun b => (ih (b :: bs)).pre ?_
    exact fun _ h => List.forall_mem_cons.2 h

theorem Triple.mapM_forall₂ {P : Env → Prop} {f : α → Resolve β} {R : Env → α → β → Prop}
    (hf : ∀ a, Triple ℓ P (f a) fun b e => R e a b ∧ P e)
    (stable : ∀ a b, Stable ℓ fun e => R e a b) :
    Triple ℓ P (l.mapM f) fun bs e => List.Forall₂ (R e) l bs ∧ P e := by
  suffices loop : ∀ done bs, Triple ℓ (fun e => List.Forall₂ (R e) done bs ∧ P e)
      (List.mapM.loop f l bs) fun bs e => List.Forall₂ (R e) (done.reverse ++ l) bs ∧ P e from
    (loop [] []).pre fun _ h => ⟨.nil, h⟩
  have kept (done : List α) (bs : List β) : Stable ℓ fun e => List.Forall₂ (R e) done bs :=
    fun _ _ _ runs related => related.imp fun a b h => stable a b runs h
  induction l with
  | nil =>
    refine fun done bs => .pure fun e h => ⟨?_, h.2⟩
    rw [List.append_nil]
    exact List.rel_reverse h.1
  | cons a l ih =>
    intro done bs
    refine .bind (((hf a).frame (kept done bs)).pre fun _ h => ⟨h.2, h.1⟩) fun b => ?_
    have rest := ih (a :: done) (b :: bs)
    rw [List.reverse_cons, List.append_assoc] at rest
    exact rest.pre fun _ h => ⟨.cons h.1.1 h.2, h.1.2⟩

theorem Triple.filterMapM_keeping {P : Env → Prop} {f : α → Resolve (Option β)}
    (hf : ∀ a, Triple ℓ P (f a) fun found e => P e ∧ ∀ b ∈ found, Q b e)
    (stable : ∀ b, Stable ℓ (Q b)) :
    Triple ℓ P (l.filterMapM f) fun bs e => P e ∧ ∀ b ∈ bs, Q b e := by
  suffices loop : ∀ bs, Triple ℓ (fun e => P e ∧ ∀ b ∈ bs, Q b e) (List.filterMapM.loop f l bs)
      fun bs e => P e ∧ ∀ b ∈ bs, Q b e from (loop []).pre fun _ h => ⟨h, nofun⟩
  induction l with
  | nil => exact fun bs => .pure fun e h => ⟨h.1, fun b hb => h.2 b (List.mem_reverse.1 hb)⟩
  | cons a l ih =>
    intro bs
    have kept : Stable ℓ fun e => ∀ b ∈ bs, Q b e := fun _ _ _ runs h b hb => stable b runs (h b hb)
    refine .bind ((hf a).frame kept) fun found => ?_
    cases found with
    | none => exact (ih bs).pre fun _ h => ⟨h.1.1, h.2⟩
    | some b =>
      refine (ih (b :: bs)).pre ?_
      exact fun _ h => ⟨h.1.1, List.forall_mem_cons.2 ⟨h.1.2 b rfl, h.2⟩⟩

theorem Triple.filterMapM {f : α → Resolve (Option β)}
    (hf : ∀ a, Triple ℓ (fun _ => True) (f a) fun found e => ∀ b ∈ found, Q b e)
    (stable : ∀ b, Stable ℓ (Q b)) :
    Triple ℓ (fun _ => True) (l.filterMapM f) fun bs e => ∀ b ∈ bs, Q b e :=
  (filterMapM_keeping (fun a => (hf a).post fun _ _ h => ⟨trivial, h⟩) stable).post fun _ _ h => h.2

end Collections

section Walks

variable [BEq α] {order : WalkOrder} {above : α → Resolve (List α)}
  {visit : σ → α → Resolve (Visit σ)}

theorem lawful_walk (hAbove : ∀ a, Lawful ℓ (above a)) (start : List α) (found : σ)
    (hVisit : ∀ s a, Lawful ℓ (visit s a)) : Lawful ℓ (walk order above start found visit) :=
  Lawful.compositional.walk hAbove start found hVisit

theorem Triple.walkFrom {I : σ → Env → Prop} {D : α → Env → Prop}
    (hAbove : ∀ a, Triple ℓ (D a) (above a) fun next e => ∀ c ∈ next, D c e)
    (hVisit : ∀ s a, Triple ℓ (fun e => I s e ∧ D a e) (visit s a) fun v => I v.found)
    (stable : ∀ s, Stable ℓ (I s)) (due : ∀ a, Stable ℓ (D a)) (fuel : Nat) (seen todo : List α) (found : σ) :
    Triple ℓ (fun e => I found e ∧ ∀ a ∈ todo, D a e) (walkFrom order above visit fuel seen todo found) I := by
  induction fuel generalizing seen todo found with
  | zero =>
    cases todo with
    | nil => exact .pure fun _ h => h.1
    | cons a todo => exact .throw rfl
  | succ fuel ih =>
    cases todo with
    | nil => exact .pure fun _ h => h.1
    | cons a todo =>
      rw [Resolve.walkFrom]
      have later : Stable ℓ fun e => ∀ c ∈ todo, D c e := fun _ _ _ runs h c hc => due c runs (h c hc)
      refine .ite ((ih _ _ _).pre fun _ h => ⟨h.1, fun c hc => h.2 c (List.mem_cons_of_mem a hc)⟩) ?_
      have all : Stable ℓ fun e => D a e ∧ ∀ c ∈ todo, D c e :=
        fun _ _ _ runs h => ⟨due a runs h.1, later runs h.2⟩
      refine .bind (((hVisit found a).frame all).pre fun _ h => ?_) fun next => ?_
      · obtain ⟨here, later⟩ := List.forall_mem_cons.1 h.2
        exact ⟨⟨h.1, here⟩, here, later⟩
      · cases next with
        | stop found => exact .pure fun _ h => h.1
        | leaf found => exact (ih _ _ _).pre fun _ h => ⟨h.1, h.2.2⟩
        | inner found =>
          have kept : Stable ℓ fun e => I found e ∧ ∀ c ∈ todo, D c e :=
            fun _ _ _ runs h => ⟨stable found runs h.1, later runs h.2⟩
          refine .bind (((hAbove a).frame kept).pre fun _ h => ⟨h.2.1, h.1, h.2.2⟩) fun next => (ih _ _ _).pre ?_
          rintro e ⟨above, known, later⟩
          exact ⟨known, fun c hc => (WalkOrder.mem_push.1 hc).elim (later c) (above c)⟩

theorem Triple.walk {I : σ → Env → Prop} {D : α → Env → Prop}
    (hAbove : ∀ a, Triple ℓ (D a) (above a) fun next e => ∀ c ∈ next, D c e)
    (stable : ∀ s, Stable ℓ (I s)) (due : ∀ a, Stable ℓ (D a)) (start : List α) (found : σ)
    (hVisit : ∀ s a, Triple ℓ (fun e => I s e ∧ D a e) (visit s a) fun v => I v.found) :
    Triple ℓ (fun e => I found e ∧ ∀ a ∈ start, D a e) (walk order above start found visit) I := by
  have kept : Stable ℓ fun e => I found e ∧ ∀ a ∈ start, D a e :=
    fun _ _ _ runs h => ⟨stable found runs h.1, fun a ha => due a runs (h.2 a ha)⟩
  exact Lawful.depth.keeping kept fun fuel => .walkFrom hAbove hVisit stable due fuel [] start found

end Walks

theorem addMethod_triple {m : Method} {Q : MethodId → Env → Prop} :
    Triple (ℓ + 5) (fun e => e.MayAdd m ∧ Q e.nextMethod (e.addMethod m)) (addMethod m) Q := by
  rintro o _ e ⟨may, holds⟩
  refine ⟨.step (.methods (Nat.le_add_left 5 ℓ) (.add may.pending) fun h => h.add may) rfl, ?_⟩
  rintro _ ⟨⟩
  exact holds

theorem addField_triple {x : Field} {Q : FieldId → Env → Prop} :
    Triple (ℓ + 4) (fun e => (e.Ranged → e.Anchored → e.Anchors x) ∧ Q ⟨e.fields.size⟩ (e.addField x))
      (addField x) Q := by
  rintro o _ e ⟨anchors, holds⟩
  refine ⟨.addField (Nat.le_add_left 4 ℓ) anchors, ?_⟩
  rintro _ ⟨⟩
  exact holds

theorem lawful_addTypeVar {v : TypeVar} : Lawful ℓ (addTypeVar v) :=
  .modifyGet fun _ => rfl

theorem lawful_addCapture {c : Capture} : Lawful ℓ (addCapture c) :=
  .modifyGet fun _ => rfl

theorem addMapping_triple {m : Mapping} :
    Triple ℓ (fun _ => True) (addMapping m) fun id e => e.OwnsMapping m.role id := by
  intro o _ e _
  refine ⟨.step .mapping rfl, ?_⟩
  rintro _ ⟨⟩
  constructor
  · simp [addMapping, modifyGet, MonadStateOf.modifyGet]
  · simp [addMapping, modifyGet, MonadStateOf.modifyGet, Env.mapping]

theorem updateMethod_triple {m : MethodId} {f : Method → Method} {Q : Env → Prop} :
    Triple (ℓ + 5) (fun e => e.MayUpdate m f ∧ Q (e.updateMethod m f)) (updateMethod m f)
      fun _ => Q := by
  rintro o _ e ⟨may, holds⟩
  refine ⟨.step (.methods (Nat.le_add_left 5 ℓ) (.update may.fixed may.settled) may.linked) rfl, ?_⟩
  rintro _ ⟨⟩
  exact holds

theorem lawful_updateMethod {m : MethodId} {f : Method → Method}
    (settled : ∀ x, (f x).settled = x.settled) : Lawful (ℓ + 5) (updateMethod m f) :=
  ((updateMethod_triple (Q := fun _ => True)).pre fun _ _ => ⟨.of_settled (settled _), trivial⟩).lawful

theorem lawful_updateTypeVar {v : TypeVarId} {f : TypeVar → TypeVar} :
    Lawful ℓ (updateTypeVar v f) :=
  .elsewhere fun _ => rfl

theorem lawful_updateUnit {u : UnitId} {f : SourceUnit → SourceUnit}
    (h : ∀ x, (f x).imports = x.imports) : Lawful ℓ (updateUnit u f) :=
  .same (fun _ => Env.same_updateUnit h) fun _ => rfl

theorem lawful_reportInFile {file : Option String} {p : ProblemId} {span : Span}
    {arguments : List String} : Lawful ℓ (reportInFile file p span arguments) :=
  .elsewhere fun _ => rfl

theorem lawful_reportInUnit {unit : UnitId} {p : ProblemId} {span : Span}
    {arguments : List String} : Lawful ℓ (reportInUnit unit p span arguments) :=
  .bind .get fun _ => lawful_reportInFile

theorem lawful_reportFor {b : BindingId} {p : ProblemId} {span : Span} {arguments : List String} :
    Lawful ℓ (reportFor b p span arguments) :=
  .bind .get fun _ => lawful_reportInFile

theorem known_triple {b : BindingId} :
    Triple ℓ (fun _ => True) (known b) fun x e => b.index < e.bindings.size ∧ e.binding b = x := by
  refine .get_bind fun e => ?_
  by_cases outside : e.bindings.size ≤ b.index
  · rw [if_pos outside]
    exact .throw rfl
  · rw [if_neg outside]
    refine .pure ?_
    rintro _ ⟨rfl, -⟩
    exact ⟨Nat.lt_of_not_le outside, rfl⟩

theorem knownUnit_triple {u : UnitId} :
    Triple ℓ (fun _ => True) (knownUnit u) fun x e => u.index < e.units.size ∧ e.unit u = x := by
  refine .get_bind fun e => ?_
  by_cases outside : e.units.size ≤ u.index
  · rw [if_pos outside]
    exact .throw rfl
  · rw [if_neg outside]
    refine .pure ?_
    rintro _ ⟨rfl, -⟩
    exact ⟨Nat.lt_of_not_le outside, rfl⟩

theorem stable_slot {p : Part} {v : p.Value} : Stable ℓ fun e => e.slot p = .resolved v :=
  fun _ _ _ runs known => runs.lasts.resolved known

/-- What is left to do while a part is in progress that was begun at the start. -/
def Latched (start : Env) (ℓ : Nat) (p : Part) (P : Env → Prop) (x : Resolve α)
    (Q : α → Env → Prop) : Prop :=
  ∀ o : Oracle, o.Lawful → ∀ e : Env, p.level ≤ ℓ → start.Has p →
    start.slot p = .unresolved → Proceeds p.inner (start.setSlot p .inProgress) none e → P e →
    Proceeds ℓ start (aborted (x o e).1) (x o e).2 ∧ ∀ a, (x o e).1 = .ok a → Q a (x o e).2

section Latches

variable {start : Env} {p : Part} {P : Env → Prop} {Q : α → Env → Prop} {R : β → Env → Prop}
  {x : Resolve α} {f : α → Resolve β}

theorem Triple.begin_keeping {f : Unit → Resolve β} (level : p.level ≤ ℓ)
    (kept : ∀ e, P e → P (e.setSlot p .inProgress))
    (h : ∀ start, Latched start ℓ p (fun e => e.slot p = .inProgress ∧ P e) (f ()) R) :
    Triple ℓ (fun e => (e.Has p ∧ e.slot p = .unresolved) ∧ P e)
      (modify (·.setSlot p .inProgress) >>= f) R := by
  intro o ho e ⟨⟨has, fresh⟩, he⟩
  have begun : (e.setSlot p .inProgress).slot p = .inProgress := Env.slot_setSlot_self has
  exact h e o ho (e.setSlot p .inProgress) level has fresh .done ⟨begun, kept e he⟩

theorem Latched.pre {P' : Env → Prop} (h : Latched start ℓ p P x Q) (pre : ∀ e, P' e → P e) :
    Latched start ℓ p P' x Q :=
  fun o ho e level has fresh begun he => h o ho e level has fresh begun (pre e he)

theorem Triple.begin {f : Unit → Resolve β} (level : p.level ≤ ℓ)
    (h : ∀ start, Latched start ℓ p (fun _ => True) (f ()) R) :
    Triple ℓ (fun e => e.Has p ∧ e.slot p = .unresolved)
      (modify (·.setSlot p .inProgress) >>= f) R :=
  (Triple.begin_keeping level (fun _ => id) fun start => (h start).pre fun _ _ => trivial).pre
    fun _ he => ⟨he, trivial⟩

theorem Triple.begin_from (start : Env) {f : Unit → Resolve β} (level : p.level ≤ ℓ)
    (begun : P (start.setSlot p .inProgress)) (h : Latched start ℓ p P (f ()) R) :
    Triple ℓ (fun e => e = start ∧ e.Has p ∧ e.slot p = .unresolved)
      (modify (·.setSlot p .inProgress) >>= f) R := by
  rintro o ho e ⟨rfl, has, fresh⟩
  exact h o ho (e.setSlot p .inProgress) level has fresh .done begun

theorem Latched.bind (hx : Triple p.inner P x Q) (hf : ∀ a, Latched start ℓ p (Q a) (f a) R) :
    Latched start ℓ p P (x >>= f) R := by
  intro o ho e level has fresh begun he
  obtain ⟨runs, holds⟩ := hx o ho e he
  cases outcome : x o e with
  | mk r e' =>
    rw [outcome] at runs holds
    cases r with
    | error cause =>
      rw [bind_apply_error outcome]
      exact ⟨.abort level has fresh (begun.seq runs), nofun⟩
    | ok a =>
      rw [bind_apply_ok outcome]
      exact hf a o ho e' level has fresh (begun.seq runs) (holds a rfl)

theorem Latched.finish {v : p.Value} {f : Unit → Resolve β} (allows : ∀ e, P e → p.Allows start v e)
    (owned : ∀ e, P e → p.Owned e v) (hf : Triple ℓ (fun e => e.slot p = .resolved v) (f ()) R) :
    Latched start ℓ p P (modify (·.setSlot p (.resolved v)) >>= f) R := by
  intro o ho e level has fresh begun he
  have lasts : start.Lasts e := begun.lasts.of_setSlot fresh
  obtain ⟨runs, holds⟩ := hf o ho _ (Env.slot_setSlot_self (lasts.has has))
  exact ⟨.seq (.resolve level has fresh begun (allows e he) (owned e he)) runs, holds⟩

theorem Latched.ite {c : Prop} [Decidable c] {y : Resolve α} (hx : Latched start ℓ p P x Q)
    (hy : Latched start ℓ p P y Q) : Latched start ℓ p P (if c then x else y) Q := by
  split
  · exact hx
  · exact hy

theorem Latched.get_bind {f : Env → Resolve β}
    (h : ∀ e, Latched start ℓ p (fun e' => e' = e ∧ P e') (f e) R) : Latched start ℓ p P (get >>= f) R := by
  intro o ho e level has fresh begun he
  exact h e o ho e level has fresh begun ⟨rfl, he⟩

theorem reentrant_triple {b : BindingId} {c : Component} (h : p.component? = some c)
    (level : p.level ≤ ℓ) :
    Triple ℓ (fun e => e.slot p = .inProgress) (reentrant b c : Resolve α) Q := by
  intro o _ e begun
  exact ⟨.reentrant h level begun, nofun⟩

end Latches

section Caches

variable {c : Cache} {P : Env → Prop} {R : β → Env → Prop}

theorem stable_allows : Stable ℓ fun e => c.Allows e := fun _ _ _ runs h => h.of_lasts runs.lasts

theorem stable_awaits {m : Nat} (low : m < c.level) :
    Stable m fun e => e.Awaits c :=
  fun _ _ _ runs ⟨empty, allows⟩ => ⟨(runs.runs.cache_eq low).trans empty, stable_allows runs allows⟩

theorem Triple.store {v : c.Value} {f : Unit → Resolve β} (level : c.level ≤ ℓ)
    (may : ∀ e, P e → e.Awaits c ∧ c.Holds v e)
    (hf : Triple ℓ (fun e => e.cache c = some v) (f ()) R) :
    Triple ℓ P (modify (·.setCache c v) >>= f) R := by
  intro o ho e he
  obtain ⟨awaits, allowed⟩ := may e he
  obtain ⟨runs, holds⟩ := hf o ho (e.setCache c v) Env.cache_setCache_self
  exact ⟨.seq (.step (.store level awaits allowed) (by cases c <;> rfl)) runs, holds⟩

end Caches

theorem problemBinding_triple {name : String} {reason : ProblemReason} {P : Env → Prop}
    (frame : ∀ e, P e → P (e.addProblem (.standIn name reason) name reason)) :
    Triple ℓ P (problemBinding name reason) fun b e => e.StandsFor name b ∧ P e := by
  refine .get_bind fun e => ?_
  cases found : e.problemBindings.lookup (name, reason) with
  | some b =>
    refine .pure ?_
    rintro _ ⟨rfl, he⟩
    exact ⟨⟨reason, Env.mem_of_lookup found⟩, he⟩
  | none =>
    rintro o _ _ ⟨rfl, he⟩
    refine ⟨.step .standIn rfl, ?_⟩
    rintro _ ⟨⟩
    exact ⟨⟨reason, List.mem_cons_self⟩, frame _ he⟩

theorem lawful_problemBinding {name : String} {reason : ProblemReason} :
    Lawful ℓ (problemBinding name reason) :=
  (problemBinding_triple fun _ _ => trivial).lawful

theorem problemType_triple {name : String} {reason : ProblemReason} {P : Env → Prop} :
    Triple ℓ P (problemType name reason) fun t e => e.IsStandIn t :=
  .bind (problemBinding_triple fun _ _ => trivial).any fun b => .pure fun _ h => ⟨name, b, rfl, h.1⟩

theorem lawful_problemType {name : String} {reason : ProblemReason} :
    Lawful ℓ (problemType name reason) :=
  .bind lawful_problemBinding fun _ => .pure

theorem findTypeOrProblem_triple {name : String} :
    Triple ℓ (fun _ => True) (findTypeOrProblem name) fun b e =>
      e.Denotes name b ∨ e.StandsFor name b := by
  refine (Triple.ask (.findType name) (by simp)).bind fun found => ?_
  cases found with
  | some b => exact .pure fun _ h => .inl (h b rfl)
  | none =>
    exact (problemBinding_triple fun _ _ => trivial).any.post fun _ _ stands => .inr stands.1

theorem lawful_findTypeOrProblem {name : String} : Lawful ℓ (findTypeOrProblem name) :=
  Triple.lawful findTypeOrProblem_triple

theorem lawful_wellKnown {name : WellKnownNames → String} : Lawful ℓ (wellKnown name) :=
  .bind .get fun _ => lawful_findTypeOrProblem

theorem lawful_wellKnownType {name : WellKnownNames → String} : Lawful ℓ (wellKnownType name) :=
  .bind lawful_wellKnown fun _ => .pure

theorem lawful_objectType : Lawful ℓ objectType := lawful_wellKnownType

end Resolve

end TeamRoles
