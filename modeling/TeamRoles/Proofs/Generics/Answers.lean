import TeamRoles.Proofs.Session.Memo

/-!
What a resolution answers when it is asked at a fixed depth, and what is short if it does not answer. The
root of the hierarchy is looked up once. When it is asked for again, the answer comes at once and nothing
changes.
-/

namespace TeamRoles

/-- The name of the root is bound, or it is missing and there is a stand-in for it. -/
def Env.RootKnown (e : Env) : Prop :=
  (e.lookup? e.options.wellKnown.object).isSome ∨ e.Misses e.options.wellKnown.object ∧
    (e.problemBindings.lookup (e.options.wellKnown.object, .notFound)).isSome

namespace Resolve

section Answers

variable {α β : Type}

theorem ok_ne_error {a : α} {cause : Abort} {e e' : Env} :
    (Except.ok a, e) ≠ ((.error cause, e') : Except Abort α × Env) := by
  intro same
  cases (Prod.mk.inj same).1

/-- Every answer is as it is expected, and if there is none, that is because something is short. -/
def Answers (o : Oracle) (P : Env → Prop) (x : Resolve α) (Q : α → Env → Prop) (short : Prop) : Prop :=
  ∀ e, P e → (∀ a e', x o e = (.ok a, e') → Q a e') ∧ ∀ cause e', x o e = (.error cause, e') → short

namespace Answers

variable {o : Oracle} {P : Env → Prop} {Q : α → Env → Prop} {R : β → Env → Prop} {x : Resolve α}
  {f : α → Resolve β} {short : Prop}

theorem pure {a : α} (h : ∀ e, P e → Q a e) : Answers o P (pure a) Q short := by
  refine fun e he => ⟨?_, fun _ _ failed => (ok_ne_error failed).elim⟩
  rintro _ _ ⟨⟩
  exact h e he

theorem bind (hx : Answers o P x Q short) (hf : ∀ a, Answers o (Q a) (f a) R short) :
    Answers o P (x >>= f) R short := by
  intro e he
  obtain ⟨answers, fails⟩ := hx e he
  rcases outcome : x o e with ⟨cause | a, e'⟩
  · rw [bind_apply_error outcome]
    refine ⟨fun _ _ answered => (ok_ne_error answered.symm).elim, ?_⟩
    rintro _ _ ⟨⟩
    exact fails cause e' outcome
  · rw [bind_apply_ok outcome]
    exact hf a e' (answers a e' outcome)

theorem get_bind {f : Env → Resolve β} (h : ∀ e, P e → Answers o (· = e) (f e) R short) :
    Answers o P (get >>= f) R short :=
  fun e he => h e he e rfl

theorem of_ok {a : α} (known : ∀ e, P e → x o e = (.ok a, e) ∧ Q a e) : Answers o P x Q short := by
  intro e he
  obtain ⟨answered, holds⟩ := known e he
  rw [answered]
  refine ⟨?_, fun _ _ failed => (ok_ne_error failed).elim⟩
  rintro _ _ ⟨⟩
  exact holds

theorem of_error {cause : Abort} (known : ∀ e, P e → x o e = (.error cause, e) ∧ short) :
    Answers o P x Q short := by
  intro e he
  obtain ⟨failed, holds⟩ := known e he
  rw [failed]
  exact ⟨fun _ _ answered => (ok_ne_error answered.symm).elim, fun _ _ _ => holds⟩

theorem pre {P' : Env → Prop} (h : Answers o P x Q short) (pre : ∀ e, P' e → P e) :
    Answers o P' x Q short :=
  fun e he => h e (pre e he)

theorem post {Q' : α → Env → Prop} (h : Answers o P x Q short) (post : ∀ a e, Q a e → Q' a e) :
    Answers o P x Q' short :=
  fun e he => ⟨fun a e' answered => post a e' ((h e he).1 a e' answered), (h e he).2⟩

theorem weaken {short' : Prop} (h : Answers o P x Q short) (weaken : short → short') :
    Answers o P x Q short' :=
  fun e he => ⟨(h e he).1, fun cause e' failed => weaken ((h e he).2 cause e' failed)⟩

theorem assume {c : Prop} (known : ∀ e, P e → c) (h : c → Answers o P x Q short) :
    Answers o P x Q short :=
  fun e he => h (known e he) e he

theorem ite {c : Prop} [Decidable c] {y : Resolve α} (hx : c → Answers o P x Q short)
    (hy : ¬c → Answers o P y Q short) : Answers o P (if c then x else y) Q short := by
  split
  · next h => exact hx h
  · next h => exact hy h

theorem ask {depth : Nat} {q : Query α} (zero : depth = 0 → short)
    (succ : ∀ d, depth = d + 1 → Answers (oracle d) P (answer q) Q short) :
    Answers (oracle depth) P (ask q) Q short := by
  cases depth with
  | zero => exact .of_error fun e _ => ⟨rfl, zero rfl⟩
  | succ d => exact succ d rfl

theorem of_triple {ℓ depth : Nat} (h : Triple ℓ P x Q)
    (fails : Answers (oracle depth) P x (fun _ _ => True) short) :
    Answers (oracle depth) P x Q short :=
  fun e he => ⟨fun _ _ answered => (h.at_depth he answered).2, (fails e he).2⟩

end Answers

end Answers

variable {e e' : Env} {depth : Nat} {name : String} {t : Ty}

theorem problemBinding_again {reason : ProblemReason} {o : Oracle} {b : BindingId}
    (given : problemBinding name reason o e = (.ok b, e')) :
    e'.problemBindings.lookup (name, reason) = some b ∧ e'.options = e.options ∧
      e'.byName = e.byName ∧ e'.missing = e.missing := by
  obtain ⟨_, _, ⟨⟩, given⟩ := bind_eq_ok given
  cases found : e.problemBindings.lookup (name, reason) with
  | some old =>
    rw [found] at given
    cases given
    exact ⟨found, rfl, rfl, rfl⟩
  | none =>
    rw [found] at given
    cases given
    exact ⟨List.lookup_cons_self, rfl, rfl, rfl⟩

theorem objectType_of_bound {root : BindingId}
    (bound : e.lookup? e.options.wellKnown.object = some root) :
    objectType (oracle (depth + 1)) e = (.ok (.declared root), e) := by
  have found : ask (.findType e.options.wellKnown.object) (oracle (depth + 1)) e = (.ok (some root), e) :=
    findType_of_bound bound
  have known : wellKnown (·.object) (oracle (depth + 1)) e = (.ok root, e) :=
    get_bind_apply.trans (bind_apply_ok found)
  exact bind_apply_ok known

theorem objectType_of_standIn {root : BindingId} (misses : e.Misses e.options.wellKnown.object)
    (standIn : e.problemBindings.lookup (e.options.wellKnown.object, .notFound) = some root) :
    objectType (oracle (depth + 1)) e = (.ok (.declared root), e) := by
  have missing : ask (.findType e.options.wellKnown.object) (oracle (depth + 1)) e = (.ok none, e) :=
    findType_of_misses misses
  have given : problemBinding e.options.wellKnown.object .notFound (oracle (depth + 1)) e =
      (.ok root, e) := by
    refine get_bind_apply.trans ?_
    rw [standIn]
    rfl
  have known : wellKnown (·.object) (oracle (depth + 1)) e = (.ok root, e) :=
    get_bind_apply.trans ((bind_apply_ok missing).trans given)
  exact bind_apply_ok known

theorem objectType_of_known (known : e.RootKnown) :
    ∃ root, ∀ depth, objectType (oracle (depth + 1)) e = (.ok (.declared root), e) := by
  rcases known with bound | ⟨misses, standIn⟩
  · obtain ⟨root, bound⟩ := Option.isSome_iff_exists.1 bound
    exact ⟨root, fun _ => objectType_of_bound bound⟩
  · obtain ⟨root, standIn⟩ := Option.isSome_iff_exists.1 standIn
    exact ⟨root, fun _ => objectType_of_standIn misses standIn⟩

theorem objectType_answers {P : Env → Prop} {short : Prop} (known : ∀ e, P e → e.RootKnown)
    (deep : depth = 0 → short) : Answers (oracle depth) P objectType (fun _ => P) short := by
  cases depth with
  | zero =>
    -- Nothing is answered at depth zero.
    exact .of_error fun e _ => ⟨rfl, deep rfl⟩
  | succ depth =>
    intro e he
    obtain ⟨root, looked⟩ := objectType_of_known (known e he)
    rw [looked]
    refine ⟨?_, fun _ _ failed => (ok_ne_error failed).elim⟩
    rintro _ _ ⟨⟩
    exact he

theorem rootKnown_of_objectType (answered : objectType (oracle (depth + 1)) e = (.ok t, e')) :
    e'.RootKnown := by
  obtain ⟨root, _, known, ⟨⟩⟩ := bind_eq_ok answered
  obtain ⟨_, _, ⟨⟩, known⟩ := bind_eq_ok known
  obtain ⟨found, mid, asked, known⟩ := bind_eq_ok known
  obtain ⟨runs, settled⟩ := findType_settled.at_depth rfl asked
  rw [Env.RootKnown]
  cases found with
  | some b =>
    cases known
    rw [runs.lasts.options]
    exact .inl settled.1
  | none =>
    obtain ⟨standIn, options, byName, missing⟩ := problemBinding_again known
    rw [options, runs.lasts.options, Env.Misses, Env.lookup?, byName, missing]
    exact .inr ⟨settled, Option.isSome_iff_exists.2 ⟨root, standIn⟩⟩

end Resolve

end TeamRoles
