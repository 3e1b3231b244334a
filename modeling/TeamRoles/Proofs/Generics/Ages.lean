import TeamRoles.Proofs.Pairing.Session
import TeamRoles.Proofs.Scoped.Session
import TeamRoles.Proofs.Types.Table

/-!
The ages of captures. Captures are made by capture conversion only, which is given a type of the session; so the
types that a capture is made of mention older captures only, and looking into upper bounds never leads back to a
capture (`ReachableKnown.aged`).
-/

namespace TeamRoles

namespace Ty

variable {k m : Nat} {t : Ty}

/-- The captures that the type mentions are among the first ones. -/
inductive Within (k : Nat) : Ty → Prop
  | intro {t : Ty} (own : ∀ c, t = .captured c → c.index < k) (parts : ∀ p ∈ t.parts, Within k p) : Within k t

/-- If looking into the type leads to a capture, then to one of the first ones. -/
def RestsBelow (k : Nat) : Ty → Prop
  | .captured c => c.index < k
  | .wildcard .extends (some bound) => bound.RestsBelow k
  | .array component => component.RestsBelow k
  | .anchored role _ => role.RestsBelow k
  | _ => True

theorem RestsBelow.mono (h : t.RestsBelow k) (le : k ≤ m) : t.RestsBelow m := by
  fun_induction RestsBelow k t with
  | case1 c => exact Nat.lt_of_lt_of_le h le
  | case2 bound ih => exact ih h
  | case3 component ih => exact ih h
  | case4 role path ih => exact ih h
  | case5 t => unfold RestsBelow; split <;> simp_all

theorem Within.part {p : Ty} (h : t.Within k) (part : p ∈ t.parts) : p.Within k := by
  obtain ⟨-, parts⟩ := h
  exact parts p part

theorem Within.restsBelow (h : t.Within k) : t.RestsBelow k := by
  fun_induction RestsBelow k t with
  | case1 c =>
    obtain ⟨own, -⟩ := h
    exact own c rfl
  | case2 bound ih => exact ih (h.part (by simp [parts]))
  | case3 component ih => exact ih (h.part (by simp [parts]))
  | case4 role path ih => exact ih (h.part (by simp [parts]))
  | case5 => trivial

end Ty

namespace Env

variable {e d : Env} {t : Ty} {k : Nat}

theorem Rooted.restsBelow (h : e.Rooted t) : t.RestsBelow k := by
  fun_induction Ty.RestsBelow k t with
  | case1 c => exact False.elim h
  | case2 bound ih => exact ih h
  | case3 component ih => exact ih h
  | case4 role path ih => exact ih h
  | case5 => trivial

/-- Every capture rests on older ones, and what variables are bounded by on none. -/
structure Aged (e : Env) : Prop where
  bounds : ∀ v, ∀ t ∈ (e.typeVar v).bounds, t.RestsBelow 0
  uppers : ∀ c, (e.capture c).upper.RestsBelow c.index

theorem Aged.of_captures (h : e.Aged) (closed : d.Scoped) (same : d.captures = e.captures) : d.Aged where
  bounds v t ht := (closed.bounds v t ht).restsBelow
  uppers c := by
    rw [capture, same]
    exact h.uppers c

theorem Aged.addCapture {x : Capture} (h : e.Aged) (upper : x.upper.RestsBelow e.captures.size) :
    Aged { e with captures := e.captures.push x } where
  bounds := h.bounds
  uppers c := by
    rw [capture, Array.getElem?_push]
    split
    · next last => simpa [last] using upper
    · exact h.uppers c

theorem Aged.declared {var : Option TypeVarId} {root : BindingId} (h : e.Aged) :
    ((var.bind fun v => (e.typeVar v).bounds.head?).getD (.declared root)).RestsBelow k := by
  cases found : var.bind fun v => (e.typeVar v).bounds.head? with
  | none => trivial
  | some bound =>
    obtain ⟨v, -, first⟩ := Option.bind_eq_some_iff.1 found
    exact (h.bounds v bound (List.mem_of_head? first)).mono (Nat.zero_le _)

theorem aged_new {provider : Provider} {options : Options} {config : SeverityConfig} :
    Aged { options, provider, diagnostics := { config } } :=
  ⟨fun _ => List.forall_mem_nil _, fun _ => trivial⟩

end Env

def Pairing.sameCaptures (start : Array Capture) : Pairing where
  Pairs e e' := e' = e ∧ e.captures = start
  Queues _ _ := True
  Builds := True
  Opens := False
  alike := fun ⟨same, _⟩ => .inl same
  begun _ _ _ := .inr fun _ _ => trivial
  designator _ _ _ _ := trivial
  apart := fun _ _ captures ⟨same, kept⟩ =>
    ⟨by rw [same], (captures.elim (fun captures => captures _) False.elim).trans kept⟩
  report := fun ⟨same, kept⟩ => ⟨by rw [same], kept⟩
  update := fun _ ⟨same, kept⟩ => ⟨by rw [same], kept⟩
  members := fun ⟨same, kept⟩ _ => ⟨by rw [same], kept⟩
  add := fun _ ⟨same, kept⟩ => ⟨by rw [same], kept⟩
  attach := fun _ ⟨same, kept⟩ => ⟨by rw [same], kept⟩
  roleFile := fun _ ⟨same, kept⟩ => ⟨by rw [same], kept⟩
  queue := fun _ ⟨same, kept⟩ => ⟨by rw [same], kept⟩
  drain := fun ⟨same, kept⟩ => ⟨by rw [same], kept⟩

namespace Resolve

variable {α β : Type} {x : Resolve α} {f : α → Resolve β} {e : Env} {t : Ty} {k : Nat}

theorem aged_of_keeps (closed : e.Scoped) (aged : e.Aged) (calm : Calm x)
    (keeps : Keeps (.sameCaptures e.captures) x) :
    (x.run e).2.Scoped ∧ (x.run e).2.Aged ∧ (x.run e).2.captures = e.captures := by
  have same : (x.run e).2.captures = e.captures := (keeps.run (e := e) ⟨rfl, rfl⟩).2.2
  have later := (calm.run closed).closed
  exact ⟨later, aged.of_captures later same, same⟩

theorem aged_bind (first : (x.run e).2.Aged) (rest : ∀ a d, x.run e = (.ok a, d) → ((f a).run d).2.Aged) :
    ((x >>= f).run e).2.Aged := by
  rcases outcome : x.run e with ⟨cause | a, d⟩
  · rw [outcome] at first
    rwa [run, bind_apply_error outcome]
  · rw [run, bind_apply_ok outcome]
    exact rest a d outcome

/-- The resolution makes captures only that rest on older ones, in any environment with as many captures. -/
def Ages (k : Nat) (x : Resolve α) : Prop :=
  ∀ (o : Oracle) (d : Env), d.Aged → k ≤ d.captures.size → (x o d).2.Aged ∧ k ≤ (x o d).2.captures.size

namespace Ages

theorem pure {a : α} : Ages k (pure a) := fun _ _ aged many => ⟨aged, many⟩

theorem bind (hx : Ages k x) (hf : ∀ a, Ages k (f a)) : Ages k (x >>= f) := by
  intro o d aged many
  have ends := ends_bind (S := fun _ d => d.Aged ∧ k ≤ d.captures.size) (Q := fun _ _ => True) (R := fun _ _ => True)
    ⟨hx o d aged many, fun _ _ => trivial⟩ fun a c ⟨aged, many⟩ _ => ⟨hf a o c aged many, fun _ _ => trivial⟩
  exact ends.1

theorem get_bind {f : Env → Resolve β} (h : ∀ d, d.Aged → Ages k (f d)) : Ages k (get >>= f) :=
  fun o d aged many => h d aged o d aged many

theorem compositional : Compositional (Ages k) where
  pure := pure
  bind := bind
  tooDeep _ _ aged many := ⟨aged, many⟩
  depth _ _ aged many := ⟨aged, many⟩

theorem addCapture {x : Capture} (upper : x.upper.RestsBelow k) : Ages k (addCapture x) := by
  intro o d aged many
  refine ⟨aged.addCapture (upper.mono many), Nat.le_trans many ?_⟩
  change d.captures.size ≤ (d.captures.push x).size
  rw [Array.size_push]
  exact Nat.le_succ _

end Ages

/-- What a wildcard is opened to is bounded by a part of the wildcard, by the bound of a variable or by the root. -/
theorem aged_capture {site : Span} (closed : e.Scoped) (aged : e.Aged) (known : t.Within e.captures.size) :
    ((capture t site).run e).2.Aged := by
  unfold capture
  split
  · next generic args enclosing =>
    dsimp only
    split
    · obtain ⟨closed₁, aged₁, same₁⟩ := aged_of_keeps closed aged (.ask (.typeVariables generic)) .ask
      refine aged_bind aged₁ fun vars d first => ?_
      rw [first] at closed₁ aged₁ same₁
      obtain ⟨-, aged₂, same₂⟩ := aged_of_keeps closed₁ aged₁ calm_objectType keeps_objectType
      refine aged_bind aged₂ fun object d' second => ?_
      rw [second] at aged₂ same₂
      obtain ⟨root, _, -, ⟨⟩⟩ := bind_eq_ok second
      have many : e.captures.size ≤ d'.captures.size := by rw [same₂, same₁]
      refine (Ages.bind (Ages.compositional.mapM ?_) (fun _ => .pure) _ d' aged₂ many).1
      -- A capture is bounded by a part of the captured type, which mentions older ones only.
      rintro ⟨arg, index⟩ member
      refine .get_bind fun c aged => ?_
      dsimp only
      split
      · next kind bound =>
        refine Ages.bind (.addCapture ?_) fun _ => .pure
        dsimp only
        split
        · next inner =>
          have part : Ty.wildcard .extends (some inner) ∈ (Ty.parameterized generic args enclosing).parts :=
            List.mem_append_left _ (List.fst_mem_of_mem_zipIdx member)
          exact (known.part part).restsBelow
        · exact aged.declared
        · exact aged.declared
      · exact .pure
    · exact aged
  · exact aged

end Resolve

namespace Operation

/-- Captures that the operation is given to work on are there. -/
def Known {α : Type} (e : Env) : Operation α → Prop
  | capture t _ => t.Within e.captures.size
  | _ => True

theorem aged_perform {α : Type} {e : Env} (op : Operation α) (closed : e.Scoped) (aged : e.Aged) (known : op.Known e) :
    (op.perform.run e).2.Aged := by
  by_cases opens : op.Opens
  · cases op with
    | capture t site => exact Resolve.aged_capture closed aged known
    | _ => exact opens.elim
  · have keeps := Resolve.keeps_perform (p := .sameCaptures e.captures) trivial op fun h => absurd h opens
    exact (Resolve.aged_of_keeps closed aged op.calm_perform keeps).2.1

end Operation

namespace Env

variable {provider : Provider} {options : Options}

/-- Environments of a session in which wildcards are opened only in types of the session. -/
inductive ReachableKnown (provider : Provider) (options : Options) : Env → Prop
  | new {e : Env} : Env.new provider options = .ok e → ReachableKnown provider options e
  | step {e : Env} {α : Type} (op : Operation α) : op.Known e → ReachableKnown provider options e →
    ReachableKnown provider options (op.perform.run e).2

theorem ReachableKnown.reachable {e : Env} (h : ReachableKnown provider options e) :
    Reachable provider options e := by
  induction h with
  | new made => exact .new made
  | step op _ _ ih => exact .step op ih

theorem ReachableKnown.aged {e : Env} (h : ReachableKnown provider options e) : e.Aged := by
  induction h with
  | new made =>
    obtain ⟨config, rfl⟩ := eq_of_new made
    exact aged_new
  | step op known before aged => exact op.aged_perform before.reachable.scoped.1 aged known

end Env

end TeamRoles
