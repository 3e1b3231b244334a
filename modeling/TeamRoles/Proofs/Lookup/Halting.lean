import TeamRoles.Proofs.Env.Lawful
import TeamRoles.Session

/-!
Looking names up comes to an end. A type is read from its descriptor after the type around it, which may have to
be read as well; so the types around a type, as the descriptors have them, must come to an end (`halts_findType`).
If they go round, the lookup does so as well (`findType_of_unread`).
-/

namespace TeamRoles

/-- The provider has a descriptor of that name which says that the type lies in the other one. -/
def Provider.Around (p : Provider) (outer name : String) : Prop :=
  ∃ d, p.find name = .ok (some d) ∧ d.enclosing = some outer ∧ outer ≠ d.name

namespace Resolve

variable {α β : Type} {e : Env} {x : Resolve α} {f : α → Resolve β}

/-- The resolution gives a result, always the same one once questions may nest deep enough. -/
def Halts (e : Env) (x : Resolve α) : Prop := ∃ depth a e', ∀ n ≥ depth, x (oracle n) e = (.ok a, e')

namespace Halts

theorem pure {a : α} : Halts e (pure a) := ⟨0, a, e, fun _ _ => rfl⟩

theorem bind (hx : Halts e x) (hf : ∀ a d, Halts d (f a)) : Halts e (x >>= f) := by
  obtain ⟨depth, a, d, first⟩ := hx
  obtain ⟨depth', b, d', second⟩ := hf a d
  refine ⟨max depth depth', b, d', fun n deep => ?_⟩
  rw [bind_apply_ok (first n (Nat.le_trans (Nat.le_max_left _ _) deep))]
  exact second n (Nat.le_trans (Nat.le_max_right _ _) deep)

theorem get_bind {f : Env → Resolve β} (h : Halts e (f e)) : Halts e (get >>= f) := h

theorem modifyGet {f : Env → α × Env} : Halts e (modifyGet f) := ⟨0, (f e).1, (f e).2, fun _ _ => rfl⟩

theorem modify {f : Env → Env} : Halts e (modify f) := modifyGet

theorem ask {q : Query α} (h : Halts e (answer q)) : Halts e (ask q) := by
  obtain ⟨depth, a, e', answered⟩ := h
  refine ⟨depth + 1, a, e', fun n deep => ?_⟩
  obtain ⟨m, rfl⟩ := Nat.exists_eq_add_one.2 (Nat.zero_lt_of_lt deep)
  exact answered m (Nat.le_of_succ_le_succ deep)

end Halts

variable {b : BindingId} {d : Descriptor} {name : String}

theorem halts_problemBinding {reason : ProblemReason} : Halts e (problemBinding name reason) := by
  refine .get_bind ?_
  split
  · exact .pure
  · exact .bind .modifyGet fun _ _ => .bind .modify fun _ _ => .pure

theorem halts_reportFor {p : ProblemId} {span : Span} {arguments : List String} :
    Halts e (reportFor b p span arguments) := .get_bind .modify

theorem halts_reportLimitation : Halts e (reportLimitation b d) := by
  unfold reportLimitation
  split
  · exact halts_reportFor
  · exact halts_reportFor
  · exact .pure

theorem halts_addDescriptor
    (around : ∀ outer, d.enclosing = some outer → outer ≠ d.name → Halts e (ask (.findType outer))) :
    Halts e (addDescriptor d) := by
  unfold addDescriptor
  extract_lets isTeam declare
  have declared (enclosing : Option BindingId) (c : Env) : Halts c (declare enclosing) := by
    refine .get_bind ?_
    split
    · exact .pure
    · refine .bind .modifyGet fun _ _ => .bind .modify fun _ _ => ?_
      exact .bind (.get_bind .modify) fun _ _ => .bind halts_reportLimitation fun _ _ => .pure
  split
  · next outer enclosing =>
    split
    · exact .bind .pure declared
    · next other => exact .bind (around outer enclosing (by simpa using other)) declared
  · exact .bind .pure declared

/-- A name is looked up to the end, whatever is loaded for it: the induction is on the types around it. -/
theorem halts_findType (ends : Acc e.provider.Around name) : Halts e (findType name) := by
  generalize same : e.provider = provider at ends
  induction ends generalizing e with
  | intro name _ ih =>
    refine .get_bind ?_
    split
    · exact .pure
    · split
      · exact .pure
      · split
        · next d given =>
          have around (outer : String) (enclosing : d.enclosing = some outer) (other : outer ≠ d.name) :
              Halts e (ask (.findType outer)) :=
            .ask (ih outer ⟨d, same ▸ given, enclosing, other⟩ same)
          refine .bind (halts_addDescriptor around) fun b c => .get_bind ?_
          split
          · exact .bind .modify fun _ _ => .pure
          · exact .pure
        · exact .bind .modify fun _ _ => .pure
        · exact .bind halts_problemBinding fun _ _ => .bind .modify fun _ _ => .bind halts_reportFor fun _ _ => .pure

theorem findType_of_outer {o : Oracle} {outer : String} {cause : Abort} (unbound : e.lookup? name = none)
    (notMissing : name ∉ e.missing) (around : e.provider.Around outer name)
    (aborted : ask (.findType outer) o e = (.error cause, e)) : findType name o e = (.error cause, e) := by
  obtain ⟨d, given, enclosing, other⟩ := around
  have added : addDescriptor d o e = (.error cause, e) := by
    unfold addDescriptor
    rw [enclosing]
    dsimp only
    rw [if_neg (by simpa using other)]
    exact bind_apply_error aborted
  have got : (get : Resolve Env) o e = (.ok e, e) := rfl
  rw [findType, bind_apply_ok got, unbound]
  dsimp only
  rw [if_neg (by simpa using notMissing), given]
  exact bind_apply_error added

/-- None of the types has been read or asked for in vain, and each of them lies in another one of them. -/
def Unread (e : Env) (names : String → Prop) : Prop :=
  ∀ name, names name → (e.lookup? name = none ∧ name ∉ e.missing) ∧
    ∃ outer, e.provider.Around outer name ∧ names outer

/-- However deep questions may nest, the lookup nests deeper: the induction is on the depth. -/
theorem findType_of_unread {names : String → Prop} (unread : Unread e names) (h : names name) (n : Nat) :
    findType name (oracle n) e = (.error .tooDeep, e) := by
  induction n generalizing name with
  | zero =>
    obtain ⟨⟨unbound, notMissing⟩, outer, around, -⟩ := unread name h
    exact findType_of_outer unbound notMissing around rfl
  | succ n ih =>
    obtain ⟨⟨unbound, notMissing⟩, outer, around, isNext⟩ := unread name h
    exact findType_of_outer unbound notMissing around (ih isNext)

theorem objectType_of_unread {names : String → Prop} (unread : Unread e names) (h : names e.options.wellKnown.object)
    (n : Nat) : objectType (oracle n) e = (.error .tooDeep, e) := by
  have asked : ask (.findType e.options.wellKnown.object) (oracle n) e = (.error .tooDeep, e) := by
    cases n with
    | zero => rfl
    | succ n => exact findType_of_unread unread h n
  have found : findTypeOrProblem e.options.wellKnown.object (oracle n) e = (.error .tooDeep, e) :=
    bind_apply_error asked
  have got : (get : Resolve Env) (oracle n) e = (.ok e, e) := rfl
  have known : wellKnown (·.object) (oracle n) e = (.error .tooDeep, e) := by
    rw [wellKnown, bind_apply_ok got]
    exact found
  exact bind_apply_error known

theorem halts_objectType (ends : Acc e.provider.Around e.options.wellKnown.object) : Halts e objectType := by
  refine .bind (.get_bind (.bind (.ask (halts_findType ends)) fun found _ => ?_)) fun _ _ => .pure
  split
  · exact .pure
  · exact halts_problemBinding

end Resolve

end TeamRoles
