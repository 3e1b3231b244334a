import TeamRoles.Mapping.Select
import TeamRoles.Proofs.Env.Lawful

/-!
The two signatures of a method. To show the other one and then the first again leaves everything as it was.
-/

namespace TeamRoles

namespace Method

theorem visible_of_entered {x y : Method} (h : x.enterSourceView = .ok y) : y.visible = x.declared := by
  unfold enterSourceView at h
  split at h
  · next views =>
    cases h
    obtain ⟨enhanced, known⟩ := Option.isSome_iff_exists.1 views
    simp [visible, view, known, signature]
  · cases h

theorem exit_of_entered {x y : Method} (h : x.enterSourceView = .ok y) : y.exitSourceView = .ok x := by
  unfold enterSourceView at h
  split at h
  · cases h
    rfl
  · cases h

end Method

namespace Env

variable {e : Env} {m : MethodId} {x y : Method}

theorem lt_size_of_hasViews (h : (e.method m).hasViews = true) : m.index < e.methods.size := by
  by_contra outside
  rw [method_of_size_le (Nat.le_of_not_lt outside)] at h
  cases h

theorem updateMethod_back : (e.updateMethod m fun _ => x).updateMethod m (fun _ => e.method m) = e := by
  have methods : (e.methods.modify m.index fun _ => x).modify m.index (fun _ => e.method m) = e.methods := by
    refine Array.ext (by simp) fun i _ inside => ?_
    simp only [Array.getElem_modify]
    split
    · next here => simp [method, here, inside]
    · rfl
  unfold updateMethod
  rw [methods]

end Env

namespace Resolve

theorem changeView_apply {change : Method → Except ViewError Method} {m : MethodId} {x : Method} {o : Oracle}
    {e : Env} (h : change (e.method m) = .ok x) : changeView change m o e = (.ok (), e.updateMethod m fun _ => x) := by
  unfold changeView
  refine (bind_apply_ok (a := e) rfl).trans ?_
  simp only [h]
  rfl

theorem sourceViewSignature_apply {m : MethodId} {o : Oracle} {e : Env} :
    sourceViewSignature m o e = (.ok (e.method m).declared, e) := by
  change (if (e.method m).hasViews then _ else _ : Resolve MethodType) o e = _
  split
  · next views =>
    obtain ⟨x, entered⟩ : ∃ x, (e.method m).enterSourceView = .ok x := ⟨_, if_pos views⟩
    have shown : (e.updateMethod m fun _ => x).method m = x := by
      rw [Env.method_updateMethod, if_pos ⟨rfl, Env.lt_size_of_hasViews views⟩]
    have left : changeView Method.exitSourceView m o (e.updateMethod m fun _ => x) = (.ok (), e) := by
      rw [changeView_apply (x := e.method m), Env.updateMethod_back]
      rw [shown]
      exact Method.exit_of_entered entered
    rw [bind_apply_ok (changeView_apply entered)]
    refine (bind_apply_ok left).trans ?_
    rw [shown, Method.visible_of_entered entered]
    rfl
  · next one =>
    have unwoven : (e.method m).enhanced = none := by simpa [Method.hasViews] using one
    change ((.ok (e.method m).visible : Except Abort MethodType), e) = _
    simp [Method.visible, Method.view, unwoven, Method.signature]

theorem sourceViewSignature_eq {m : MethodId} :
    sourceViewSignature m = do return ((← get).method m).declared :=
  funext fun _ => funext fun _ => sourceViewSignature_apply

end Resolve

end TeamRoles
