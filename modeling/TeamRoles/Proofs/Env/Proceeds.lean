import TeamRoles.Proofs.Env.Anchors

/-!
Runs with what they do to fields and their anchors. Fields are left alone below the level they are resolved at, so
that a run in which the types above a type are being resolved finds no role in them that would not last.
-/

namespace TeamRoles

open Env

/-- The fields of a type are fields that a type may have. -/
def Part.Owned (e : Env) : (p : Part) → p.Value → Prop
  | .fields _, list => ∀ f ∈ list, e.OwnField f
  | _, _ => True

structure Env.FieldsRun (ℓ : Nat) (e e' : Env) : Prop extends e.FieldsLast e' where
  low : ℓ < 4 → e'.fields = e.fields
  /-- While its anchor is being resolved, a field does not change. -/
  waiting : ∀ f ∈ e.anchorsInProgress, f.index < e.fields.size → e'.field f = e.field f
  inProgress : e'.anchorsInProgress = e.anchorsInProgress

structure Proceeds (ℓ : Nat) (e : Env) (r : Option Abort) (e' : Env) : Prop where
  runs : Runs ℓ e r e'
  fields : e.FieldsRun ℓ e'
  anchored : e.Ranged → e.Anchored → e'.Anchored

variable {ℓ m : Nat} {e e' e'' : Env} {r : Option Abort} {p : Part} {f : FieldId} {x : Field}

namespace Env

def anchoring (e : Env) := (e.fields, e.anchorsInProgress)

namespace FieldsRun

theorem of_anchoring (same : e'.anchoring = e.anchoring) : e.FieldsRun ℓ e' := by
  obtain ⟨fields, inProgress⟩ := Prod.mk.inj same
  exact ⟨.of_fields fields, fun _ => fields, fun _ _ _ => field_eq_of_fields fields, inProgress⟩

theorem trans (h : e.FieldsRun ℓ e') (h' : e'.FieldsRun ℓ e'') : e.FieldsRun ℓ e'' where
  toFieldsLast := h.toFieldsLast.trans h'.toFieldsLast
  low level := (h'.low level).trans (h.low level)
  waiting f hf inside := by
    rw [h'.waiting f (h.inProgress ▸ hf) (Nat.lt_of_lt_of_le inside h.size), h.waiting f hf inside]
  inProgress := h'.inProgress.trans h.inProgress

theorem mono (h : e.FieldsRun ℓ e') (le : ℓ ≤ m) : e.FieldsRun m e' :=
  { h with low := fun low => h.low (Nat.lt_of_le_of_lt le low) }

end FieldsRun

theorem field_updateField {g : FieldId} {t : Ty} : (e.updateField f (Field.settle t)).field g =
    if g.index = f.index ∧ f.index < e.fields.size then (e.field g).settle t else e.field g := by
  rw [field, updateField, getD_modify]
  rfl

theorem field_updateField_of_ne {g : FieldId} {t : Ty} (h : g ≠ f) :
    (e.updateField f (Field.settle t)).field g = e.field g := by
  rw [field_updateField, if_neg fun same => h (congrArg FieldId.mk same.1)]

theorem fieldsRun_settle {t : Ty} (level : 4 ≤ ℓ) (idle : f ∉ e.anchorsInProgress)
    (pending : (e.field f).pendingAnchor ≠ none) : e.FieldsRun ℓ (e.updateField f (Field.settle t)) where
  size := Nat.le_of_eq Array.size_modify.symm
  frame g _ := by
    rw [field_updateField]
    split <;> rfl
  settled g _ rests := by
    refine field_updateField_of_ne ?_
    rintro rfl
    exact pending rests
  low low := absurd low (Nat.not_lt_of_le level)
  waiting g hg _ := field_updateField_of_ne (ne_of_mem_of_not_mem hg idle)
  inProgress := rfl

theorem fields_setSlot {s : Slot p.Value} : (e.setSlot p s).fields = e.fields := by
  cases p <;> rfl

theorem fieldsRun_setSlot {s : Slot p.Value} : e.FieldsRun ℓ (e.setSlot p s) :=
  .of_anchoring (by cases p <;> rfl)

theorem Anchored.of_resembles (h : e.Anchored) (ranged : e.Ranged) (like : e.Resembles e')
    (same : e'.fields = e.fields)
    (listed : ∀ b list, e'.slot (.fields b) = .resolved list →
      e.slot (.fields b) = .resolved list ∨ ∀ f ∈ list, e.OwnField f)
    (standIns : ∀ entry ∈ e'.problemBindings, entry ∈ e.problemBindings ∨ (e'.binding entry.2).isProblem = true) :
    e'.Anchored where
  listed b list known f hf := by
    refine OwnField.of_last ?_ (.of_fields same)
    exact (listed b list known).elim (fun old => h.listed b list old f hf) fun own => own f hf
  types f := by
    rw [field_eq_of_fields same]
    exact (h.types f).of_resembles ranged like (.of_fields same)
  standIns entry he := by
    refine (standIns entry he).elim (fun old => ?_) id
    rw [like.proj_eq (g := Binding.isProblem) (fun _ => rfl) (ranged.problems entry old)]
    exact h.standIns entry old

theorem Anchored.of_same (h : e.Anchored) (ranged : e.Ranged) (same : e.Same e') (fields : e'.fields = e.fields) :
    e'.Anchored :=
  h.of_resembles ranged same.lasts.resembles fields
    (fun b _ known => .inl ((same.slots (.fields b)).symm.trans known))
    fun _ => .inl ∘ (same.problems ▸ ·)

theorem Anchored.settle {t : Ty} (h : e.Anchored) (ranged : e.Ranged)
    (last : e.FieldsLast (e.updateField f (Field.settle t))) (anchors : e.Anchors ((e.field f).settle t)) :
    (e.updateField f (Field.settle t)).Anchored := by
  have same : e.Same (e.updateField f (Field.settle t)) := same_of_kept rfl
  refine ⟨fun b list known g hg => (h.listed b list known g hg).of_last last, fun g => ?_, h.standIns⟩
  refine Anchors.of_resembles ?_ ranged same.lasts.resembles last
  rw [field_updateField]
  split
  next here =>
    obtain rfl : g = f := congrArg FieldId.mk here.1
    exact anchors
  next => exact h.types g

theorem Anchored.begin (h : e.Anchored) (ranged : e.Ranged) (has : e.Has p) (fresh : e.slot p = .unresolved) :
    (e.setSlot p .inProgress).Anchored := by
  refine h.of_resembles ranged (Lasts.of_setSlot fresh (.refl _)).resembles fields_setSlot
    (fun b list known => .inl ?_) fun _ he => .inl (sameFrame_setSlot.problems ▸ he)
  rwa [slot_setSlot_of_ne] at known
  rintro rfl
  cases (slot_setSlot_self has).symm.trans known

end Env

theorem Step.fields_of_resolved {b : BindingId} {list : List FieldId} (h : Step ℓ e e')
    (known : e'.slot (.fields b) = .resolved list) : e.slot (.fields b) = .resolved list ∨ list = [] := by
  cases h with
  | quiet same => exact .inl ((same.slots _).symm.trans known)
  | declare _ _ bare | load _ _ _ bare =>
    exact .inl ((slot_addBinding_of_bare (p := .fields b) bare.eq).symm.trans known)
  | @standIn name reason =>
    change (e.addBinding (.standIn name reason)).slot (.fields b) = _ at known
    by_cases new : b = e.nextBinding
    · subst new
      rw [slot, binding_addBinding_self] at known
      cases known
      exact .inr rfl
    · rw [slot, binding_addBinding_of_ne new] at known
      exact .inl known
  | roleFile => exact .inl ((slot_addRoleFile _).symm.trans known)
  | @store c v => cases c <;> exact .inl known
  | _ => exact .inl known

theorem Step.problem_of_mem (h : Step ℓ e e') :
    ∀ entry ∈ e'.problemBindings, entry ∈ e.problemBindings ∨ (e'.binding entry.2).isProblem = true := by
  cases h with
  | quiet same => exact fun _ => .inl ∘ (same.problems ▸ ·)
  | @standIn name reason =>
    refine List.forall_mem_cons.2 ⟨.inr ?_, fun _ => .inl⟩
    change ((e.addBinding (.standIn name reason)).binding e.nextBinding).isProblem = true
    rw [binding_addBinding_self]
    rfl
  | @store c v => cases c <;> exact fun _ => .inl
  | _ => exact fun _ => .inl

namespace Proceeds

theorem step (h : Step ℓ e e') (same : e'.anchoring = e.anchoring) : Proceeds ℓ e none e' where
  runs := .step h
  fields := .of_anchoring same
  anchored ranged anchored := by
    refine anchored.of_resembles ranged h.lasts.resembles (Prod.mk.inj same).1 (fun b list known => ?_)
      h.problem_of_mem
    refine (h.fields_of_resolved known).imp_right ?_
    rintro rfl
    exact nofun

theorem of_eq (runs : Runs ℓ e r e) : Proceeds ℓ e r e := ⟨runs, .of_anchoring rfl, fun _ anchored => anchored⟩

theorem done : Proceeds ℓ e none e := .of_eq .done

theorem stop {cause : Abort} (h : cause.isReentrant = false) : Proceeds ℓ e (some cause) e := .of_eq (.stop h)

theorem reentrant {c : Component} {name : String} (component : p.component? = some c) (level : p.level ≤ ℓ)
    (begun : e.slot p = .inProgress) : Proceeds ℓ e (some (.reentrant name c)) e :=
  .of_eq (.reentrant component level begun)

theorem mono (h : Proceeds ℓ e r e') (le : ℓ ≤ m) : Proceeds m e r e' :=
  ⟨h.runs.mono le, h.fields.mono le, h.anchored⟩

theorem seq (h : Proceeds ℓ e none e') (h' : Proceeds ℓ e' r e'') : Proceeds ℓ e r e'' where
  runs := .seq h.runs h'.runs
  fields := h.fields.trans h'.fields
  anchored ranged anchored := h'.anchored (h.runs.ranged ranged) (h.anchored ranged anchored)

theorem fields_of_begun (h : Proceeds p.inner (e.setSlot p .inProgress) r e') (level : p.level ≤ ℓ) :
    e.FieldsRun ℓ e' :=
  fieldsRun_setSlot.trans (h.fields.mono (Nat.le_trans p.inner_le_level level))

theorem abort {cause : Abort} (level : p.level ≤ ℓ) (has : e.Has p) (fresh : e.slot p = .unresolved)
    (h : Proceeds p.inner (e.setSlot p .inProgress) (some cause) e') : Proceeds ℓ e (some cause) e' where
  runs := .abort level has fresh h.runs
  fields := h.fields_of_begun level
  anchored ranged anchored := h.anchored (ranged.begin has) (anchored.begin ranged has fresh)

theorem resolve {v : p.Value} (level : p.level ≤ ℓ) (has : e.Has p) (fresh : e.slot p = .unresolved)
    (h : Proceeds p.inner (e.setSlot p .inProgress) none e') (allows : p.Allows e v e') (owned : p.Owned e' v) :
    Proceeds ℓ e none (e'.setSlot p (.resolved v)) := by
  have whole : Runs ℓ e none (e'.setSlot p (.resolved v)) := .resolve level has fresh h.runs allows
  refine ⟨whole, (h.fields_of_begun level).trans fieldsRun_setSlot, fun ranged anchored => ?_⟩
  have begun := h.anchored (ranged.begin has) (anchored.begin ranged has fresh)
  have pending : e'.slot p = .inProgress := by
    rw [h.runs.lasts.slots p (by simp [slot_setSlot_self has]), slot_setSlot_self has]
  refine ⟨fun b list known f hf => OwnField.of_last ?_ (.of_fields fields_setSlot), fun f => ?_, fun entry he => ?_⟩
  · by_cases same : p = .fields b
    · subst same
      cases (slot_setSlot_self ((h.runs.lasts.of_setSlot fresh).has has)).symm.trans known
      exact owned f hf
    · rw [slot_setSlot_of_ne (Ne.symm same)] at known
      exact begun.listed b list known f hf
  · rw [field_eq_of_fields fields_setSlot]
    by_cases above : ∃ b, p = .supertypes b
    · -- No field gets its type while supertypes are being resolved.
      obtain ⟨b, rfl⟩ := above
      have low : e'.fields = e.fields := (h.fields.low (by simp [Part.inner])).trans fields_setSlot
      rw [field_eq_of_fields low]
      exact (anchored.types f).of_resembles ranged whole.lasts.resembles (.of_fields (fields_setSlot.trans low))
    · have like := resembles_setSlot (s := .resolved v) pending fun b same => above ⟨b, same⟩
      exact (begun.types f).of_resembles (h.runs.ranged (ranged.begin has)) like (.of_fields fields_setSlot)
  · rw [sameFrame_setSlot.proj_eq (g := Binding.isProblem) fun _ => rfl]
    exact begun.standIns entry (sameFrame_setSlot.problems ▸ he)

theorem lasts (h : Proceeds ℓ e r e') : e.Lasts e' := h.runs.lasts

theorem «extends» (h : Proceeds ℓ e r e') : e.Extends e' := h.runs.extends

theorem ranged (h : Proceeds ℓ e r e') (ranged : e.Ranged) : e'.Ranged := h.runs.ranged ranged

theorem addField (level : 4 ≤ ℓ) (anchors : e.Ranged → e.Anchored → e.Anchors x) :
    Proceeds ℓ e none (e.addField x) := by
  have same : e.Same (e.addField x) := same_of_kept rfl
  have old (f : FieldId) (inside : f.index < e.fields.size) : (e.addField x).field f = e.field f := by
    rw [field, Env.addField, getD_push, if_neg (Nat.ne_of_lt inside), field]
  have last : e.FieldsLast (e.addField x) := {
    size := Array.size_push x ▸ Nat.le_succ _
    frame := fun f inside => congrArg Field.frame (old f inside)
    settled := fun f inside _ => old f inside }
  refine ⟨.step (.quiet same), ⟨last, fun low => absurd low (Nat.not_lt_of_le level), fun f _ => old f, rfl⟩,
    fun ranged anchored =>
      ⟨fun b list known f hf => (anchored.listed b list known f hf).of_last last, fun f => ?_, anchored.standIns⟩⟩
  refine Anchors.of_resembles ?_ ranged same.lasts.resembles last
  rw [field, Env.addField, getD_push]
  split
  · exact anchors ranged anchored
  · exact anchored.types f

theorem anchor (idle : f ∉ e.anchorsInProgress) (h : Proceeds ℓ (e.beginAnchor f) r e') :
    Proceeds ℓ e r (e'.endAnchor f) := by
  have begun : e.Same (e.beginAnchor f) := same_of_kept rfl
  have ended : e'.Same (e'.endAnchor f) := same_of_kept rfl
  have runs : Runs ℓ e r e' := .seq (.step (.quiet begun)) h.runs
  have last : e.FieldsLast (e'.endAnchor f) := ⟨h.fields.size, h.fields.frame, h.fields.settled⟩
  refine ⟨?_, ⟨last, h.fields.low, fun g hg => ?_, ?_⟩, fun ranged anchored => ?_⟩
  · cases r with
    | none => exact .seq runs (.step (.quiet ended))
    | some cause => exact .cleanup runs ended
  · exact h.fields.waiting g (List.mem_cons_of_mem f hg)
  · rw [endAnchor, h.fields.inProgress, beginAnchor, List.filter_cons_of_neg (by simp), List.filter_eq_self]
    intro g hg
    simpa using ne_of_mem_of_not_mem hg idle
  · have marked := anchored.of_same ranged begun rfl
    exact (h.anchored ((Step.quiet (ℓ := ℓ) begun).ranged ranged) marked).of_same (runs.ranged ranged) ended rfl

theorem settle {t : Ty} (h : Proceeds ℓ e none e') (level : 4 ≤ ℓ) (idle : f ∉ e'.anchorsInProgress)
    (pending : (e'.field f).pendingAnchor ≠ none)
    (anchors : e.Ranged → e.Anchored → e'.Anchors ((e'.field f).settle t)) :
    Proceeds ℓ e none (e'.updateField f (Field.settle t)) where
  runs := .seq h.runs (.step (.quiet (same_of_kept rfl)))
  fields := h.fields.trans (fieldsRun_settle level idle pending)
  anchored ranged anchored :=
    (h.anchored ranged anchored).settle (h.ranged ranged) (fieldsRun_settle level idle pending).toFieldsLast
      (anchors ranged anchored)

end Proceeds

end TeamRoles
