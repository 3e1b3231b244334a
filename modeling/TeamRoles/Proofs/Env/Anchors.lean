import TeamRoles.Proofs.Env.Tsuper

/-!
Fields with anchored types. The path of an anchor leads through final fields to a team, and the role is what a
search in that team finds; a copy of such a field has the role that stands for it in the team of the copy. All this
lasts: a field gets another type only while its anchor is pending.
-/

namespace TeamRoles

def Field.frame (x : Field) : Field := { x with type := default, pendingAnchor := none }

def Ty.IsPlain : Ty → Prop
  | .anchored _ _ => False
  | _ => True

theorem Ty.not_isPlain_anchored {role : Ty} {path : List FieldId} : ¬(Ty.anchored role path).IsPlain := id

def Field.settle (t : Ty) (x : Field) : Field := { x with type := t, pendingAnchor := none }

def FieldOrigin.isParameterized : FieldOrigin → Bool
  | .parameterized _ => true
  | _ => false

namespace Env

section Arrays

variable {α : Type} [Inhabited α] {a : Array α} {i j : Nat} {x : α} {f : α → α}

theorem getD_push : (a.push x)[j]?.getD default = if j = a.size then x else a[j]?.getD default := by
  rw [Array.getElem?_push]
  split <;> rfl

theorem getD_modify : (a.modify i f)[j]?.getD default =
    if j = i ∧ i < a.size then f (a[j]?.getD default) else a[j]?.getD default := by
  rw [Array.getElem?_modify]
  grind

end Arrays

def addField (e : Env) (f : Field) : Env := { e with fields := e.fields.push f }

def updateField (e : Env) (i : FieldId) (f : Field → Field) : Env :=
  { e with fields := e.fields.modify i.index f }

def beginAnchor (e : Env) (f : FieldId) : Env := { e with anchorsInProgress := f :: e.anchorsInProgress }

def endAnchor (e : Env) (f : FieldId) : Env :=
  { e with anchorsInProgress := e.anchorsInProgress.filter (· != f) }

variable {e e' e'' : Env} {f g : FieldId} {x : Field} {simple : String} {a role team c : BindingId}
  {seen todo members : List BindingId} {path : List FieldId}

theorem field_of_size_le (h : e.fields.size ≤ f.index) : e.field f = default := by
  rw [field, Array.getElem?_eq_none h]
  rfl

theorem lt_size_of_field_ne (h : e.field f ≠ default) : f.index < e.fields.size :=
  Nat.lt_of_not_le fun outside => h (field_of_size_le outside)

theorem lt_size_of_isFinal (h : (e.field f).isFinal = true) : f.index < e.fields.size := by
  refine lt_size_of_field_ne fun outside => ?_
  rw [outside] at h
  cases h

/-- What there is of fields is kept, and so is a type that does not depend on a pending anchor. -/
structure FieldsLast (e e' : Env) : Prop where
  size : e.fields.size ≤ e'.fields.size
  frame : ∀ f, f.index < e.fields.size → (e'.field f).frame = (e.field f).frame
  settled : ∀ f, f.index < e.fields.size → (e.field f).pendingAnchor = none → e'.field f = e.field f

theorem field_eq_of_fields (h : e'.fields = e.fields) : e'.field f = e.field f := by
  rw [field, h, field]

namespace FieldsLast

theorem of_fields (h : e'.fields = e.fields) : e.FieldsLast e' where
  size := Nat.le_of_eq (congrArg Array.size h).symm
  frame _ _ := congrArg Field.frame (field_eq_of_fields h)
  settled _ _ _ := field_eq_of_fields h

theorem trans (h : e.FieldsLast e') (h' : e'.FieldsLast e'') : e.FieldsLast e'' where
  size := Nat.le_trans h.size h'.size
  frame f inside := (h'.frame f (Nat.lt_of_lt_of_le inside h.size)).trans (h.frame f inside)
  settled f inside rests := by
    have same := h.settled f inside rests
    rw [← same, h'.settled f (Nat.lt_of_lt_of_le inside h.size)]
    rwa [same]

theorem proj_eq {α : Type} {p : Field → α} (h : e.FieldsLast e') (frame : ∀ x, p (Field.frame x) = p x)
    (inside : f.index < e.fields.size) : p (e'.field f) = p (e.field f) := by
  rw [← frame, h.frame f inside, frame]

theorem isFinal (h : e.FieldsLast e') (final : (e.field f).isFinal = true) : (e'.field f).isFinal = true :=
  (h.proj_eq (p := Field.isFinal) (fun _ => rfl) (lt_size_of_isFinal final)).trans final

end FieldsLast

def FirstNamed (e : Env) (b : BindingId) (simple : String) (found : Option BindingId) : Prop :=
  ∃ members, e.slot (.memberTypes b) = .resolved members ∧
    members.find? (fun m => (e.binding m).simpleName == simple) = found

theorem FirstNamed.of_resembles {found : Option BindingId} (h : e.FirstNamed a simple found) (ranged : e.Ranged)
    (like : e.Resembles e') : e'.FirstNamed a simple found := by
  obtain ⟨members, known, isFound⟩ := h
  refine ⟨members, like.members a members known, isFound ▸ List.find?_congr fun m hm => ?_⟩
  have inside := ranged.slots (.memberTypes a) members known m hm
  rw [like.proj_eq (g := Binding.simpleName) (fun _ => rfl) inside]

theorem FirstNamed.lt_size (h : e.FirstNamed a simple (some c)) (ranged : e.Ranged) : c.index < e.bindings.size := by
  obtain ⟨members, known, found⟩ := h
  exact ranged.slots (.memberTypes a) members known c (List.mem_of_find?_eq_some found)

theorem FirstNamed.simpleName_eq (h : e.FirstNamed a simple (some c)) : (e.binding c).simpleName = simple := by
  obtain ⟨members, -, found⟩ := h
  simpa using List.find?_some found

/-- A search for a member type comes to its end at what has been resolved. -/
inductive SearchFinds (e : Env) (simple : String) : List BindingId → List BindingId → BindingId → Prop
  | passed {seen todo : List BindingId} {a c : BindingId} : a ∈ seen → SearchFinds e simple seen todo c →
    SearchFinds e simple seen (a :: todo) c
  | here {seen todo : List BindingId} {a c : BindingId} : a ∉ seen → e.FirstNamed a simple (some c) →
    SearchFinds e simple seen (a :: todo) c
  | above {seen todo : List BindingId} {a c : BindingId} {s : Supertypes} : a ∉ seen → e.FirstNamed a simple none →
    e.Shows a s → SearchFinds e simple (a :: seen) (s.bindings ++ todo) c → SearchFinds e simple seen (a :: todo) c

namespace SearchFinds

theorem of_resembles (h : e.SearchFinds simple seen todo c) (ranged : e.Ranged) (like : e.Resembles e') :
    e'.SearchFinds simple seen todo c := by
  induction h with
  | passed old _ ih => exact .passed old ih
  | here new found => exact .here new (found.of_resembles ranged like)
  | above new none shown _ ih => exact .above new (none.of_resembles ranged like) (like.shows _ _ shown) ih

theorem lt_size (h : e.SearchFinds simple seen todo c) (ranged : e.Ranged) : c.index < e.bindings.size := by
  induction h with
  | passed _ _ ih => exact ih
  | here _ found => exact found.lt_size ranged
  | above _ _ _ _ ih => exact ih

theorem simpleName_eq (h : e.SearchFinds simple seen todo c) : (e.binding c).simpleName = simple := by
  induction h with
  | passed _ _ ih => exact ih
  | here _ found => exact found.simpleName_eq
  | above _ _ _ _ ih => exact ih

end SearchFinds

/-- The role that stands in the team for the role: the one that is called so there, if there is one and the role is
not of that team itself. -/
inductive Rebinds (e : Env) (role team : BindingId) : BindingId → Prop
  | own : (∀ t ∈ e.teamOf? role, t = team) → Rebinds e role team role
  | other {t : BindingId} {found : Option BindingId} : e.teamOf? role = some t → t ≠ team →
    e.FirstNamed team (e.binding role).simpleName found → Rebinds e role team (found.getD role)

theorem Rebinds.of_resembles (h : e.Rebinds role team c) (ranged : e.Ranged) (like : e.Resembles e')
    (inside : role.index < e.bindings.size) : e'.Rebinds role team c := by
  have teamOf := teamOf?_eq like inside
  cases h with
  | own same => exact .own (by rwa [teamOf])
  | other given different found =>
    refine .other (teamOf.trans given) different ?_
    rw [like.proj_eq (g := Binding.simpleName) (fun _ => rfl) inside]
    exact found.of_resembles ranged like

theorem Rebinds.lt_size (h : e.Rebinds role team c) (ranged : e.Ranged) (inside : role.index < e.bindings.size) :
    c.index < e.bindings.size := by
  cases h with
  | own => exact inside
  | @other _ found _ _ first =>
    cases found with
    | none => exact inside
    | some m => exact first.lt_size ranged

/-- The fields are final, and the type of the last one is the team. -/
structure LeadsTo (e : Env) (path : List FieldId) (team : BindingId) : Prop where
  final : ∀ g ∈ path, (e.field g).isFinal = true
  ends : ∃ last, path.getLast? = some last ∧ (e.field last).pendingAnchor = none ∧
    bindingOf? (e.field last).type = some team
  isTeam : (e.binding team).isTeam = true

theorem LeadsTo.of_resembles (h : e.LeadsTo path team) (like : e.Resembles e') (last : e.FieldsLast e') :
    e'.LeadsTo path team where
  final g hg := last.isFinal (h.final g hg)
  ends := by
    obtain ⟨g, ends, rests, leads⟩ := h.ends
    have same := last.settled g (lt_size_of_isFinal (h.final g (List.mem_of_getLast? ends))) rests
    exact ⟨g, ends, by rwa [same], by rwa [same]⟩
  isTeam := (like.proj_eq (g := Binding.isTeam) (fun _ => rfl) (lt_size_of_isTeam h.isTeam)).trans h.isTeam

/-- The role of a field whose anchor leads to the team: what a search in the team finds, or what stands, in the team
of a copy, for the role of the field that has been copied. -/
inductive AnchorRole (e : Env) (team : BindingId) (path : List FieldId) : Field → BindingId → Prop
  | sought {x : Field} {c : BindingId} : e.SearchFinds (e.binding c).simpleName [] [team] c →
    AnchorRole e team path x c
  | copied {x : Field} {g : FieldId} {role t c : BindingId} : x.origin = .copied → x.copySource = some g →
    (e.field g).pendingAnchor = none → (e.field g).type = .anchored (.declared role) path →
    AnchorRole e team path (e.field g) role → e.teamOf? x.declaring = some t → e.Rebinds role t c →
    AnchorRole e team path x c

theorem lt_size_of_anchored {role : Ty} (h : (e.field f).type = .anchored role path) : f.index < e.fields.size := by
  refine lt_size_of_field_ne fun outside => ?_
  rw [outside] at h
  cases h

theorem AnchorRole.lt_size (h : e.AnchorRole team path x c) (ranged : e.Ranged) : c.index < e.bindings.size := by
  induction h with
  | sought found => exact found.lt_size ranged
  | copied _ _ _ _ _ _ stands ih => exact stands.lt_size ranged ih

theorem AnchorRole.of_resembles (h : e.AnchorRole team path x c) (ranged : e.Ranged) (like : e.Resembles e')
    (last : e.FieldsLast e') : e'.AnchorRole team path x c := by
  induction h with
  | sought found =>
    refine .sought ?_
    rw [like.proj_eq (g := Binding.simpleName) (fun _ => rfl) (found.lt_size ranged)]
    exact found.of_resembles ranged like
  | copied origin source rests anchored appointed teamOf stands ih =>
    have same := last.settled _ (lt_size_of_anchored anchored) rests
    have teamOf := (teamOf?_eq like (lt_size_of_teamOf? teamOf)).trans teamOf
    have stands := stands.of_resembles ranged like (appointed.lt_size ranged)
    exact .copied origin source (by rwa [same]) (by rwa [same]) (by rwa [same]) teamOf stands

/-- If the type of the field is anchored, the anchor leads to a team and the role is the one of the field. -/
def Anchors (e : Env) (x : Field) : Prop :=
  x.origin.isParameterized = false → ∀ role path, x.type = .anchored role path →
    x.pendingAnchor = none ∧ ∃ team c, role = .declared c ∧ e.LeadsTo path team ∧ e.AnchorRole team path x c

theorem Anchors.of_resembles (h : e.Anchors x) (ranged : e.Ranged) (like : e.Resembles e') (last : e.FieldsLast e') :
    e'.Anchors x := by
  intro origin role path anchored
  obtain ⟨rests, team, c, isRole, leads, appointed⟩ := h origin role path anchored
  exact ⟨rests, team, c, isRole, leads.of_resembles like last, appointed.of_resembles ranged like last⟩

theorem anchors_of_plain (plain : x.type.IsPlain) : e.Anchors x := by
  intro _ role path anchored
  rw [anchored] at plain
  exact (Ty.not_isPlain_anchored plain).elim

/-- The type is what an anchor is resolved to: if it is anchored, its role is what a search in the team finds. -/
def Locates (e : Env) (t : Ty) : Prop :=
  ∀ role path, t = .anchored role path → ∃ team c, role = .declared c ∧ e.LeadsTo path team ∧
    e.SearchFinds (e.binding c).simpleName [] [team] c

theorem Locates.of_resembles {t : Ty} (h : e.Locates t) (ranged : e.Ranged) (like : e.Resembles e')
    (last : e.FieldsLast e') : e'.Locates t := by
  intro role path anchored
  obtain ⟨team, c, isRole, leads, found⟩ := h role path anchored
  refine ⟨team, c, isRole, leads.of_resembles like last, ?_⟩
  rw [like.proj_eq (g := Binding.simpleName) (fun _ => rfl) (found.lt_size ranged)]
  exact found.of_resembles ranged like

theorem Locates.anchors {t : Ty} (h : e.Locates t) : e.Anchors (x.settle t) := by
  intro _ role path anchored
  obtain ⟨team, c, isRole, leads, found⟩ := h role path anchored
  exact ⟨rfl, team, c, isRole, leads, .sought found⟩

structure OwnField (e : Env) (f : FieldId) : Prop where
  inside : f.index < e.fields.size
  origin : (e.field f).origin.isParameterized = false

theorem OwnField.of_last (h : e.OwnField f) (last : e.FieldsLast e') : e'.OwnField f where
  inside := Nat.lt_of_lt_of_le h.inside last.size
  origin := (last.proj_eq (p := fun x => x.origin.isParameterized) (fun _ => rfl) h.inside).trans h.origin

theorem ownField_addField (origin : x.origin.isParameterized = false) : (e.addField x).OwnField ⟨e.fields.size⟩ := by
  refine ⟨Array.size_push x ▸ Nat.lt_succ_self _, ?_⟩
  rw [field, addField, getD_push, if_pos rfl]
  exact origin

def IsStandIn (e : Env) (t : Ty) : Prop := ∃ name b, t = .declared b ∧ e.StandsFor name b

/-- Anchors hold of all fields, and of the types that fields may have. -/
structure Anchored (e : Env) : Prop where
  listed : ∀ b list, e.slot (.fields b) = .resolved list → ∀ f ∈ list, e.OwnField f
  types : ∀ f, e.Anchors (e.field f)
  standIns : ∀ entry ∈ e.problemBindings, (e.binding entry.2).isProblem = true

end Env

end TeamRoles
