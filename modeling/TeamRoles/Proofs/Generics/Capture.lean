import Mathlib.Data.List.Forall2
import TeamRoles.Proofs.Generics.Answers
import TeamRoles.Proofs.Session.Pass

/-!
Capture conversion opens an instantiation to a subtype of it, as long as no wildcard has a variable or a
capture as its lower bound. Such a bound is replaced by its own upper bounds before the lower bound of
the new capture is looked at.
-/

namespace TeamRoles

/-- A type argument, unless it is a wildcard without its bound, with a primitive one, or with a lower
bound that is looked through. -/
def Ty.isOpenable : Ty → Bool
  | .wildcard .unbounded _ => true
  | .wildcard .extends (some upper) => upper.isReference
  | .wildcard .super (some (.variable _)) => false
  | .wildcard .super (some (.captured _)) => false
  | .wildcard .super (some lower) => lower.isReference
  | .wildcard _ none => false
  | _ => true

namespace Env

/-- A type argument and the one that capture conversion makes of it. -/
inductive Opened (e : Env) : Ty → Ty → Prop
  | kept {arg : Ty} : Opened e arg arg
  | unbounded {bound : Option Ty} {c : CaptureId} : Opened e (.wildcard .unbounded bound) (.captured c)
  | extends {upper : Ty} {c : CaptureId} : (e.capture c).upper = upper →
    Opened e (.wildcard .extends (some upper)) (.captured c)
  | super {lower : Ty} {c : CaptureId} : (e.capture c).lower = some lower →
    Opened e (.wildcard .super (some lower)) (.captured c)

def Captures (e e' : Env) : Prop := ∃ more, e' = { e with captures := e.captures ++ more }

variable {e e' e'' : Env}

theorem Captures.refl (e : Env) : e.Captures e := ⟨#[], by simp⟩

theorem Captures.trans (h : e.Captures e') (h' : e'.Captures e'') : e.Captures e'' := by
  obtain ⟨more, rfl⟩ := h
  obtain ⟨others, rfl⟩ := h'
  exact ⟨more ++ others, by simp⟩

theorem Captures.rootKnown (h : e.Captures e') (known : e.RootKnown) : e'.RootKnown := by
  obtain ⟨more, rfl⟩ := h
  exact known

end Env

namespace Resolve

variable {e e' : Env} {o : Oracle} {depth : Nat}

theorem addCapture_ok {x : Capture} {id : CaptureId} (added : addCapture x o e = (.ok id, e')) :
    e.Captures e' ∧ ∀ e'', e'.Captures e'' → e''.capture id = x := by
  cases added
  refine ⟨⟨#[x], by simp⟩, ?_⟩
  rintro _ ⟨more, rfl⟩
  rw [Env.capture, Array.getElem?_append_left (by simp)]
  simp

theorem mapM_opened {f : Ty × Nat → Resolve Ty} {l : List (Ty × Nat)} {opened : List Ty}
    (step : ∀ arg ∈ l, ∀ e c e', f arg o e = (.ok c, e') →
      e.Captures e' ∧ ∀ e'', e'.Captures e'' → e''.Opened arg.1 c)
    (made : l.mapM f o e = (.ok opened, e')) :
    e.Captures e' ∧ List.Forall₂ e'.Opened (l.map (·.1)) opened := by
  induction l generalizing e opened with
  | nil =>
    cases made
    exact ⟨.refl _, .nil⟩
  | cons arg l ih =>
    obtain ⟨first, others⟩ := List.forall_mem_cons.1 step
    rw [List.mapM_cons] at made
    obtain ⟨c, mid, head, made⟩ := bind_eq_ok made
    obtain ⟨cs, _, tail, ⟨⟩⟩ := bind_eq_ok made
    obtain ⟨before, isOpened⟩ := first e c mid head
    obtain ⟨after, related⟩ := ih others tail
    exact ⟨before.trans after, .cons (isOpened _ after) related⟩

theorem capture_ok {generic : BindingId} {args : List Ty} {enclosing : Option Ty} {site : Span} {c : Ty}
    (openable : ∀ arg ∈ args, arg.isOpenable = true)
    (made : capture (.parameterized generic args enclosing) site (oracle (depth + 1)) e = (.ok c, e')) :
    c = .parameterized generic args enclosing ∨
      ∃ opened, c = .parameterized generic opened enclosing ∧ e'.RootKnown ∧
        List.Forall₂ e'.Opened args opened := by
  unfold capture at made
  dsimp only at made
  split at made
  · obtain ⟨vars, _, -, made⟩ := bind_eq_ok made
    obtain ⟨object, looked, known, made⟩ := bind_eq_ok made
    obtain ⟨opened, _, loop, ⟨⟩⟩ := bind_eq_ok made
    refine .inr ⟨opened, rfl, (mapM_opened ?_ loop).imp (fun captures => ?_) fun related => ?_⟩
    -- A wildcard without its bound is not openable, so its capture has the bound that is written.
    · rintro ⟨arg, index⟩ member e c e' made
      have isOpenable := openable arg (List.fst_mem_of_mem_zipIdx member)
      obtain ⟨_, _, ⟨⟩, made⟩ := bind_eq_ok made
      cases arg with
      | wildcard kind bound =>
        obtain ⟨id, _, added, ⟨⟩⟩ := bind_eq_ok made
        obtain ⟨captures, stored⟩ := addCapture_ok added
        refine ⟨captures, fun e'' later => ?_⟩
        have stored := stored e'' later
        cases kind with
        | unbounded => exact .unbounded
        | «extends» =>
          cases bound with
          | none => cases isOpenable
          | some upper => exact .extends (by rw [stored])
        | super =>
          cases bound with
          | none => cases isOpenable
          | some lower => exact .super (by rw [stored])
      | _ =>
        cases made
        exact ⟨.refl _, fun _ _ => .kept⟩
    · exact captures.rootKnown (rootKnown_of_objectType known)
    · rwa [List.zipIdx_map_fst] at related
  · cases made
    exact .inl rfl

theorem isSubtype_self {t : Ty} : isSubtype t t o e = (.ok true, e) := by
  refine get_bind_apply.trans ?_
  rw [if_pos (by simp)]
  rfl

theorem isSubtype_upper {c : CaptureId} {upper : Ty} (known : e.RootKnown)
    (bound : (e.capture c).upper = upper) (reference : upper.isReference = true) :
    isSubtype (.captured c) upper (oracle (depth + 2)) e = (.ok true, e) := by
  obtain ⟨root, looked⟩ := objectType_of_known known
  have below : ask (.isSubtype (e.capture c).upper upper) (oracle (depth + 2)) e = (.ok true, e) := by
    rw [bound]
    exact isSubtype_self
  refine get_bind_apply.trans ?_
  split
  · rfl
  · refine (bind_apply_ok (looked _)).trans ?_
    cases upper with
    | primitive b => cases reference
    | _ =>
      dsimp only
      split
      · rfl
      · exact get_bind_apply.trans below

theorem isSubtype_lower {c : CaptureId} {lower : Ty} (known : e.RootKnown)
    (bound : (e.capture c).lower = some lower)
    (openable : (Ty.wildcard .super (some lower)).isOpenable = true) :
    isSubtype lower (.captured c) (oracle (depth + 2)) e = (.ok true, e) := by
  obtain ⟨root, looked⟩ := objectType_of_known known
  have below : ask (.isSubtype lower lower) (oracle (depth + 2)) e = (.ok true, e) := isSubtype_self
  refine get_bind_apply.trans ?_
  split
  · rfl
  · refine (bind_apply_ok (looked _)).trans ?_
    cases lower with
    | primitive b | «variable» v | captured c => cases openable
    | null =>
      dsimp only
      split <;> rfl
    | _ =>
      dsimp only
      split
      · rfl
      · refine get_bind_apply.trans ?_
        rw [bound]
        exact below

theorem contains_opened {arg c : Ty} (known : e.RootKnown) (isOpened : e.Opened arg c)
    (openable : arg.isOpenable = true) : contains arg c (oracle (depth + 3)) e = (.ok true, e) := by
  obtain ⟨root, looked⟩ := objectType_of_known known
  unfold contains
  split
  · rfl
  · next other =>
    refine (bind_apply_ok (looked _)).trans ?_
    cases isOpened with
    | kept => simp at other
    | unbounded => rfl
    | «extends» bound => exact isSubtype_upper known bound openable
    | super bound => exact isSubtype_lower known bound openable

theorem containsAll_opened {args opened : List Ty} (known : e.RootKnown)
    (related : List.Forall₂ e.Opened args opened) (openable : ∀ arg ∈ args, arg.isOpenable = true) :
    containsAll (args.zip opened) (oracle (depth + 4)) e = (.ok true, e) := by
  induction related with
  | nil => rfl
  | @cons arg c args opened isOpened _ ih =>
    obtain ⟨first, others⟩ := List.forall_mem_cons.1 openable
    have contained : ask (.contains arg c) (oracle (depth + 4)) e = (.ok true, e) :=
      contains_opened known isOpened first
    exact (bind_apply_ok contained).trans (ih others)

theorem reachesType_opened {generic : BindingId} {args opened : List Ty} {enclosing : Option Ty}
    (known : e.RootKnown) (related : List.Forall₂ e.Opened args opened)
    (openable : ∀ arg ∈ args, arg.isOpenable = true) :
    reachesType (.parameterized generic opened enclosing) (.parameterized generic args enclosing)
      (oracle (depth + 4)) e = (.ok true, e) := by
  have fits : fitsTarget (.parameterized generic opened enclosing)
      (.parameterized generic args enclosing) (oracle (depth + 4)) e = (.ok true, e) := by
    unfold fitsTarget
    dsimp only
    rw [if_pos (by simp [related.length_eq])]
    exact containsAll_opened known related openable
  have met : (if Env.bindingOf? (.parameterized generic opened enclosing) != some generic then
      pure (.inner false)
    else do
      if ← fitsTarget (.parameterized generic opened enclosing) (.parameterized generic args enclosing)
      then return .stop true else return .leaf false : Resolve (Visit Bool)) (oracle (depth + 4)) e =
        (.ok (.stop true), e) := by
    rw [if_neg (by simp [Env.bindingOf?])]
    exact bind_apply_ok fits
  exact bind_apply_ok met

theorem isSubtype_opened {generic : BindingId} {args opened : List Ty} {enclosing : Option Ty}
    (known : e.RootKnown) (related : List.Forall₂ e.Opened args opened)
    (openable : ∀ arg ∈ args, arg.isOpenable = true) :
    isSubtype (.parameterized generic opened enclosing) (.parameterized generic args enclosing)
      (oracle (depth + 4)) e = (.ok true, e) := by
  obtain ⟨root, looked⟩ := objectType_of_known known
  refine get_bind_apply.trans ?_
  split
  · rfl
  · refine (bind_apply_ok (looked _)).trans ?_
    dsimp only
    split
    · rfl
    · exact reachesType_opened known related openable

end Resolve

namespace Env

/-- Capture conversion gives a subtype, if it gives a type and every wildcard can be opened to a type that
it contains. -/
theorem capture_isSubtype {e e' : Env} {generic : BindingId} {args : List Ty} {enclosing : Option Ty}
    {site : Span} {c : Ty} (openable : ∀ arg ∈ args, arg.isOpenable = true)
    (made : (Operation.capture (.parameterized generic args enclosing) site).perform.run e = (.ok c, e')) :
    (Operation.ask (.isSubtype c (.parameterized generic args enclosing))).perform.run e' =
      (.ok true, e') := by
  rcases Resolve.capture_ok openable made with rfl | ⟨opened, rfl, known, related⟩
  · exact Resolve.isSubtype_self
  · exact Resolve.isSubtype_opened known related openable

def boxes : UnitDecl where
  fileName := "U"
  package := "p"
  types := [{ name := "Num" }, { name := "Box", typeParams := [{ name := "T" }] }]

/-- A session in which the unit has been declared and the variable of the generic class is known. -/
def boxed : Env :=
  ((Operation.ask (.typeVariables ⟨1⟩)).perform.run
    ((Operation.addUnits [boxes]).perform.run { options := {}, provider := (Library.core {}).provider }).2).2

theorem reachable_boxed : Reachable (Library.core {}).provider {} boxed :=
  .step (.ask (.typeVariables ⟨1⟩)) (.step (.addUnits [boxes]) (.new rfl))

def boxAbove (lower : Ty) : Ty := .parameterized ⟨1⟩ [.wildcard .super (some lower)] none

def boxOpened : Ty := .parameterized ⟨1⟩ [.captured ⟨0⟩] none

theorem capture_isSubtype_boxed :
    ∃ e', (Operation.capture (boxAbove (.declared ⟨0⟩)) {}).perform.run boxed = (.ok boxOpened, e') ∧
      (Operation.ask (.isSubtype boxOpened (boxAbove (.declared ⟨0⟩)))).perform.run e' =
        (.ok true, e') := by
  have made : ((Operation.capture (boxAbove (.declared ⟨0⟩)) {}).perform.run boxed).1 = .ok boxOpened := by
    decide +kernel
  have made := Resolve.run_of_outcome made
  exact ⟨_, made, capture_isSubtype (by decide) made⟩

/-- A lower bound that is a variable, here the one of the generic class itself. -/
theorem exists_capture_apart :
    ∃ e e' v, Reachable (Library.core {}).provider {} e ∧ e.slot (.typeVariables ⟨1⟩) = .resolved [v] ∧
      (Operation.capture (boxAbove (.variable v)) {}).perform.run e = (.ok boxOpened, e') ∧
      ((Operation.ask (.isSubtype boxOpened (boxAbove (.variable v)))).perform.run e').1 = .ok false := by
  have answers : (boxed.slot (.typeVariables ⟨1⟩)).get? = some [⟨0⟩] ∧
      ((Operation.capture (boxAbove (.variable ⟨0⟩)) {}).perform.run boxed).1 = .ok boxOpened ∧
      ((Operation.ask (.isSubtype boxOpened (boxAbove (.variable ⟨0⟩)))).perform.run
        ((Operation.capture (boxAbove (.variable ⟨0⟩)) {}).perform.run boxed).2).1 = .ok false := by
    decide +kernel
  obtain ⟨vars, made, apart⟩ := answers
  exact ⟨boxed, _, ⟨0⟩, reachable_boxed, slot_of_get? (p := .typeVariables ⟨1⟩) vars,
    Resolve.run_of_outcome made, apart⟩

end Env

end TeamRoles
