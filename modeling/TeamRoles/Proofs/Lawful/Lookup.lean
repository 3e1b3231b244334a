import TeamRoles.Lookup.Signature
import TeamRoles.Lookup.TypeSpec
import TeamRoles.Lookup.Units
import TeamRoles.Proofs.Env.Lawful
import TeamRoles.Proofs.Env.Names

/-!
Look-ups of types are lawful. A name that is found denotes the type that is given.
-/

namespace TeamRoles

def Binding.attach (x : Binding) (team : Option BindingId) : Binding :=
  { x with
    team := if x.isTeam then some {} else none
    role := team.map fun team => { team }
    modifiers := if team.isSome then x.modifiers ∪ .role else x.modifiers }

theorem Modifiers.isTeam_union_role (m : Modifiers) : (m ∪ .role).isTeam = m.isTeam := by
  have bits : (m.bits ||| Modifiers.role.bits) &&& Modifiers.team.bits =
      m.bits &&& Modifiers.team.bits := by
    apply UInt32.toBitVec_inj.1
    rw [UInt32.toBitVec_and, UInt32.toBitVec_or, BitVec.and_or_distrib_right, UInt32.toBitVec_and]
    exact BitVec.or_zero
  change ((m.bits ||| Modifiers.role.bits) &&& Modifiers.team.bits == Modifiers.team.bits) = _
  rw [bits]
  rfl

theorem Binding.isTeam_attach {x : Binding} {team : Option BindingId} :
    (x.attach team).isTeam = x.isTeam := by
  cases team with
  | none => rfl
  | some team => exact Modifiers.isTeam_union_role x.modifiers

theorem Binding.isBare_attach {x : Binding} (bare : x.bare = x) (team : Option BindingId) :
    (x.attach team).IsBare := by
  constructor
  · calc
      (x.attach team).bare = x.bare.attach team := by cases team <;> rfl
      _ = x.attach team := by rw [bare]
  · intro model given
    have made : (if x.isTeam then some {} else none) = some model := given
    split at made
    · cases made
      rfl
    · cases made
  · intro isTeam
    rw [isTeam_attach] at isTeam
    simp [attach, isTeam]

namespace Resolve

variable {ℓ : Nat}

section Introduction

variable {β : Type} {R : β → Env → Prop} {x : Binding} {f : BindingId → Resolve β}

theorem modify_push {α : Type} {a : Array α} {x : α} {f : α → α} :
    (a.push x).modify a.size f = a.push (f x) := by
  refine Array.ext (by simp) fun i _ _ => ?_
  rw [Array.getElem_modify, Array.getElem_push, Array.getElem_push]
  grind

theorem attachModels_apply (o : Oracle) (e e' : Env) (pushed : e'.bindings = e.bindings.push x) :
    ∃ team, attachModels e.nextBinding o e' =
      (.ok (), { e' with bindings := e.bindings.push (x.attach team) }) := by
  refine ⟨e'.enclosingTeam? e.nextBinding, ?_⟩
  have applied : attachModels e.nextBinding o e' = (.ok (), { e' with
      bindings := e'.bindings.modify e.bindings.size
        fun y => y.attach (e'.enclosingTeam? e.nextBinding) }) := rfl
  rw [applied, pushed, modify_push]

theorem load_triple {d : Descriptor} (name : String) (origin : x.origin = .binary d)
    (named : x.name = d.name) (bare : ∀ team, (x.attach team).IsBare)
    (hf : ∀ b, Triple ℓ (fun e => e.lookup? d.name = some b) (f b) R) :
    Triple ℓ (fun e => e.provider.find name = .ok (some d) ∧ e.lookup? d.name = none)
      (do let b ← addBinding x
          bindName d.name b
          attachModels b
          f b) R := by
  intro o ho e ⟨given, unbound⟩
  have added : addBinding x o e = (.ok e.nextBinding, e.addBinding x) := rfl
  have bound : bindName d.name e.nextBinding o (e.addBinding x) =
      (.ok (), (e.addBinding x).bindName d.name e.nextBinding) := rfl
  obtain ⟨team, attached⟩ :=
    attachModels_apply (x := x) o e ((e.addBinding x).bindName d.name e.nextBinding) rfl
  rw [bind_apply_ok added, bind_apply_ok bound, bind_apply_ok attached, ← named]
  have loaded : Proceeds ℓ e none (e.introduce (x.attach team)) :=
    .step (.load given origin named (bare team) unbound) rfl
  obtain ⟨runs, holds⟩ := hf e.nextBinding o ho (e.introduce (x.attach team))
    (by rw [← named]; exact Env.lookup?_introduce.trans (if_pos rfl))
  exact ⟨.seq loaded runs, holds⟩

/-- A type as it has been declared, from an environment of which something is known. -/
structure Introduced (P : Env → Prop) (enclosing : Option BindingId) (b : BindingId) (e : Env) :
    Prop where
  new : ∃ start, P start ∧ b = start.nextBinding
  inside : b.index < e.bindings.size
  enclosing : (e.binding b).enclosing = enclosing

theorem stable_introduced {P : Env → Prop} {enclosing : Option BindingId} {b : BindingId} :
    Stable ℓ (Introduced P enclosing b) := by
  rintro e r e' runs ⟨new, inside, given⟩
  refine ⟨new, Nat.lt_of_lt_of_le inside runs.lasts.size, ?_⟩
  rw [← given]
  exact runs.lasts.proj_eq (g := Binding.enclosing) (fun _ => rfl) inside

theorem declare_apply (o : Oracle) (e : Env) : ∃ team,
    (do let b ← addBinding x
        modify (·.unmiss x.name)
        bindName x.name b
        attachModels b
        f b : Resolve β) o e = f e.nextBinding o (e.declare (x.attach team)) := by
  have added : addBinding x o e = (.ok e.nextBinding, e.addBinding x) := rfl
  have found : (modify (·.unmiss x.name) : Resolve PUnit) o (e.addBinding x) =
      (.ok ⟨⟩, (e.addBinding x).unmiss x.name) := rfl
  have bound : bindName x.name e.nextBinding o ((e.addBinding x).unmiss x.name) =
      (.ok (), (e.introduce x).unmiss x.name) := rfl
  obtain ⟨team, attached⟩ :=
    attachModels_apply (x := x) o e ((e.introduce x).unmiss x.name) rfl
  refine ⟨team, ?_⟩
  rw [bind_apply_ok added, bind_apply_ok found, bind_apply_ok bound, bind_apply_ok attached]
  rfl

theorem declare_triple {P : Env → Prop} (source : x.isSource = true)
    (bare : ∀ team, (x.attach team).IsBare)
    (step : ∀ {e e' : Env}, Step (ℓ + 8) e e' → P e → P e')
    (hf : ∀ b, Triple (ℓ + 8) (fun e => P e ∧ Introduced P x.enclosing b e) (f b) R) :
    Triple (ℓ + 8) P
      (do let b ← addBinding x
          modify (·.unmiss x.name)
          bindName x.name b
          attachModels b
          f b) R := by
  intro o ho e he
  obtain ⟨team, applied⟩ := declare_apply (x := x) (f := f) o e
  rw [applied]
  have declared : Step (ℓ + 8) e (e.declare (x.attach team)) :=
    .declare (Nat.le_add_left _ _) source (bare team)
  have inside : e.nextBinding.index < (e.declare (x.attach team)).bindings.size := by
    simp [Env.declare, Env.unmiss, Env.introduce, Env.addBinding, Env.bindName, Env.nextBinding]
  have here : (e.declare (x.attach team)).binding e.nextBinding = x.attach team :=
    Env.binding_addBinding_self
  obtain ⟨runs, holds⟩ := hf e.nextBinding o ho (e.declare (x.attach team))
    ⟨step declared he, ⟨e, he, rfl⟩, inside, by rw [here]; rfl⟩
  exact ⟨.seq (.step declared rfl) runs, holds⟩

end Introduction

theorem lawful_reportLimitation {b : BindingId} {d : Descriptor} :
    Lawful ℓ (reportLimitation b d) := by
  unfold reportLimitation
  split
  · exact lawful_reportFor
  · exact lawful_reportFor
  · exact .pure

theorem stable_provider (name : String) (found : Except Descriptor.Error (Option Descriptor)) :
    Stable ℓ fun e => e.provider.find name = found := by
  intro e r e' runs given
  rw [runs.lasts.provider, given]

theorem stable_byName {entry : String × BindingId} : Stable ℓ fun e => entry ∈ e.byName :=
  fun _ _ _ runs => runs.lasts.byName entry

theorem stable_lookup? {name : String} {b : BindingId} :
    Stable 0 fun e => e.lookup? name = some b :=
  fun _ _ _ runs bound => runs.runs.lookup?_eq (by decide) bound

theorem addDescriptor_triple {d : Descriptor} (name : String) :
    Triple ℓ (fun e => e.provider.find name = .ok (some d)) (addDescriptor d)
      fun b e => e.lookup? d.name = some b ∧ e.provider.find name = .ok (some d) := by
  unfold addDescriptor
  extract_lets isTeam add
  have added : ∀ enclosing, Triple ℓ (fun e => e.provider.find name = .ok (some d)) (add enclosing)
      fun b e => e.lookup? d.name = some b := by
    intro enclosing
    refine .get_bind fun e => ?_
    cases found : e.lookup? d.name with
    | some b =>
      refine .pure ?_
      rintro _ ⟨rfl, -⟩
      exact found
    | none =>
      refine (load_triple name rfl rfl ?_ fun b => ?_).pre ?_
      · exact Binding.isBare_attach rfl
      · exact Lawful.keepingAt 0 (by simp) lawful_reportLimitation stable_lookup? fun _ =>
          .pure fun _ h => h
      · rintro _ ⟨rfl, given⟩
        exact ⟨given, found⟩
  have framed (enclosing : Option BindingId) :=
    ((added enclosing).frame (stable_provider name (.ok (some d)))).pre fun _ given => ⟨given, given⟩
  split
  · split
    · exact Lawful.pure.keeping (stable_provider name _) framed
    · exact (Lawful.ask _ (by simp)).keeping (stable_provider name _) framed
  · exact Lawful.pure.keeping (stable_provider name _) framed

theorem bindLoaded_triple {name : String} {d : Descriptor} {b : BindingId} :
    Triple ℓ (fun e => e.lookup? d.name = some b ∧ e.provider.find name = .ok (some d))
      (do if ((← get).lookup? name).isNone then bindName name b
          return some b)
      fun found e => ∀ b ∈ found, e.Denotes name b := by
  refine .get_bind fun e => ?_
  cases unbound : e.lookup? name with
  | some other =>
    refine .pure ?_
    rintro _ ⟨rfl, bound, given⟩ _ ⟨⟩
    exact .inr ⟨d, given, Env.mem_of_lookup bound⟩
  | none =>
    rintro o _ _ ⟨rfl, bound, given⟩
    refine ⟨.step (.otherName given unbound bound) rfl, ?_⟩
    rintro _ ⟨⟩ _ ⟨⟩
    exact .inl List.mem_cons_self

theorem findType_triple {name : String} :
    Triple ℓ (fun _ => True) (findType name) fun found e => ∀ b ∈ found, e.Denotes name b := by
  refine .get_bind fun e => ?_
  cases bound : e.lookup? name with
  | some b =>
    refine .pure ?_
    rintro _ ⟨rfl, -⟩ _ ⟨⟩
    exact .inl (Env.mem_of_lookup bound)
  | none =>
    dsimp only
    split
    · exact .pure fun _ _ _ => nofun
    · cases given : e.provider.find name with
      | error cause =>
        refine .bind (Q := fun b e' => e'.StandsFor name b ∧ e'.provider.find name = .error cause ∧
          e'.lookup? name = none) ((problemBinding_triple fun _ h => h).pre ?_) fun b => ?_
        · rintro _ ⟨rfl, -⟩
          exact ⟨given, bound⟩
        · refine .bind (Q := fun _ e' => (name, b) ∈ e'.byName) ?_ fun _ => ?_
          -- The name is bound to the stand-in only while nothing else is.
          · rintro o _ e' ⟨stands, given, unbound⟩
            exact ⟨.step (.corrupt given unbound stands) rfl, fun _ _ => List.mem_cons_self⟩
          · refine Lawful.keeping lawful_reportFor stable_byName fun _ => .pure ?_
            rintro _ bound _ ⟨⟩
            exact .inl bound
      | ok found =>
        cases found with
        | none =>
          rintro o _ _ ⟨rfl, -⟩
          exact ⟨.step (.missing given bound) rfl, by rintro _ ⟨⟩ _ ⟨⟩⟩
        | some d =>
          refine .bind ((addDescriptor_triple name).pre ?_) fun b => bindLoaded_triple
          rintro _ ⟨rfl, -⟩
          exact given

theorem lawful_findType {name : String} : Lawful ℓ (findType name) := Triple.lawful findType_triple

theorem lawful_findProper {name : String} : Lawful ℓ (findProper name) :=
  (Lawful.ask _ (by simp)).bind fun _ => .bind .get fun _ => .pure

theorem lawful_importedType {name : String} : Lawful ℓ (importedType name) :=
  .findSomeM? fun _ => lawful_findProper

theorem lawful_resolveOnDemand {unit : UnitId} {i : ImportDecl} {sofar : Imports} :
    Lawful ℓ (resolveOnDemand unit i sofar) := by
  refine .bind .get fun e => .ite .pure (.bind lawful_importedType fun owner => ?_)
  cases owner with
  | some owner => exact .pure
  | none => exact .bind lawful_reportInUnit fun _ => .pure

theorem lawful_importSingle {unit : UnitId} {i : ImportDecl} {target : BindingId}
    {sofar : Imports} : Lawful ℓ (importSingle unit i target sofar) := by
  have reported (p : ProblemId) : Lawful ℓ (do reportInUnit unit p i.span [i.name]; return sofar) :=
    .bind lawful_reportInUnit fun _ => .pure
  refine .bind .get fun e => ?_
  split
  · extract_lets simple
    split
    · exact .ite (reported _) .pure
    · split
      · exact .ite (reported _) .pure
      · exact .pure
  · exact reported _

theorem lawful_resolveSingle {unit : UnitId} {i : ImportDecl} {sofar : Imports} :
    Lawful ℓ (resolveSingle unit i sofar) := by
  refine .bind lawful_importedType fun target => ?_
  cases target with
  | none => exact .bind .get fun _ => .bind lawful_reportInUnit fun _ => .pure
  | some target =>
    refine .ite .pure (.bind .get fun _ => ?_)
    refine .ite (.bind lawful_reportInUnit fun _ => .pure) ?_
    exact .ite .pure lawful_importSingle

theorem lawful_resolveImport {unit : UnitId} {i : ImportDecl} {sofar : Imports} :
    Lawful ℓ (resolveImport unit i sofar) := by
  refine .bind (lawful_updateUnit fun _ => rfl) fun _ => .bind .get fun _ => ?_
  refine .ite (.bind lawful_reportInUnit fun _ => .pure) ?_
  exact .ite lawful_resolveOnDemand lawful_resolveSingle

theorem lawful_resolveImports {unit : UnitId} {seen : List ImportDecl} {sofar : Imports}
    {l : List ImportDecl} : Lawful ℓ (resolveImports unit seen sofar l) := by
  induction l generalizing seen sofar with
  | nil => exact .pure
  | cons i l ih =>
    rw [resolveImports]
    exact .ite (.bind lawful_reportInUnit fun _ => ih) (.bind lawful_resolveImport fun _ => ih)

theorem imports_triple {unit : UnitId} :
    Triple (ℓ + 1) (fun _ => True) (imports unit)
      fun imports e => e.slot (.imports unit) = .resolved imports := by
  refine .bind knownUnit_triple fun u => ?_
  split
  · next resolved =>
    refine .pure ?_
    rintro e ⟨-, rfl⟩
    exact resolved
  · exact .throw rfl
  · next fresh =>
    refine (Triple.begin (p := .imports unit) (by simp) fun _ => ?_).pre ?_
    · refine .bind (Lawful.triple lawful_resolveImports) fun _ => ?_
      exact .finish (fun _ _ => trivial) (fun _ _ => trivial) (.pure fun _ h => h)
    · rintro e ⟨inside, rfl⟩
      exact ⟨inside, fresh⟩

theorem lawful_imports {unit : UnitId} : Lawful (ℓ + 1) (imports unit) :=
  Triple.lawful imports_triple

theorem lawful_verifyBaseImports {unit : UnitId} : Lawful (ℓ + 3) (verifyBaseImports unit) := by
  refine .bind .get fun _ => .ite .pure ?_
  refine .bind (lawful_updateUnit fun _ => rfl) fun _ => ?_
  refine .bind lawful_imports fun imports => .ite .pure ?_
  refine .bind .get fun e => ?_
  refine .bind (.filterMapM fun role => (Lawful.ask _ (by simp)).bind fun _ => .pure) fun bound => ?_
  exact .forM fun i => .ite .pure (.bind .get fun _ => lawful_reportInUnit)

open Signature

theorem lawful_typeOfVar {scope : SignatureScope} {name : String} :
    Lawful (ℓ + 1) (typeOfVar scope name) := by
  refine .bind .get fun e => ?_
  split
  · exact .pure
  · refine .bind (.findSomeM? fun _ => (Lawful.ask _ (by simp)).bind fun _ =>
      .bind .get fun _ => .pure)
      fun found => ?_
    cases found with
    | some v => exact .pure
    | none => exact lawful_problemType

mutual

theorem lawful_typeOfSig {scope : SignatureScope} (t : TypeSig) : Lawful (ℓ + 1) (typeOfSig scope t) := by
  match t with
  | .base b => exact .pure
  | .cls segments => exact lawful_typeOfSegments segments
  | .var name => exact lawful_typeOfVar
  | .array component => exact (lawful_typeOfSig component).bind fun _ => .pure

theorem lawful_typeOfSegments {scope : SignatureScope} {outer : String} {enclosing : Option Ty}
    (segments : List Segment) : Lawful (ℓ + 1) (typeOfSegments scope outer enclosing segments) := by
  match segments with
  | [] =>
    rw [typeOfSegments.eq_def]
    cases enclosing with
    | some t => exact .pure
    | none => exact .throw rfl
  | .mk name args :: rest =>
    rw [typeOfSegments]
    exact .bind lawful_findTypeOrProblem fun _ => (lawful_typesOfSigArgs args).bind fun _ =>
      .bind .get fun _ => lawful_typeOfSegments rest

theorem lawful_typesOfSigArgs {scope : SignatureScope} (args : List TypeArg) :
    Lawful (ℓ + 1) (typesOfSigArgs scope args) := by
  match args with
  | [] => exact .pure
  | arg :: args =>
    exact (lawful_typeOfSigArg arg).bind fun _ => (lawful_typesOfSigArgs args).bind fun _ => .pure

theorem lawful_typeOfSigArg {scope : SignatureScope} (arg : TypeArg) :
    Lawful (ℓ + 1) (typeOfSigArg scope arg) := by
  match arg with
  | .any => exact .pure
  | .extends bound => exact (lawful_typeOfSig bound).bind fun _ => .pure
  | .super bound => exact (lawful_typeOfSig bound).bind fun _ => .pure
  | .exact type => exact lawful_typeOfSig type

end

theorem lawful_typeOfClass {scope : SignatureScope} {c : ClassType} :
    Lawful (ℓ + 1) (typeOfClass scope c) :=
  lawful_typeOfSegments c.segments

theorem stable_lt_size {b : BindingId} : Stable ℓ fun e => b.index < e.bindings.size :=
  fun _ _ _ runs inside => Nat.lt_of_lt_of_le inside runs.lasts.size

section Declarations

variable {P : Env → Prop} {unit : UnitId}

mutual

theorem declareType_triple (step : ∀ {e e' : Env}, Step (ℓ + 8) e e' → P e → P e')
    {enclosing : Option BindingId} {qualified package : String} (decl : TypeDecl) :
    Triple (ℓ + 8) P (declareType unit enclosing qualified package decl)
      fun b e => P e ∧ Introduced P enclosing b e := by
  match decl with
  | ⟨_, _, _, _, _, _, _, _, _, memberTypes, _, _, _, _⟩ =>
    rw [declareType]
    refine declare_triple rfl ?_ step fun b => ?_
    · exact Binding.isBare_attach rfl
    · exact .bind ((declareMembers_triple step memberTypes).frame stable_introduced)
        fun _ => .pure fun _ h => h

theorem declareMembers_triple (step : ∀ {e e' : Env}, Step (ℓ + 8) e e' → P e → P e')
    {outer : BindingId} {qualified package : String} {seen : List String} (decls : List TypeDecl) :
    Triple (ℓ + 8) P (declareMembers unit outer qualified package seen decls) fun _ => P := by
  match decls with
  | [] => exact .pure fun _ h => h
  | decl :: rest =>
    rw [declareMembers]
    refine .ite ?_ (.bind (.discard ?_) fun _ => declareMembers_triple step rest)
    · exact Lawful.keepingAt 0 (by simp) lawful_reportInUnit (stable_of_steps step)
        fun _ => declareMembers_triple step rest
    · exact (declareType_triple step decl).post fun _ _ h => h.1

end

theorem lawful_declareType {enclosing : Option BindingId} {qualified package : String}
    {decl : TypeDecl} :
    Lawful (ℓ + 8) (declareType unit enclosing qualified package decl) :=
  (declareType_triple (fun _ h => h) decl).lawful

theorem lawful_declareMembers {outer : BindingId} {qualified package : String} {seen : List String}
    {decls : List TypeDecl} : Lawful (ℓ + 8) (declareMembers unit outer qualified package seen decls) :=
  (declareMembers_triple (P := fun _ => True) (fun _ h => h) decls).lawful

end Declarations

theorem lawful_isDeclared {qualified : String} : Lawful ℓ (isDeclared qualified) :=
  .bind .get fun _ => .pure

theorem lawful_buildRegularUnit {unit : UnitId} {u : UnitDecl} :
    Lawful (ℓ + 8) (buildRegularUnit unit u) := by
  refine .filterMapM fun decl => ?_
  extract_lets qualified declare
  have declared : ∀ r, Lawful (ℓ + 8) (declare r) := by
    refine fun _ => .bind lawful_isDeclared fun _ => ?_
    refine .ite (.bind lawful_reportInUnit fun _ => .pure) ?_
    exact .bind lawful_declareType fun _ => .pure
  exact .ite (.bind lawful_reportInUnit declared) (declared ())

theorem buildRoles_triple {P : Env → Prop} {unit : UnitId} {u : UnitDecl} {team : BindingId}
    (step : ∀ {e e' : Env}, Step (ℓ + 8) e e' → P e → P e') :
    Triple (ℓ + 8) P (buildRoles unit u team)
      fun roles e => P e ∧ ∀ r ∈ roles, Introduced P (some team) r e := by
  have low : Stable 0 P := stable_of_steps step
  refine .filterMapM_keeping (fun decl => ?_) fun _ => stable_introduced
  refine Lawful.get.keepingAt 0 (by simp) low fun _ => ?_
  refine Lawful.keepingAt 0 (by simp) lawful_isDeclared low fun _ => .ite ?_ ?_
  · exact Lawful.keepingAt 0 (by simp) lawful_reportInUnit low fun _ => .pure fun _ h => ⟨h, nofun⟩
  · refine .bind (declareType_triple step decl) fun b => .pure ?_
    rintro e ⟨he, introduced⟩
    exact ⟨he, fun _ same => by cases same; exact introduced⟩

theorem lawful_buildRoleFile {unit : UnitId} {u : UnitDecl} {teamName : String} :
    Lawful (ℓ + 8) (buildRoleFile unit u teamName) := by
  refine (Lawful.ask _ (by simp)).bind fun _ => .bind .get fun _ => ?_
  split
  · exact .bind lawful_reportInUnit fun _ => .pure
  · next team _ =>
    extract_lets build
    have built : ∀ r, Lawful (ℓ + 8) (build r) := by
      refine fun _ => Triple.lawful_bind (buildRoles_triple fun _ h => h)
        fun roles => .bind (Q := fun _ _ => True) ?_ fun _ => Lawful.pure.under
      intro o _ e ⟨_, introduced⟩
      refine ⟨.step (.roleFile (Nat.le_add_left _ _) fun r hr => ?_) rfl, fun _ _ => trivial⟩
      exact (introduced r hr).inside
    exact .ite (built ()) (.bind lawful_reportInUnit built)

theorem lawful_buildUnit {u : UnitDecl} : Lawful (ℓ + 8) (buildUnit u) := by
  refine .bind .get fun _ => ?_
  refine .bind (.same (fun _ => Env.same_addUnit rfl) fun _ => rfl) fun _ => ?_
  extract_lets finish
  have finished : ∀ types, Lawful (ℓ + 8) (finish types) := fun _ =>
    .bind .get fun _ => .bind (lawful_updateUnit fun _ => rfl) fun _ => .pure
  split
  · exact .bind lawful_buildRoleFile finished
  · exact .bind lawful_buildRegularUnit finished

theorem lawful_addUnit {u : UnitDecl} : Lawful (ℓ + 8) (addUnit u) :=
  .bind lawful_buildUnit fun _ => .bind (.same (fun _ => Env.same_of_kept rfl) fun _ => rfl) fun _ => .pure

theorem lawful_addUnits {units : List UnitDecl} : Lawful (ℓ + 8) (addUnits units) :=
  .mapM fun _ => lawful_addUnit

theorem lawful_checkPackageCollisions : Lawful ℓ checkPackageCollisions :=
  .bind .get fun _ => .forM fun _ => .ite .pure lawful_reportFor

theorem mem_of_mem_foldl_add {α : Type} [BEq α] {a : α} {l acc : List α}
    (h : a ∈ l.foldl (fun acc x => if acc.contains x then acc else acc ++ [x]) acc) :
    a ∈ acc ∨ a ∈ l := by
  induction l generalizing acc with
  | nil => exact .inl h
  | cons x l ih =>
    rcases ih h with old | new
    · dsimp only at old
      split at old
      · exact .inl old
      · rcases List.mem_append.1 old with old | new
        · exact .inl old
        · exact .inr (List.mem_cons.2 (.inl (List.mem_singleton.1 new)))
    · exact .inr (List.mem_cons_of_mem x new)

theorem bound_of_mem_declaredMemberTypes {e : Env} {b m : BindingId} {decl : TypeDecl}
    (h : m ∈ declaredMemberTypes e b decl) : ∃ name, (name, m) ∈ e.byName := by
  rcases mem_of_mem_foldl_add h with none | found
  · cases none
  · obtain ⟨member, -, found⟩ := List.mem_filterMap.1 found
    exact ⟨_, Env.mem_of_lookup (Option.filter_eq_some_iff.1 found).1⟩

theorem stable_bound {m : BindingId} : Stable ℓ fun e => ∃ name, (name, m) ∈ e.byName :=
  fun _ _ _ runs ⟨name, bound⟩ => ⟨name, runs.lasts.byName _ bound⟩

theorem findType_bound {name : String} :
    Triple ℓ (fun _ => True) (ask (.findType name))
      fun found e => ∀ b ∈ found, ∃ name, (name, b) ∈ e.byName := by
  refine (Triple.ask (.findType name) (by simp)).post fun found e denotes b hb => ?_
  rcases denotes b hb with bound | ⟨d, -, bound⟩
  · exact ⟨_, bound⟩
  · exact ⟨_, bound⟩

theorem memberTypes_triple {b : BindingId} :
    Triple (ℓ + 1) (fun _ => True) (memberTypes b)
      fun members e => e.slot (.memberTypes b) = .resolved members := by
  refine .bind known_triple fun x => ?_
  split
  · next resolved =>
    refine .pure ?_
    rintro e ⟨-, rfl⟩
    exact resolved
  · next begun =>
    refine (reentrant_triple (p := .memberTypes b) rfl (by simp)).pre ?_
    rintro e ⟨-, rfl⟩
    exact begun
  · next fresh =>
    refine (Triple.begin (p := .memberTypes b) (by simp) fun _ => ?_).pre ?_
    · refine .get_bind fun e => ?_
      extract_lets finish
      have finished {start : Env} : ∀ own, Latched start (ℓ + 1) (.memberTypes b)
          (fun e => ∀ m ∈ own, ∃ name, (name, m) ∈ e.byName) (finish own)
          fun members e => e.slot (.memberTypes b) = .resolved members := by
        refine fun own => .get_bind fun e => .finish ?_ (fun _ _ => trivial) (.pure fun _ h => h)
        rintro e' ⟨rfl, bound⟩ m hm
        rcases mem_of_mem_foldl_add hm with own | fromFile
        · exact .inl (bound m own)
        · cases team : (e'.binding b).team with
          | none => simp [team] at fromFile
          | some model => exact .inr ⟨model, rfl, by simpa [team] using fromFile⟩
      split
      · refine .get_bind fun e => .bind (.pure ?_) finished
        rintro _ ⟨rfl, -⟩ m
        exact bound_of_mem_declaredMemberTypes
      · exact .bind (Triple.filterMapM (fun _ => findType_bound) fun _ => stable_bound).any finished
      · exact .bind (.pure fun _ _ _ => nofun) finished
    · rintro e ⟨inside, rfl⟩
      exact ⟨inside, fresh⟩

theorem lawful_memberTypes {b : BindingId} : Lawful (ℓ + 1) (memberTypes b) :=
  Triple.lawful memberTypes_triple

theorem lawful_above {b : BindingId} : Lawful (ℓ + 1) (above b) :=
  (Lawful.ask _ (by simp)).bind fun _ => .pure

theorem lawful_superclassOf {b : BindingId} : Lawful (ℓ + 1) (superclassOf b) :=
  (Lawful.ask _ (by simp)).bind fun _ => .pure

theorem lawful_reaches {b target : BindingId} : Lawful (ℓ + 1) (reaches b target) :=
  lawful_walk (fun _ => lawful_above) _ _ fun _ _ => .pure

theorem lawful_findMemberType {b : BindingId} {simple : String} :
    Lawful (ℓ + 1) (findMemberType b simple) := by
  refine lawful_walk (fun _ => lawful_above) _ _ fun _ _ => ?_
  refine .bind lawful_memberTypes fun _ => .bind .get fun _ => ?_
  split
  · exact .pure
  · exact .pure

theorem lawful_findMethods {b : BindingId} {name : String} : Lawful (ℓ + 5) (findMethods b name) :=
  lawful_walk (fun _ => lawful_above) _ _ fun _ _ =>
    (Lawful.ask _ (by simp)).bind fun _ => .bind .get fun _ => .pure

theorem lawful_methodsInProgress {b : BindingId} : Lawful (ℓ + 1) (methodsInProgress b) :=
  lawful_walk (fun _ => lawful_above) _ _ fun _ _ => .bind .get fun _ => .pure

theorem lawful_findField {b : BindingId} {name : String} : Lawful (ℓ + 4) (findField b name) := by
  refine lawful_walk (fun _ => lawful_above) _ _ fun _ _ => ?_
  refine (Lawful.ask _ (by simp)).bind fun _ => .bind .get fun _ => ?_
  split
  · exact .pure
  · exact .pure

end Resolve

end TeamRoles
