import TeamRoles.Lookup.Signature
import TeamRoles.Lookup.TypeSpec
import TeamRoles.Roles.Tsuper
import TeamRoles.Signature.Parser

/-!
Fields of a type. A role has copies of the fields of its tsuper roles that it does not declare.
-/

namespace TeamRoles

/-- Generated members are kept for teams and roles only. -/
def Env.keepsMember (e : Env) (b : BindingId) (name : String) : Bool :=
  !Name.isGenerated name || (e.binding b).isTeam || (e.binding b).isRole

def Env.hasField (e : Env) (fields : List FieldId) (name : String) : Bool :=
  fields.any fun f => (e.field f).name == name

def TypeSpec.anchor? : TypeSpec → Option PendingAnchor
  | .anchored role anchor => some ⟨role, splitDots anchor⟩
  | _ => none

namespace Resolve

def declareField (b : BindingId) (unit : UnitId) (fields : List FieldId) (decl : FieldDecl) :
    Resolve (List FieldId) := do
  let e ← get
  if e.hasField fields decl.name then
    reportInUnit unit .duplicateField decl.span [(e.binding b).name, decl.name]
    return fields
  let type ← typeOfSpec (.body b unit decl.span) decl.type
  let written := Modifiers.ofKeywords decl.modifiers
  let implied := if (e.binding b).isInterface then
      Modifiers.public ∪ Modifiers.static ∪ Modifiers.final else .none
  let f ← addField {
    name := decl.name, modifiers := written ∪ implied, declaring := b, type
    pendingAnchor := decl.type.anchor?, origin := .source decl, span := decl.span }
  return fields ++ [f]

def compiledFieldType (b : BindingId) (d : Descriptor) (m : Descriptor.Member) : Resolve Ty := do
  match Signature.parseType m.signature with
  | .ok sig => typeOfSig { owner := b } sig
  | .error cause =>
    reportFor b .malformedSignature {} [d.name ++ "." ++ m.name, cause.message]
    problemType m.signature .corrupt

/-- The anchor that an extension records for a field. -/
def recordedAnchor? (e : Env) (d : Descriptor) (field : String) (type : Ty) :
    Option PendingAnchor := do
  let attributes ← d.extension.attributes?
  let anchor ← attributes.anchors.find? (·.member == field)
  let role ← Env.bindingOf? type
  return ⟨(e.binding role).simpleName, splitDots anchor.path⟩

def compiledField (b : BindingId) (d : Descriptor) (m : Descriptor.Member) :
    Resolve (Option FieldId) := do
  unless (← get).keepsMember b m.name do return none
  let type ← compiledFieldType b d m
  let e ← get
  return some (← addField {
    name := m.name, modifiers := m.modifiers, declaring := b, type
    pendingAnchor := recordedAnchor? e d m.name type, origin := .binary })

def teamOf (role : BindingId) : Resolve BindingId := do
  let e ← get
  match e.teamOf? role with
  | some team => return team
  | none => throw (.internal ("'" ++ (e.binding role).name ++ "' is not a role"))

def copyField (role team : BindingId) (fields : List FieldId) (inherited : FieldId) :
    Resolve (List FieldId) := do
  let e ← get
  let tsuper := e.field inherited
  if e.hasField fields tsuper.name then return fields
  let type ← rebindType team tsuper.type
  let copy ← addField { tsuper with
    declaring := role, type, origin := .copied, copySource := some inherited }
  return fields ++ [copy]

def copyFields (role : BindingId) (fields : List FieldId) : Resolve (List FieldId) := do
  let team ← teamOf role
  (← tsuperRoles role).foldlM (fun fields tsuper => do
    (← ask (.fields tsuper)).foldlM (copyField role team) fields) fields

def fields (b : BindingId) : Resolve (List FieldId) := do
  let x ← known b
  match x.fields with
  | .resolved fields => return fields
  | .inProgress => reentrant b .fields
  | .unresolved =>
    updateBinding b ({ · with fields := .inProgress })
    let own ← match x.origin with
      | .source decl unit => decl.fields.foldlM (declareField b unit) []
      | .binary d => d.fields.filterMapM (compiledField b d)
      | .problem _ => pure []
    let fields ← if x.isRole && !x.isBinary then copyFields b own else pure own
    updateBinding b ({ · with fields := .resolved fields })
    fields.forM fun f => discard (ask (.fieldType f))
    return fields

end Resolve

end TeamRoles
