import TeamRoles.Descriptor.Wire

/-!
The team and role part of a descriptor. It travels as a frame, a version and a body, so that a body
of another version or a damaged one is kept as it is and never spoils the rest of the descriptor.
-/

namespace TeamRoles

inductive CallinKind where
  | before | after | replace
  deriving DecidableEq, Inhabited

inductive CalloutKind where
  | method | get | set
  deriving DecidableEq, Inhabited

namespace Descriptor

structure BaseMethodRef where
  name : String
  signature : String
  deriving DecidableEq

structure CallinRecord where
  label : String
  roleMethod : String
  roleSignature : String
  kind : CallinKind
  baseMethods : List BaseMethodRef
  deriving DecidableEq

structure CalloutRecord where
  roleMethod : String
  roleSignature : String
  kind : CalloutKind
  baseMember : String
  baseSignature : String
  deriving DecidableEq

structure AnchorRecord where
  member : String
  path : String
  deriving DecidableEq

structure PrecedenceRecord where
  after : Bool
  labels : List String
  deriving DecidableEq

structure Attributes where
  flags : UInt16 := 0
  baseClass : Option String := none
  callins : List CallinRecord := []
  callouts : List CalloutRecord := []
  anchors : List AnchorRecord := []
  callsBaseConstructor : List String := []
  precedences : List PrecedenceRecord := []
  deriving DecidableEq, Inhabited

namespace Attributes

def roleFlag : UInt16 := 1
def teamFlag : UInt16 := 2
def confinedFlag : UInt16 := 4

def isRole (a : Attributes) : Bool := a.flags &&& roleFlag != 0
def isTeam (a : Attributes) : Bool := a.flags &&& teamFlag != 0
def isConfined (a : Attributes) : Bool := a.flags &&& confinedFlag != 0

end Attributes

namespace Codec

def callinKind : Codec CallinKind :=
  tag (fun | .before => 0 | .after => 1 | .replace => 2)
    (fun b => if b = 0 then some .before else if b = 1 then some .after
      else if b = 2 then some .replace else none)

def calloutKind : Codec CalloutKind :=
  tag (fun | .method => 0 | .get => 1 | .set => 2)
    (fun b => if b = 0 then some .method else if b = 1 then some .get
      else if b = 2 then some .set else none)

def baseMethodRef : Codec BaseMethodRef :=
  (string.pair string).iso (fun (name, signature) => ⟨name, signature⟩)
    (fun r => (r.name, r.signature))

def callin : Codec CallinRecord :=
  (string.pair <| string.pair <| string.pair <| callinKind.pair <| list baseMethodRef).iso
    (fun (label, method, signature, kind, bases) => ⟨label, method, signature, kind, bases⟩)
    (fun r => (r.label, r.roleMethod, r.roleSignature, r.kind, r.baseMethods))

def callout : Codec CalloutRecord :=
  (string.pair <| string.pair <| calloutKind.pair <| string.pair string).iso
    (fun (method, signature, kind, member, base) => ⟨method, signature, kind, member, base⟩)
    (fun r => (r.roleMethod, r.roleSignature, r.kind, r.baseMember, r.baseSignature))

def anchor : Codec AnchorRecord :=
  (string.pair string).iso (fun (member, path) => ⟨member, path⟩) (fun r => (r.member, r.path))

def precedence : Codec PrecedenceRecord :=
  (bool.pair (list string)).iso (fun (after, labels) => ⟨after, labels⟩)
    (fun r => (r.after, r.labels))

def attributes : Codec Attributes :=
  (u16.pair <| (option string).pair <| (list callin).pair <| (list callout).pair <|
      (list anchor).pair <| (list string).pair <| list precedence).iso
    (fun (flags, base, callins, callouts, anchors, calls, precedences) =>
      ⟨flags, base, callins, callouts, anchors, calls, precedences⟩)
    (fun a => (a.flags, a.baseClass, a.callins, a.callouts, a.anchors, a.callsBaseConstructor,
      a.precedences))

end Codec

inductive Extension where
  | absent
  | v1 (attributes : Attributes)
  | unsupported (version : UInt16) (body : List UInt8)
  /-- A body that cannot be read, with the reason. -/
  | corrupt (version : UInt16) (reason : String) (body : List UInt8)
  deriving DecidableEq, Inhabited

namespace Extension

def currentVersion : UInt16 := 1

def attributes? : Extension → Option Attributes
  | .v1 a => some a
  | _ => none

def isPresent : Extension → Bool
  | .absent => false
  | _ => true

/-- Version and body as they are written; `none` if nothing is. -/
def frame? : Extension → Option (UInt16 × List UInt8)
  | .absent => none
  | .v1 a => some (currentVersion, Codec.attributes.emit a)
  | .unsupported version body => some (version, body)
  | .corrupt version _ body => some (version, body)

def readAttributes : Reader Attributes := do
  let a ← Codec.attributes.read
  Reader.expectEnd
  return a

/-- A body must be used up by its attributes. -/
def readBody (body : List UInt8) : Except DecodeError Attributes :=
  (readAttributes.run.run (Cursor.ofBytes body)).1

def ofFrame (version : UInt16) (body : List UInt8) : Extension :=
  if version ≠ currentVersion then .unsupported version body
  else match readBody body with
    | .ok a => .v1 a
    | .error e => .corrupt version e.message body

def frameCodec : Codec (UInt16 × List UInt8) := Codec.u16.pair Codec.bytes

def emit (x : Extension) : List UInt8 :=
  match x.frame? with
  | none => []
  | some frame => frameCodec.emit frame

def read (present : Bool) : Reader Extension :=
  if present then do
    let (version, body) ← frameCodec.read
    return ofFrame version body
  else return .absent

end Extension

end Descriptor

end TeamRoles
