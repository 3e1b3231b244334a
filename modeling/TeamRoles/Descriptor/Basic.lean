import TeamRoles.Descriptor.Checksum
import TeamRoles.Descriptor.Extension
import TeamRoles.Files.Path
import TeamRoles.Modifiers
import TeamRoles.Name

/-!
Descriptors of compiled types and their binary form: a header with magic number, version, flags and
checksum, then the outline of the type, then its team and role extension if there is one.
-/

namespace TeamRoles.Descriptor

structure Member where
  name : String
  modifiers : Modifiers := .none
  signature : String
  deriving DecidableEq

structure Outline where
  name : String
  modifiers : Modifiers := .none
  signature : Option String := none
  superclass : Option String := none
  interfaces : List String := []
  enclosing : Option String := none
  memberTypes : List String := []
  fields : List Member := []
  methods : List Member := []
  deriving DecidableEq, Inhabited

end Descriptor

structure Descriptor extends Descriptor.Outline where
  extension : Descriptor.Extension := .absent
  deriving DecidableEq, Inhabited

namespace Descriptor

def simpleName (d : Descriptor) : String := Name.simple d.name

namespace Codec

def modifiers : Codec Modifiers := u32.iso Modifiers.mk Modifiers.bits

def member : Codec Member :=
  (string.pair <| modifiers.pair string).iso
    (fun (name, modifiers, signature) => ⟨name, modifiers, signature⟩)
    (fun m => (m.name, m.modifiers, m.signature))

def outline : Codec Outline :=
  (string.pair <| modifiers.pair <| (option string).pair <| (option string).pair <|
      (list string).pair <| (option string).pair <| (list string).pair <|
      (list member).pair <| list member).iso
    (fun (name, modifiers, signature, superclass, interfaces, enclosing, types, fields, methods) =>
      ⟨name, modifiers, signature, superclass, interfaces, enclosing, types, fields, methods⟩)
    (fun o => (o.name, o.modifiers, o.signature, o.superclass, o.interfaces, o.enclosing,
      o.memberTypes, o.fields, o.methods))

end Codec

inductive Error where
  | decode (cause : DecodeError)
  | invalidMagic (found : List UInt8)
  | unsupportedVersion (version : UInt16)
  | checksumMismatch (expected actual : UInt32)
  | unreadable (cause : FileError)
  deriving DecidableEq

def magic : List UInt8 := [0x52, 0x57, 0x54, 0x44]
def version : UInt16 := 1
def headerSize : Nat := 12
def extensionFlag : UInt16 := 1

def hexText (n : UInt32) : String := "0x" ++ String.ofList (Nat.toDigits 16 n.toNat)

def Error.message : Error → String
  | .decode cause => "Decode error: " ++ cause.message
  | .invalidMagic found =>
    "Invalid magic number: expected RWTD, got [" ++
      ", ".intercalate (found.map (·.toNat.repr)) ++ "]"
  | .unsupportedVersion v =>
    "Unsupported version: " ++ v.toNat.repr ++ " (current: " ++ version.toNat.repr ++ ")"
  | .checksumMismatch expected actual =>
    "Checksum mismatch: expected " ++ hexText expected ++ ", got " ++ hexText actual
  | .unreadable cause => "I/O error: " ++ cause.message

def payload (d : Descriptor) : List UInt8 :=
  Codec.outline.emit d.toOutline ++ d.extension.emit

def header (present : Bool) (sum : UInt32) : List UInt8 :=
  magic ++ Codec.u16.emit version ++ Codec.u16.emit (if present then extensionFlag else 0) ++
    Codec.u32.emit sum

/-- Encodes with any checksum; the format's own one is `checksum`. -/
def encodeWith (sumOf : List UInt8 → UInt32) (d : Descriptor) : List UInt8 :=
  header d.extension.isPresent (sumOf d.payload) ++ d.payload

def encode (d : Descriptor) : List UInt8 := d.encodeWith checksum

/-- The payload read after a header whose flags say whether an extension follows. -/
def readPayload (present : Bool) : Reader Descriptor := do
  let outline ← Codec.outline.read
  let extension ← Extension.read present
  Reader.expectEnd
  return { toOutline := outline, extension }

/-- The whole text of a descriptor. The checksum is compared before the payload is read. -/
def readAll (sumOf : List UInt8 → UInt32) (all : List UInt8) :
    ExceptT Error (StateM Cursor) Descriptor := do
  let found ← lift (Reader.slice 4)
  if found ≠ magic then throw (.invalidMagic found)
  let v ← lift Codec.u16.read
  if v ≠ version then throw (.unsupportedVersion v)
  let flags ← lift Codec.u16.read
  let stored ← lift Codec.u32.read
  let actual := sumOf (all.drop headerSize)
  if stored ≠ actual then throw (.checksumMismatch stored actual)
  lift (readPayload (flags &&& extensionFlag != 0))
where
  lift {α : Type} (r : Reader α) : ExceptT Error (StateM Cursor) α :=
    ExceptT.adapt Error.decode r

def decodeWith (sumOf : List UInt8 → UInt32) (bytes : List UInt8) : Except Error Descriptor :=
  ((readAll sumOf bytes).run.run (Cursor.ofBytes bytes)).1

def decode (bytes : List UInt8) : Except Error Descriptor := decodeWith checksum bytes

end Descriptor

end TeamRoles
