/-!
The binary layer of descriptors: bytes are read by a cursor that survives a failed read, and a codec
joins a writer with the reader of what it writes. Numbers are little endian, strings and lists stand
behind their length, an optional value behind a tag.
-/

namespace TeamRoles.Descriptor

inductive DecodeError where
  | unexpectedEnd (offset : Nat)
  | invalidUtf8 (offset : Nat)
  | invalidTag (tag : UInt8) (offset : Nat)
  | trailingBytes (count : Nat)
  deriving DecidableEq

def DecodeError.message : DecodeError → String
  | .unexpectedEnd offset => "Unexpected end of descriptor at offset " ++ offset.repr
  | .invalidUtf8 offset => "Invalid UTF-8 string at offset " ++ offset.repr
  | .invalidTag tag offset => "Invalid tag " ++ tag.toNat.repr ++ " at offset " ++ offset.repr
  | .trailingBytes count => count.repr ++ " trailing bytes after structure"

/-- A place in a byte string: how much was read, and what is left. -/
structure Cursor where
  position : Nat
  rest : List UInt8
  deriving DecidableEq

namespace Cursor

def ofBytes (bytes : List UInt8) : Cursor := ⟨0, bytes⟩

def remaining (c : Cursor) : Nat := c.rest.length

def advance (c : Cursor) (count : Nat) : Cursor := ⟨c.position + count, c.rest.drop count⟩

end Cursor

/-- A read that may fail; the cursor stays where the failure left it. -/
abbrev Reader (α : Type) := ExceptT DecodeError (StateM Cursor) α

namespace Reader

def position : Reader Nat := return (← get).position

def slice (count : Nat) : Reader (List UInt8) := do
  let c ← get
  if count ≤ c.remaining then
    set (c.advance count)
    return c.rest.take count
  else throw (.unexpectedEnd c.position)

def expectEnd : Reader Unit := do
  let c ← get
  if c.remaining = 0 then return () else throw (.trailingBytes c.remaining)

def times {α : Type} (r : Reader α) : Nat → Reader (List α)
  | 0 => return []
  | n + 1 => return (← r) :: (← times r n)

def string (count : Nat) : Reader String := do
  let start ← position
  match String.fromUTF8? ⟨(← slice count).toArray⟩ with
  | some s => return s
  | none => throw (.invalidUtf8 start)

end Reader

def fromLittleEndian (bytes : List UInt8) : Nat := bytes.foldr (fun b n => b.toNat + 256 * n) 0

def littleEndian : Nat → Nat → List UInt8
  | 0, _ => []
  | width + 1, n => UInt8.ofNat n :: littleEndian width (n / 256)

structure Codec (α : Type) where
  emit : α → List UInt8
  read : Reader α

namespace Codec

def u8 : Codec UInt8 where
  emit n := [n]
  read := return UInt8.ofNat (fromLittleEndian (← Reader.slice 1))

def u16 : Codec UInt16 where
  emit n := littleEndian 2 n.toNat
  read := return UInt16.ofNat (fromLittleEndian (← Reader.slice 2))

def u32 : Codec UInt32 where
  emit n := littleEndian 4 n.toNat
  read := return UInt32.ofNat (fromLittleEndian (← Reader.slice 4))

def bytes : Codec (List UInt8) where
  emit bs := u32.emit (UInt32.ofNat bs.length) ++ bs
  read := do Reader.slice (← u32.read).toNat

def string : Codec String where
  emit s := bytes.emit s.toUTF8.data.toList
  read := do Reader.string (← u32.read).toNat

def tag {α : Type} (toByte : α → UInt8) (ofByte? : UInt8 → Option α) : Codec α where
  emit a := [toByte a]
  read := do
    let offset ← Reader.position
    let byte ← u8.read
    match ofByte? byte with
    | some a => return a
    | none => throw (.invalidTag byte offset)

def boolOfByte? (b : UInt8) : Option Bool :=
  if b = 0 then some false else if b = 1 then some true else none

def bool : Codec Bool := tag (fun b => if b then 1 else 0) boolOfByte?

def option {α : Type} (c : Codec α) : Codec (Option α) where
  emit
    | none => bool.emit false
    | some a => bool.emit true ++ c.emit a
  read := do
    if ← bool.read then return some (← c.read) else return none

def list {α : Type} (c : Codec α) : Codec (List α) where
  emit as := u32.emit (UInt32.ofNat as.length) ++ as.flatMap c.emit
  read := do Reader.times c.read (← u32.read).toNat

def pair {α β : Type} (a : Codec α) (b : Codec β) : Codec (α × β) where
  emit p := a.emit p.1 ++ b.emit p.2
  read := return (← a.read, ← b.read)

def iso {α β : Type} (c : Codec α) (build : α → β) (split : β → α) : Codec β where
  emit b := c.emit (split b)
  read := return build (← c.read)

end Codec

/-- Overwrites four bytes of a buffer; beyond its end nothing is written. -/
def patch (buffer : List UInt8) (offset : Nat) (value : UInt32) : List UInt8 :=
  if offset + 4 ≤ buffer.length then
    buffer.take offset ++ Codec.u32.emit value ++ buffer.drop (offset + 4)
  else buffer

end TeamRoles.Descriptor
