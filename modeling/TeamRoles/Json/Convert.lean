import TeamRoles.Json.Basic

/-!
Reading and writing records as JSON. A record is an object; names it does not know are skipped, a
known name must not be repeated, and a field may be absent only if it is optional or has a default.
-/

namespace TeamRoles

class FromJson (α : Type) where
  fromJson? : Json → Option α

class ToJson (α : Type) where
  toJson : α → Json

export FromJson (fromJson?)
export ToJson (toJson)

namespace Json

/-- The value of a member that occurs at most once; `none` if it is repeated or there is no object. -/
def member? (j : Json) (key : String) : Option (Option Json) :=
  match j with
  | .obj members => match members.filter (·.1 == key) with
    | [] => some none
    | [(_, v)] => some (some v)
    | _ => none
  | _ => none

/-- A record may also be written as the list of its first fields. -/
def named (names : List String) : Json → Json
  | .arr elems => if elems.length ≤ names.length then .obj (names.zip elems) else .arr elems
  | j => j

/-- The record that a list of fields stands for; what the list has too much does not count. -/
def leading (names : List String) : Json → Json
  | .arr elems => .obj (names.zip elems)
  | j => j

def isNull : Json → Bool
  | .null => true
  | _ => false

def isEmpty : Json → Bool
  | .arr elems => elems.isEmpty
  | .obj members => members.isEmpty
  | _ => false

/-- A choice without content: its name, or an object in which the name stands for nothing. -/
def choiceWith? (isNothing : Json → Bool) : Json → Option String
  | .str name => some name
  | .obj [(name, v)] => if isNothing v then some name else none
  | _ => none

def choice? : Json → Option String := choiceWith? isNull

def required? {α : Type} [FromJson α] (j : Json) (key : String) : Option α := do
  fromJson? (← (← j.member? key))

/-- An absent field and `null` both mean nothing. -/
def optional? {α : Type} [FromJson α] (j : Json) (key : String) : Option (Option α) := do
  match ← j.member? key with
  | none | some .null => return none
  | some v => return some (← fromJson? v)

def withDefault? {α : Type} [FromJson α] (j : Json) (key : String) (default : α) : Option α := do
  match ← j.member? key with
  | none => return default
  | some v => fromJson? v

def elems? : Json → Option (List Json)
  | .arr elems => some elems
  | _ => none

/-- An object as a table: sorted by name, the last of several values of a name wins. -/
def entries? : Json → Option (List (String × Json))
  | .obj members => some ((keepLast members).mergeSort (fun a b => decide (a.1 ≤ b.1)))
  | _ => none

def ofNat (n : Nat) : Json := .int n

def unsigned? (size : Nat) : Json → Option Nat
  | .int n => if 0 ≤ n ∧ n < size then some n.toNat else none
  | _ => none

end Json

instance : FromJson Json := ⟨some⟩
instance : FromJson Bool := ⟨fun | .bool b => some b | _ => none⟩
instance : FromJson String := ⟨fun | .str s => some s | _ => none⟩
instance : FromJson Nat := ⟨Json.unsigned? UInt64.size⟩
instance : FromJson UInt8 := ⟨fun j => (Json.unsigned? UInt8.size j).map UInt8.ofNat⟩
instance : FromJson UInt16 := ⟨fun j => (Json.unsigned? UInt16.size j).map UInt16.ofNat⟩
instance : FromJson UInt32 := ⟨fun j => (Json.unsigned? UInt32.size j).map UInt32.ofNat⟩

instance {α : Type} [FromJson α] : FromJson (Option α) :=
  ⟨fun | .null => some none | j => (fromJson? j).map some⟩

instance {α : Type} [FromJson α] : FromJson (List α) :=
  ⟨fun j => j.elems?.bind (·.mapM fromJson?)⟩

instance {α β : Type} [FromJson α] [FromJson β] : FromJson (α × β) :=
  ⟨fun | .arr [a, b] => do return (← fromJson? a, ← fromJson? b) | _ => none⟩

instance : ToJson Json := ⟨id⟩
instance : ToJson Bool := ⟨.bool⟩
instance : ToJson String := ⟨.str⟩
instance : ToJson Nat := ⟨.ofNat⟩
instance : ToJson UInt8 := ⟨fun n => .ofNat n.toNat⟩
instance : ToJson UInt16 := ⟨fun n => .ofNat n.toNat⟩
instance : ToJson UInt32 := ⟨fun n => .ofNat n.toNat⟩

instance {α : Type} [ToJson α] : ToJson (Option α) := ⟨fun | none => .null | some a => toJson a⟩
instance {α : Type} [ToJson α] : ToJson (List α) := ⟨fun xs => .arr (xs.map toJson)⟩

end TeamRoles
