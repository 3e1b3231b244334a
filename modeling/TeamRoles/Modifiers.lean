import TeamRoles.Json.Convert

/-!
Modifier sets of types, fields and methods, one bit each. Bits without a name are kept as they are.
-/

namespace TeamRoles

structure Modifiers where
  bits : UInt32
  deriving DecidableEq, Inhabited

namespace Modifiers

def none : Modifiers := ⟨0⟩
def «public» : Modifiers := ⟨0x0001⟩
def «private» : Modifiers := ⟨0x0002⟩
def «protected» : Modifiers := ⟨0x0004⟩
def static : Modifiers := ⟨0x0008⟩
def final : Modifiers := ⟨0x0010⟩
def interface : Modifiers := ⟨0x0200⟩
def «abstract» : Modifiers := ⟨0x0400⟩
def synthetic : Modifiers := ⟨0x1000⟩
def enum : Modifiers := ⟨0x4000⟩
def team : Modifiers := ⟨0x10000⟩
def role : Modifiers := ⟨0x20000⟩
def callin : Modifiers := ⟨0x40000⟩
def deprecated : Modifiers := ⟨0x80000⟩

/-- The bits that say from where a declaration can be used. -/
def visibility : Modifiers := ⟨0x0007⟩

def union (a b : Modifiers) : Modifiers := ⟨a.bits ||| b.bits⟩
def inter (a b : Modifiers) : Modifiers := ⟨a.bits &&& b.bits⟩
def diff (a b : Modifiers) : Modifiers := ⟨a.bits &&& ~~~b.bits⟩

instance : Union Modifiers := ⟨union⟩
instance : Inter Modifiers := ⟨inter⟩
instance : SDiff Modifiers := ⟨diff⟩

def contains (a b : Modifiers) : Bool := a.bits &&& b.bits == b.bits

def intersects (a b : Modifiers) : Bool := a.bits &&& b.bits != 0

def isPublic (m : Modifiers) : Bool := m.contains «public»
def isPrivate (m : Modifiers) : Bool := m.contains «private»
def isStatic (m : Modifiers) : Bool := m.contains static
def isFinal (m : Modifiers) : Bool := m.contains final
def isInterface (m : Modifiers) : Bool := m.contains interface
def isTeam (m : Modifiers) : Bool := m.contains team
def isRole (m : Modifiers) : Bool := m.contains role
def isCallin (m : Modifiers) : Bool := m.contains callin
def isSynthetic (m : Modifiers) : Bool := m.contains synthetic

/-- The words for the named bits, in the order in which they are written. -/
def words : List (Modifiers × String) :=
  [(«public», "public"), («private», "private"), («protected», "protected"), (static, "static"),
    (final, "final"), («abstract», "abstract"), (interface, "interface"), (enum, "enum"),
    (team, "team"), (role, "role"), (callin, "callin"), (synthetic, "synthetic"),
    (deprecated, "deprecated")]

def text (m : Modifiers) : String :=
  " ".intercalate ((words.filter (fun w => m.contains w.1)).map (·.2))

end Modifiers

instance : FromJson Modifiers := ⟨fun j => (fromJson? j).map Modifiers.mk⟩
instance : ToJson Modifiers := ⟨fun m => toJson m.bits⟩

/-- Modifiers that can be written in a declaration. -/
inductive Keyword where
  | «public» | «private» | «protected» | static | final | «abstract» | team | callin | deprecated
  deriving DecidableEq

namespace Keyword

def all : List (Keyword × String) :=
  [(.public, "public"), (.private, "private"), (.protected, "protected"), (.static, "static"),
    (.final, "final"), (.abstract, "abstract"), (.team, "team"), (.callin, "callin"),
    (.deprecated, "deprecated")]

def modifiers : Keyword → Modifiers
  | .public => .public
  | .private => .private
  | .protected => .protected
  | .static => .static
  | .final => .final
  | .abstract => .abstract
  | .team => .team
  | .callin => .callin
  | .deprecated => .deprecated

def word (k : Keyword) : String := (all.lookup k).getD ""

def ofWord? (word : String) : Option Keyword := (all.find? (·.2 == word)).map (·.1)

instance : FromJson Keyword := ⟨fun j => j.choice?.bind ofWord?⟩

instance : ToJson Keyword := ⟨fun k => .str k.word⟩

end Keyword

def Modifiers.ofKeywords (ks : List Keyword) : Modifiers :=
  ks.foldl (fun m k => m.union k.modifiers) .none

end TeamRoles
