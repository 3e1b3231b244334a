import TeamRoles.Members.Method

/-!
Base-call surrogates: a callin method calls its base method through a generated method of the role.
-/

namespace TeamRoles

/-- A method of the role that can serve as the surrogate of a callin method. -/
def Env.existingSurrogate? (e : Env) (methods : List MethodId) (callin : MethodId) :
    Option MethodId :=
  let m := e.method callin
  methods.find? fun candidate =>
    let c := e.method candidate
    Name.surrogateTarget? c.name == some m.name &&
      c.declared.params.length == m.woven.params.length

namespace Resolve

def createSurrogate (role : BindingId) (callin : MethodId) : Resolve MethodId := do
  let m := (← get).method callin
  let modifiers := Modifiers.public ∪ Modifiers.synthetic
  newMethod {
    name := Name.surrogate m.name
    modifiers := if m.modifiers.isStatic then modifiers ∪ .static else modifiers
    declaring := role, typeVariables := m.typeVariables, declared := m.woven
    exceptions := m.exceptions, origin := .surrogate callin, span := m.span }

/-- A surrogate is copied and overridden as its callin method is. -/
def linkSurrogate (callin surrogate : MethodId) : Resolve Unit := do
  updateMethod callin ({ · with surrogate := some surrogate })
  let e ← get
  let m := e.method callin
  let source := m.copySource.bind fun s => (e.method s).surrogate
  let tsupers := m.overriddenTsupers.filterMap fun t => (e.method t).surrogate
  updateMethod surrogate fun s =>
    { s with
      copySource := source <|> s.copySource
      overriddenTsupers := tsupers.foldl
        (fun list t => if list.contains t then list else list ++ [t]) s.overriddenTsupers }

def attachSurrogate (role : BindingId) (methods : List MethodId) (callin : MethodId) :
    Resolve (List MethodId) := do
  match (← get).existingSurrogate? methods callin with
  | some surrogate =>
    linkSurrogate callin surrogate
    return methods
  | none =>
    let surrogate ← createSurrogate role callin
    linkSurrogate callin surrogate
    return methods ++ [surrogate]

def attachSurrogates (role : BindingId) (methods : List MethodId) : Resolve (List MethodId) := do
  let e ← get
  let callins := methods.filter fun m => (e.method m).isCallin && !(e.method m).isSurrogate
  callins.foldlM (attachSurrogate role) methods

end Resolve

end TeamRoles
