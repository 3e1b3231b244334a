import TeamRoles.Env.Resolve

/-!
Making methods. A callin method gets a second signature with the parameters that weaving adds.
-/

namespace TeamRoles.Resolve

def enhancingArgType : EnhancingArg → Resolve Ty
  | .baseArg => wellKnownType (·.boundBase)
  | .teams => return .array (← wellKnownType (·.team))
  | .index | .boundMethodId => return .primitive .int
  | .callinIds => return .array (.primitive .int)
  | .args => return .array (← objectType)

def enhancingArgTypes : Resolve (List Ty) := do
  (← get).options.weavingScheme.enhancingArgs.mapM enhancingArgType

/-- A woven method returns a value of any type. -/
def enhance (declared : MethodType) : Resolve (Option MethodType) := do
  let extra ← enhancingArgTypes
  if extra.isEmpty then return none
  let ret ← if declared.ret = .primitive .void then pure declared.ret else objectType
  return some ⟨extra ++ declared.params, ret⟩

def newMethod (m : Method) : Resolve MethodId := do
  let enhanced ← if m.isCallin then enhance m.declared else pure none
  addMethod { m with enhanced }

end TeamRoles.Resolve
