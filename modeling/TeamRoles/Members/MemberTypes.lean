import TeamRoles.Lookup.Load

/-!
The types inside a type. A team has those of its role files too.
-/

namespace TeamRoles.Resolve

def declaredMemberTypes (e : Env) (b : BindingId) (decl : TypeDecl) : List BindingId :=
  let found := decl.memberTypes.filterMap fun m =>
    (e.lookup? ((e.binding b).name ++ "$" ++ m.name)).filter fun inner =>
      (e.binding inner).enclosing == some b
  found.foldl (fun list inner => if list.contains inner then list else list ++ [inner]) []

def memberTypes (b : BindingId) : Resolve (List BindingId) := do
  match (← known b).memberTypes with
  | .resolved list => return list
  | .inProgress => reentrant b .memberTypes
  | .unresolved =>
    updateBinding b ({ · with memberTypes := .inProgress })
    let own ← match ((← get).binding b).origin with
      | .source decl _ => pure (declaredMemberTypes (← get) b decl)
      | .binary d => d.memberTypes.filterMapM fun name => ask (.findType name)
      | .problem _ => pure []
    let fromFiles := (((← get).binding b).team.map (·.roleFileRoles)).getD []
    let list := fromFiles.foldl
      (fun list role => if list.contains role then list else list ++ [role]) own
    updateBinding b ({ · with memberTypes := .resolved list })
    return list

end TeamRoles.Resolve
