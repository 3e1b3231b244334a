import TeamRoles.Problem.Severity

/-!
The numbered problems. The upper byte of a number is its family; the families that concern teams and
roles share the family zero and are blocks of a hundred thousand above a million.
-/

namespace TeamRoles

structure ProblemId where
  value : UInt32
  deriving DecidableEq, Inhabited

inductive Category where
  | type | field | method | constructor | imports | internal | text | team | roleBaseBinding | callout
  | callin | encapsulation | dependentType | limitation | other
  deriving DecidableEq

namespace ProblemId

def typeRelated : UInt32 := 0x01000000
def fieldRelated : UInt32 := 0x02000000
def methodRelated : UInt32 := 0x04000000
def constructorRelated : UInt32 := 0x08000000
def importRelated : UInt32 := 0x10000000
def internalRelated : UInt32 := 0x20000000
def textRelated : UInt32 := 0x40000000

def teamRelated : UInt32 := 1100000
def roleBaseBinding : UInt32 := 1200000
def calloutRelated : UInt32 := 1300000
def callinRelated : UInt32 := 1400000
def encapsulation : UInt32 := 1500000
def dependentType : UInt32 := 1600000
def limitation : UInt32 := 1900000

def undefinedType : ProblemId := ⟨typeRelated + 2⟩
def notVisibleType : ProblemId := ⟨typeRelated + 3⟩
def ambiguousType : ProblemId := ⟨typeRelated + 4⟩
def hierarchyCircularity : ProblemId := ⟨typeRelated + 5⟩
def hierarchyHasProblems : ProblemId := ⟨typeRelated + 6⟩
def superclassMustBeClass : ProblemId := ⟨typeRelated + 7⟩
def superInterfaceMustBeInterface : ProblemId := ⟨typeRelated + 8⟩
def duplicateTypes : ProblemId := ⟨typeRelated + 9⟩
def publicClassMustMatchFileName : ProblemId := ⟨typeRelated + 10⟩
def typeCollidesWithPackage : ProblemId := ⟨typeRelated + 11⟩
def incorrectArityForParameterizedType : ProblemId := ⟨typeRelated + 12⟩
def typeArgumentMismatch : ProblemId := ⟨typeRelated + 13⟩
def classExtendsFinalClass : ProblemId := ⟨typeRelated + 14⟩
def supertypeNotResolved : ProblemId := ⟨typeRelated + 15⟩
def nonGenericType : ProblemId := ⟨typeRelated + 16⟩

def undefinedField : ProblemId := ⟨fieldRelated + 1⟩
def duplicateField : ProblemId := ⟨fieldRelated + 2⟩

def undefinedMethod : ProblemId := ⟨methodRelated + 1⟩
def ambiguousMethod : ProblemId := ⟨methodRelated + 2⟩
def duplicateMethod : ProblemId := ⟨methodRelated + 3⟩
def incompatibleReturnType : ProblemId := ⟨methodRelated + 4⟩
def methodReducesVisibility : ProblemId := ⟨methodRelated + 5⟩

def importNotFound : ProblemId := ⟨importRelated + 1⟩
def conflictingImport : ProblemId := ⟨importRelated + 2⟩
def cannotImportPackage : ProblemId := ⟨importRelated + 3⟩
def duplicateImport : ProblemId := ⟨importRelated + 4⟩
def importNotVisible : ProblemId := ⟨importRelated + 5⟩
def importConflictsWithType : ProblemId := ⟨importRelated + 6⟩

def internalInconsistency : ProblemId := ⟨internalRelated + 1⟩
def corruptDescriptor : ProblemId := ⟨internalRelated + 2⟩
def malformedTypeReference : ProblemId := ⟨textRelated + 1⟩
def malformedSignature : ProblemId := ⟨textRelated + 2⟩

def roleFileMustDeclareRole : ProblemId := ⟨teamRelated + 1⟩
def importOfRoleType : ProblemId := ⟨teamRelated + 2⟩
def baseImportInRegularClass : ProblemId := ⟨teamRelated + 3⟩
def roleFileTeamNotFound : ProblemId := ⟨teamRelated + 4⟩
def tsuperReturnMismatch : ProblemId := ⟨teamRelated + 5⟩

def baseclassCircularity : ProblemId := ⟨roleBaseBinding + 1⟩
def playedByInNonRole : ProblemId := ⟨roleBaseBinding + 2⟩
def incompatibleBaseclassRefinement : ProblemId := ⟨roleBaseBinding + 3⟩
def mappingInUnboundRole : ProblemId := ⟨roleBaseBinding + 4⟩
def baseclassIsEnclosingRole : ProblemId := ⟨roleBaseBinding + 5⟩

def unresolvedCalloutMethod : ProblemId := ⟨calloutRelated + 1⟩
def ambiguousCalloutMethod : ProblemId := ⟨calloutRelated + 2⟩
def calloutParameterMismatch : ProblemId := ⟨calloutRelated + 3⟩
def calloutReturnMismatch : ProblemId := ⟨calloutRelated + 4⟩
def unresolvedCalloutField : ProblemId := ⟨calloutRelated + 5⟩
def calloutToFieldTypeMismatch : ProblemId := ⟨calloutRelated + 6⟩
def calloutSetterToFinalField : ProblemId := ⟨calloutRelated + 7⟩
def calloutOverridesWithoutFlag : ProblemId := ⟨calloutRelated + 8⟩
def calloutSignatureCycle : ProblemId := ⟨calloutRelated + 9⟩

def unresolvedCallinRoleMethod : ProblemId := ⟨callinRelated + 1⟩
def unresolvedCallinBaseMethod : ProblemId := ⟨callinRelated + 2⟩
def ambiguousCallinBaseMethod : ProblemId := ⟨callinRelated + 3⟩
def callinParameterMismatch : ProblemId := ⟨callinRelated + 4⟩
def callinReturnMismatch : ProblemId := ⟨callinRelated + 5⟩
def replaceNeedsCallinMethod : ProblemId := ⟨callinRelated + 6⟩
def callinMethodBoundNonReplace : ProblemId := ⟨callinRelated + 7⟩
def definitelyMissingBaseCall : ProblemId := ⟨callinRelated + 8⟩
def potentiallyMissingBaseCall : ProblemId := ⟨callinRelated + 9⟩
def definitelyDuplicateBaseCall : ProblemId := ⟨callinRelated + 10⟩
def potentiallyDuplicateBaseCall : ProblemId := ⟨callinRelated + 11⟩
def incompatiblePrecedence : ProblemId := ⟨callinRelated + 12⟩
def precedenceRequired : ProblemId := ⟨callinRelated + 13⟩
def unknownPrecedenceElement : ProblemId := ⟨callinRelated + 14⟩
def callinOverridesRegular : ProblemId := ⟨callinRelated + 15⟩
def duplicateCallinLabel : ProblemId := ⟨callinRelated + 16⟩

def decapsulation : ProblemId := ⟨encapsulation + 1⟩
def unusedBaseImport : ProblemId := ⟨encapsulation + 2⟩
def calloutDecapsulation : ProblemId := ⟨encapsulation + 3⟩

def anchorCycle : ProblemId := ⟨dependentType + 1⟩
def anchorNotFinal : ProblemId := ⟨dependentType + 2⟩
def anchorNotATeam : ProblemId := ⟨dependentType + 3⟩
def roleNotInAnchorTeam : ProblemId := ⟨dependentType + 4⟩
def unresolvedAnchor : ProblemId := ⟨dependentType + 5⟩

def unsupportedExtensionVersion : ProblemId := ⟨limitation + 1⟩
def corruptExtensionAttribute : ProblemId := ⟨limitation + 2⟩
def parameterMappingOnFieldAccess : ProblemId := ⟨limitation + 3⟩
def category (p : ProblemId) : Category :=
  let family := p.value &&& 0xFF000000
  if family = typeRelated then .type
  else if family = fieldRelated then .field
  else if family = methodRelated then .method
  else if family = constructorRelated then .constructor
  else if family = importRelated then .imports
  else if family = internalRelated then .internal
  else if family = textRelated then .text
  else
    let raw := (p.value &&& 0x00FFFFFF).toNat
    if raw < 1000000 then .other
    else match (raw - 1000000) / 100000 with
      | 1 => .team
      | 2 => .roleBaseBinding
      | 3 => .callout
      | 4 => .callin
      | 5 => .encapsulation
      | 6 => .dependentType
      | 9 => .limitation
      | _ => .other

end ProblemId

/-- A row of the table of problems. A deprecated problem keeps its number and is never reported. -/
structure ProblemInfo where
  id : ProblemId
  name : String
  severity : Severity
  deprecated : Bool

def problemTable : List ProblemInfo :=
  [⟨.undefinedType, "UNDEFINED_TYPE", .error, false⟩,
    ⟨.notVisibleType, "NOT_VISIBLE_TYPE", .error, false⟩,
    ⟨.ambiguousType, "AMBIGUOUS_TYPE", .error, false⟩,
    ⟨.hierarchyCircularity, "HIERARCHY_CIRCULARITY", .error, false⟩,
    ⟨.hierarchyHasProblems, "HIERARCHY_HAS_PROBLEMS", .error, false⟩,
    ⟨.superclassMustBeClass, "SUPERCLASS_MUST_BE_CLASS", .error, false⟩,
    ⟨.superInterfaceMustBeInterface, "SUPER_INTERFACE_MUST_BE_INTERFACE", .error, false⟩,
    ⟨.duplicateTypes, "DUPLICATE_TYPES", .error, false⟩,
    ⟨.publicClassMustMatchFileName, "PUBLIC_CLASS_MUST_MATCH_FILE_NAME", .error, false⟩,
    ⟨.typeCollidesWithPackage, "TYPE_COLLIDES_WITH_PACKAGE", .error, false⟩,
    ⟨.incorrectArityForParameterizedType, "INCORRECT_ARITY_FOR_PARAMETERIZED_TYPE", .error, false⟩,
    ⟨.typeArgumentMismatch, "TYPE_ARGUMENT_MISMATCH", .error, false⟩,
    ⟨.classExtendsFinalClass, "CLASS_EXTENDS_FINAL_CLASS", .error, false⟩,
    ⟨.supertypeNotResolved, "SUPERTYPE_NOT_RESOLVED", .error, true⟩,
    ⟨.nonGenericType, "NON_GENERIC_TYPE", .error, false⟩,
    ⟨.undefinedField, "UNDEFINED_FIELD", .error, false⟩,
    ⟨.duplicateField, "DUPLICATE_FIELD", .error, false⟩,
    ⟨.undefinedMethod, "UNDEFINED_METHOD", .error, false⟩,
    ⟨.ambiguousMethod, "AMBIGUOUS_METHOD", .error, false⟩,
    ⟨.duplicateMethod, "DUPLICATE_METHOD", .error, false⟩,
    ⟨.incompatibleReturnType, "INCOMPATIBLE_RETURN_TYPE", .error, false⟩,
    ⟨.methodReducesVisibility, "METHOD_REDUCES_VISIBILITY", .error, false⟩,
    ⟨.importNotFound, "IMPORT_NOT_FOUND", .error, false⟩,
    ⟨.conflictingImport, "CONFLICTING_IMPORT", .error, false⟩,
    ⟨.cannotImportPackage, "CANNOT_IMPORT_PACKAGE", .error, false⟩,
    ⟨.duplicateImport, "DUPLICATE_IMPORT", .warning, false⟩,
    ⟨.importNotVisible, "IMPORT_NOT_VISIBLE", .error, false⟩,
    ⟨.importConflictsWithType, "IMPORT_CONFLICTS_WITH_TYPE", .error, false⟩,
    ⟨.internalInconsistency, "INTERNAL_INCONSISTENCY", .error, false⟩,
    ⟨.corruptDescriptor, "CORRUPT_DESCRIPTOR", .error, false⟩,
    ⟨.malformedTypeReference, "MALFORMED_TYPE_REFERENCE", .error, false⟩,
    ⟨.malformedSignature, "MALFORMED_SIGNATURE", .error, false⟩,
    ⟨.roleFileMustDeclareRole, "ROLE_FILE_MUST_DECLARE_ROLE", .error, false⟩,
    ⟨.importOfRoleType, "IMPORT_OF_ROLE_TYPE", .error, false⟩,
    ⟨.baseImportInRegularClass, "BASE_IMPORT_IN_REGULAR_CLASS", .error, false⟩,
    ⟨.roleFileTeamNotFound, "ROLE_FILE_TEAM_NOT_FOUND", .error, false⟩,
    ⟨.tsuperReturnMismatch, "TSUPER_RETURN_MISMATCH", .error, false⟩,
    ⟨.baseclassCircularity, "BASECLASS_CIRCULARITY", .error, false⟩,
    ⟨.playedByInNonRole, "PLAYED_BY_IN_NON_ROLE", .error, false⟩,
    ⟨.incompatibleBaseclassRefinement, "INCOMPATIBLE_BASECLASS_REFINEMENT", .error, false⟩,
    ⟨.mappingInUnboundRole, "MAPPING_IN_UNBOUND_ROLE", .error, false⟩,
    ⟨.baseclassIsEnclosingRole, "BASECLASS_IS_ENCLOSING_ROLE", .error, false⟩,
    ⟨.unresolvedCalloutMethod, "UNRESOLVED_CALLOUT_METHOD", .error, false⟩,
    ⟨.ambiguousCalloutMethod, "AMBIGUOUS_CALLOUT_METHOD", .error, false⟩,
    ⟨.calloutParameterMismatch, "CALLOUT_PARAMETER_MISMATCH", .error, false⟩,
    ⟨.calloutReturnMismatch, "CALLOUT_RETURN_MISMATCH", .error, false⟩,
    ⟨.unresolvedCalloutField, "UNRESOLVED_CALLOUT_FIELD", .error, false⟩,
    ⟨.calloutToFieldTypeMismatch, "CALLOUT_TO_FIELD_TYPE_MISMATCH", .error, false⟩,
    ⟨.calloutSetterToFinalField, "CALLOUT_SETTER_TO_FINAL_FIELD", .error, false⟩,
    ⟨.calloutOverridesWithoutFlag, "CALLOUT_OVERRIDES_WITHOUT_FLAG", .error, false⟩,
    ⟨.calloutSignatureCycle, "CALLOUT_SIGNATURE_CYCLE", .error, false⟩,
    ⟨.unresolvedCallinRoleMethod, "UNRESOLVED_CALLIN_ROLE_METHOD", .error, false⟩,
    ⟨.unresolvedCallinBaseMethod, "UNRESOLVED_CALLIN_BASE_METHOD", .error, false⟩,
    ⟨.ambiguousCallinBaseMethod, "AMBIGUOUS_CALLIN_BASE_METHOD", .error, false⟩,
    ⟨.callinParameterMismatch, "CALLIN_PARAMETER_MISMATCH", .error, false⟩,
    ⟨.callinReturnMismatch, "CALLIN_RETURN_MISMATCH", .error, false⟩,
    ⟨.replaceNeedsCallinMethod, "REPLACE_NEEDS_CALLIN_METHOD", .error, false⟩,
    ⟨.callinMethodBoundNonReplace, "CALLIN_METHOD_BOUND_NON_REPLACE", .error, false⟩,
    ⟨.definitelyMissingBaseCall, "DEFINITELY_MISSING_BASE_CALL", .warning, false⟩,
    ⟨.potentiallyMissingBaseCall, "POTENTIALLY_MISSING_BASE_CALL", .warning, false⟩,
    ⟨.definitelyDuplicateBaseCall, "DEFINITELY_DUPLICATE_BASE_CALL", .error, false⟩,
    ⟨.potentiallyDuplicateBaseCall, "POTENTIALLY_DUPLICATE_BASE_CALL", .warning, false⟩,
    ⟨.incompatiblePrecedence, "INCOMPATIBLE_PRECEDENCE", .error, false⟩,
    ⟨.precedenceRequired, "PRECEDENCE_REQUIRED", .error, false⟩,
    ⟨.unknownPrecedenceElement, "UNKNOWN_PRECEDENCE_ELEMENT", .error, false⟩,
    ⟨.callinOverridesRegular, "CALLIN_OVERRIDES_REGULAR", .error, false⟩,
    ⟨.duplicateCallinLabel, "DUPLICATE_CALLIN_LABEL", .error, false⟩,
    ⟨.decapsulation, "DECAPSULATION", .info, false⟩,
    ⟨.unusedBaseImport, "UNUSED_BASE_IMPORT", .warning, false⟩,
    ⟨.calloutDecapsulation, "CALLOUT_DECAPSULATION", .info, false⟩,
    ⟨.anchorCycle, "ANCHOR_CYCLE", .error, false⟩,
    ⟨.anchorNotFinal, "ANCHOR_NOT_FINAL", .error, false⟩,
    ⟨.anchorNotATeam, "ANCHOR_NOT_A_TEAM", .error, false⟩,
    ⟨.roleNotInAnchorTeam, "ROLE_NOT_IN_ANCHOR_TEAM", .error, false⟩,
    ⟨.unresolvedAnchor, "UNRESOLVED_ANCHOR", .error, false⟩,
    ⟨.unsupportedExtensionVersion, "UNSUPPORTED_EXTENSION_VERSION", .warning, false⟩,
    ⟨.corruptExtensionAttribute, "CORRUPT_EXTENSION_ATTRIBUTE", .warning, false⟩,
    ⟨.parameterMappingOnFieldAccess, "PARAMETER_MAPPING_ON_FIELD_ACCESS", .error, false⟩]

namespace ProblemId

def info? (p : ProblemId) : Option ProblemInfo := problemTable.find? (·.id == p)

def name (p : ProblemId) : String := (p.info?.map (·.name)).getD "Unknown"

def defaultSeverity (p : ProblemId) : Severity := (p.info?.map (·.severity)).getD .error

def isDeprecated (p : ProblemId) : Bool := (p.info?.map (·.deprecated)).getD false

def ofName? (name : String) : Option ProblemId := (problemTable.find? (·.name == name)).map (·.id)

def text (p : ProblemId) : String := p.value.toNat.repr

end ProblemId

end TeamRoles
