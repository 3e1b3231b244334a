import TeamRoles.BaseCall
import TeamRoles.Command.Arguments
import TeamRoles.Command.Basic
import TeamRoles.Command.Help
import TeamRoles.Command.Request
import TeamRoles.Decl.Json
import TeamRoles.Descriptor.Json
import TeamRoles.Env.Walk
import TeamRoles.Files.Descriptors
import TeamRoles.Files.Tree
import TeamRoles.Generics.Subtyping
import TeamRoles.Inspect.Json
import TeamRoles.Inspect.TypeExpr
import TeamRoles.Json
import TeamRoles.Main
import TeamRoles.Modifiers
import TeamRoles.Name
import TeamRoles.Options
import TeamRoles.Precedence.Basic
import TeamRoles.Problem.Snippet
import TeamRoles.Provider
import TeamRoles.References
import TeamRoles.Session
import TeamRoles.Signature
import TeamRoles.Signature.Json
import TeamRoles.Styled
import TeamRoles.Toml.Parser
import TeamRoles.Types.Table
import TeamRoles.Proofs.Descriptor.Codec
import TeamRoles.Proofs.Descriptor.Format
import TeamRoles.Proofs.Descriptor.RoundTrip
import TeamRoles.Proofs.Signature.Reading
import TeamRoles.Proofs.Signature.Types
import TeamRoles.Proofs.Signature.RoundTrip
import TeamRoles.Proofs.Env.Evolution
import TeamRoles.Proofs.Env.Parts
import TeamRoles.Proofs.Env.Runs
import TeamRoles.Proofs.Env.Lasts
import TeamRoles.Proofs.Env.Names
import TeamRoles.Proofs.Env.Range
import TeamRoles.Proofs.Env.Anchors
import TeamRoles.Proofs.Env.Proceeds
import TeamRoles.Proofs.Env.Lawful
import TeamRoles.Proofs.Lawful.Lookup
import TeamRoles.Proofs.Lawful.References
import TeamRoles.Proofs.Lawful.Members
import TeamRoles.Proofs.Lookup.Plain
import TeamRoles.Proofs.Lawful.Fields
import TeamRoles.Proofs.Lawful.Generics
import TeamRoles.Proofs.Lawful.Mapping
import TeamRoles.Proofs.Hierarchy.Supertypes
import TeamRoles.Proofs.Lawful.Session
import TeamRoles.Proofs.Session.Reachable
import TeamRoles.Proofs.Session.Memo
import TeamRoles.Proofs.Session.Reentrance
import TeamRoles.Proofs.Hierarchy.Acyclic
import TeamRoles.Proofs.Precedence.Sort
import TeamRoles.Proofs.Precedence.Graph
import TeamRoles.Proofs.Precedence.JoinPoints
import TeamRoles.Proofs.Precedence.Entries
import TeamRoles.Proofs.Precedence.Declarations
import TeamRoles.Proofs.Precedence.Order
import TeamRoles.Proofs.Pairing.Reporting
import TeamRoles.Proofs.Pairing.Basic
import TeamRoles.Proofs.Pairing.Lookup
import TeamRoles.Proofs.Pairing.References
import TeamRoles.Proofs.Pairing.Members
import TeamRoles.Proofs.Pairing.Generics
import TeamRoles.Proofs.Pairing.Mapping
import TeamRoles.Proofs.Pairing.Session
import TeamRoles.Proofs.Session.Severity
import TeamRoles.Proofs.Session.Pass
import TeamRoles.Proofs.Session.Bounds
import TeamRoles.Proofs.Session.RoleFiles
import TeamRoles.Proofs.Session.Repeat
import TeamRoles.Proofs.Descriptor.Damage
import TeamRoles.Proofs.BaseCall.Counts
import TeamRoles.Proofs.BaseCall.Analysis
import TeamRoles.Proofs.BaseCall.Exceptions
import TeamRoles.Proofs.Precedence.Closure
import TeamRoles.Proofs.Lawful.Methods
import TeamRoles.Proofs.Env.Offers
import TeamRoles.Proofs.Session.RoleMethods
import TeamRoles.Proofs.Session.TsuperRoles
import TeamRoles.Proofs.Session.Anchors
import TeamRoles.Proofs.Precedence.Findings
import TeamRoles.Proofs.Precedence.Required
import TeamRoles.Proofs.Generics.Answers
import TeamRoles.Proofs.Generics.Capture
import TeamRoles.Proofs.Generics.Stored
import TeamRoles.Proofs.Generics.Replay
import TeamRoles.Proofs.Generics.Subtyping
import TeamRoles.Proofs.Generics.Antisymmetry
import TeamRoles.Proofs.Generics.Flat
import TeamRoles.Proofs.Generics.Ascent
import TeamRoles.Proofs.Generics.Reach
import TeamRoles.Proofs.Env.Tsuper
import TeamRoles.Proofs.Types.Table
import TeamRoles.Proofs.Types.Numbering
import TeamRoles.Proofs.BaseCall.Fixpoint
import TeamRoles.Proofs.Name.Families
import TeamRoles.Proofs.Generics.Composition
import TeamRoles.Proofs.Generics.Erasure
import TeamRoles.Proofs.Generics.Ages
import TeamRoles.Proofs.Lookup.Halting
import TeamRoles.Proofs.Generics.Normal
import TeamRoles.Proofs.Session.Overriding
import TeamRoles.Proofs.Session.CopyChains
import TeamRoles.Proofs.Lookup.Batch
import TeamRoles.Proofs.Lookup.QualifiedHead
import TeamRoles.Proofs.Precedence.Listing
import TeamRoles.Proofs.Views.History
