import TeamRoles.Signature.Basic
import TeamRoles.Signature.Printer
import TeamRoles.Signature.Parser
