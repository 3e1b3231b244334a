import TeamRoles.Json.Basic
import TeamRoles.Json.Parser
import TeamRoles.Json.Printer
import TeamRoles.Json.Convert
