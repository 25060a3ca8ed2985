import Healer.Spec.DbAdmin

/-! `CommandOut.from_model` of `app/schemas/commands.py`: an agent command as the API shows it. -/

namespace Healer

open DbAdmin (Json redactFields)

/-- The `AgentCommand` row, its other columns by their text. -/
structure CommandModel where
  id : String
  agentId : String
  commandType : String
  status : String
  payload : List (String × Json)
  result : Option (List (String × Json))
  error : Option String
  correlationId : Option String
  createdAt : String
  expiresAt : Option String

structure CommandOut where
  id : String
  agentId : String
  type : String
  status : String
  payload : List (String × Json)
  result : Option (List (String × Json))
  error : Option String
  correlationId : Option String
  createdAt : String
  expiresAt : Option String

/-- `CommandOut.from_model` -/
def CommandOut.fromModel (command : CommandModel) : CommandOut where
  id := command.id
  agentId := command.agentId
  type := command.commandType
  status := command.status
  payload := redactFields command.payload
  result := command.result.map redactFields
  error := command.error
  correlationId := command.correlationId
  createdAt := command.createdAt
  expiresAt := command.expiresAt

end Healer
