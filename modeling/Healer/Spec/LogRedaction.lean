import Healer.Lib.Words

/-! The known-value layer of `log_redaction.redact_line`: the values are replaced one after another,
each in the line that the ones before it have left. -/

namespace Healer

/-- `_REDACTED`. -/
def redactedMarker : List Char := ['[', 'R', 'E', 'D', 'A', 'C', 'T', 'E', 'D', ']']

/-- The loop of `redact_line` over `known_secret_values`. -/
def redactKnown (line : List Char) (knownSecretValues : List (List Char)) : List Char :=
  knownSecretValues.foldl (fun redacted value =>
    if value = [] then redacted else Words.replaceAll id value redactedMarker redacted) line

end Healer
