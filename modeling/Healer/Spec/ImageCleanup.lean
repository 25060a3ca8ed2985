import Healer.Spec.Logs
import Healer.Spec.Patterns

/-! The agent's side of `cleanup_image`: what `HandleDeployRelease` checks of such a payload
(`validateDeployPayload`) and the tag `cleanupLinuxImage` has Docker remove. -/

namespace Healer

open RegularExpression (oneOf star)

/-- The fields of `deployReleasePayload` that a cleanup is judged by. -/
structure CleanupPayload where
  operation : String
  adapter : String
  appSlug : String
  releaseVersion : String
  sourceType : String
  sourceLocation : String

/-- `cleanupSlug`: `^[a-z0-9][a-z0-9-]*$` -/
def cleanupSlug : RegularExpression Char := oneOf slugLetters * star (oneOf ('-' :: slugLetters))

/-- `cleanupVersion`: `^[a-zA-Z0-9][a-zA-Z0-9_.-]*$` -/
def cleanupVersion : RegularExpression Char :=
  oneOf alphanumeric * star (oneOf (['_', '.', '-'] ++ alphanumeric))

/-- `validPathSegment`. An absolute path has a separator, on either system. -/
def validPathSegment (name value : String) : Except String Unit :=
  if isBlank value then .error s!"invalid deploy_release payload: {name} must not be empty"
  else if value = "." ∨ value = ".." ∨ value.toList.any (fun c => c == '/' || c == '\\') ∨ ['.', '.'] <:+: value.toList then
    let quoted := value.quote
    .error s!"invalid deploy_release payload: {name} {quoted} is not a safe directory name"
  else .ok ()

/-- `validateDeployPayload` for the operation `cleanup_image`. -/
def validateCleanupPayload (p : CleanupPayload) : Except String Unit := do
  validPathSegment "app_slug" p.appSlug
  validPathSegment "release_version" p.releaseVersion
  if p.adapter ≠ "linux-docker" ∨ p.sourceType ≠ "" ∨ p.sourceLocation ≠ "" then
    .error "invalid cleanup_image payload: only a Linux release tag can be removed"
  else if !patternMatches cleanupSlug p.appSlug || !patternMatches cleanupVersion p.releaseVersion then
    .error "invalid cleanup_image payload: unsafe release tag"
  else .ok ()

/-- `cleanupLinuxImage`: the tag it asks Docker to remove. -/
def cleanupLinuxImage (p : CleanupPayload) : String := "healer-" ++ p.appSlug ++ ":" ++ p.releaseVersion

/-- `HandleDeployRelease` of a cleanup: an error, or the tag. -/
def handleCleanup (p : CleanupPayload) : Except String String := do
  validateCleanupPayload p
  pure (cleanupLinuxImage p)

/-- The payload `_prune_old_releases` sends; it names no source. -/
def cleanupPayload (slug ref : String) : CleanupPayload := ⟨"cleanup_image", "linux-docker", slug, ref, "", ""⟩

end Healer
