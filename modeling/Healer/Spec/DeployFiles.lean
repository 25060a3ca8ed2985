import Healer.Lib.Files
import Healer.Spec.ImageCleanup

/-! What `HandleDeployRelease` accepts (`validateDeployPayload`), and the two steps of `deployWindowsRelease` that
write files themselves: `snapshot` and `shared_dirs`. -/

namespace Healer

open RegularExpression (oneOf star char)

/-! ## The payload -/

structure DeployWindows where
  pythonExecutable : String
  requirementsFile : String
  managePy : String
  staticDir : String
  mediaDir : String
  logDir : String
  exclude : List String

structure DeployPayload where
  operation : String
  adapter : String
  appSlug : String
  releaseVersion : String
  sourceType : String
  sourceLocation : String
  windows : Option DeployWindows
  /-- There is a `linux` object. -/
  hasLinux : Bool

def hexDigits : List Char := "0123456789abcdefABCDEF".toList

/-- `immutableImageRef`: `^[a-zA-Z0-9][-a-zA-Z0-9._:/]*@sha256:[a-fA-F0-9]{64}$` -/
def immutableImageRef : RegularExpression Char :=
  oneOf alphanumeric * star (oneOf (['.', '_', ':', '/', '-'] ++ alphanumeric)) *
    ("@sha256:".toList.map char).foldr (· * ·) 1 * oneOf hexDigits ^ 64

def DeployPayload.cleanup (p : DeployPayload) : CleanupPayload :=
  ⟨p.operation, p.adapter, p.appSlug, p.releaseVersion, p.sourceType, p.sourceLocation⟩

/-- The fields that must not be blank. -/
def DeployWindows.required (w : DeployWindows) : List (String × String) :=
  [("windows.python_executable", w.pythonExecutable), ("windows.requirements_file", w.requirementsFile),
    ("windows.manage_py", w.managePy)]

/-- `validateDeployPayload`. `order` is the order in which Go ranges over the map of required fields. -/
def validateDeployPayload (order : List (String × String) → List (String × String)) (p : DeployPayload) :
    Except String Unit := do
  validPathSegment "app_slug" p.appSlug
  validPathSegment "release_version" p.releaseVersion
  if p.operation ≠ "" ∧ p.operation ≠ "cleanup_image" then
    let operation := p.operation.quote
    .error s!"invalid deploy_release payload: unsupported operation {operation}"
  else if p.operation = "cleanup_image" then validateCleanupPayload p.cleanup
  else
    let sourceType := p.sourceType.quote
    if p.adapter = "linux-docker" then
      if p.sourceType ≠ "dockerfile" ∧ p.sourceType ≠ "image" then
        .error s!"invalid deploy_release payload: unsupported source type {sourceType} for linux-docker"
      else if isBlank p.sourceLocation then
        .error "invalid deploy_release payload: source.location must not be empty"
      else if p.sourceType = "image" ∧ !patternMatches immutableImageRef p.sourceLocation then
        .error "invalid deploy_release payload: image source must include a sha256 digest"
      else if !p.hasLinux then .error "invalid deploy_release payload: missing linux config"
      else .ok ()
    else if p.sourceType ≠ "folder" ∧ p.sourceType ≠ "git" then
      .error s!"invalid deploy_release payload: unsupported source type {sourceType}"
    else if p.sourceType = "git" then .ok ()
    else if isBlank p.sourceLocation then
      .error "invalid deploy_release payload: source.location must not be empty"
    else
      match p.windows with
      | none => .error "invalid deploy_release payload: missing windows config"
      | some w =>
        match (order w.required).find? (isBlank ·.2) with
        | some (name, _) => .error s!"invalid deploy_release payload: {name} must not be empty"
        | none => .ok ()

/-! ## Paths -/

/-- What the agent leaves to Go and the operating system. -/
structure AgentOs where
  separator : Char
  isSeparator : Char → Bool
  isSeparator_separator : isSeparator separator = true
  isSeparator_cases : ∀ c, isSeparator c = true → c = '/' ∨ c = '\\'
  /-- `unicode.ToLower` -/
  toLower : Char → Char
  /-- What the file system compares names by. -/
  key : String → String
  /-- The names that an entry of a directory can have, among those without a separator. -/
  holds : String → Bool
  /-- Names of letters are nothing special, however long. -/
  letters : ∀ name : String, (∀ c ∈ name.toList, c.isLower = true) → holds name = true ∧ (key name).length = name.length
  /-- How many links a path may go through. -/
  maxLinks : ℕ
  maxLinks_pos : 0 < maxLinks
  absoluteText : List String → String
  errorText : Files.Errno → String

/-- `strings.TrimSpace` -/
def trimSpace (s : String) : String := String.ofList ((s.toList.dropWhile unicodeSpace).rdropWhile unicodeSpace)

/-- What `..` and the other parts of a path do to the names so far, the last of them first. -/
def pushPart (rooted : Bool) (stack : List String) (part : String) : List String :=
  if part = "" ∨ part = "." then stack
  else if part = ".." then
    match stack with
    | [] => if rooted then [] else [part]
    | top :: rest => if top = ".." then part :: stack else rest
  else part :: stack

namespace AgentOs

variable (os : AgentOs)

/-- Where a path leads on the disk as long as there is no link on it. -/
def keys (path : List String) : List String := path.map os.key

/-- `strings.ToLower` -/
def lower (s : String) : String := String.ofList (s.toList.map os.toLower)

def parts (path : String) : List String := (path.toList.splitOnP os.isSeparator).map String.ofList

def rooted (path : String) : Bool := path.toList.head?.any os.isSeparator

/-- The names with separators between them. -/
def text (names : List String) : String := String.ofList ([os.separator].intercalate (names.map String.toList))

/-- `filepath.Clean` -/
def clean (path : String) : String :=
  let names := ((os.parts path).foldl (pushPart (os.rooted path)) []).reverse
  if os.rooted path then String.ofList [os.separator] ++ os.text names
  else if names = [] then "." else os.text names

/-- `filepath.Join(dir, path)` for an absolute `dir`. -/
def join (dir : List String) (path : String) : List String :=
  ((os.parts path).foldl (pushPart true) dir.reverse).reverse

/-- `filepath.Ext` -/
def ext (path : String) : String :=
  let last := path.toList.rtakeWhile fun c => !os.isSeparator c
  if '.' ∈ last then String.ofList ('.' :: last.rtakeWhile (· != '.')) else ""

/-- `strings.EqualFold(s, ".pyc")` -/
def isPyc (s : String) : Bool := os.lower s == os.lower ".pyc"

end AgentOs

/-! ## `snapshotSource` -/

/-- The directory that is deployed, as the walk finds it. -/
inductive SourceTree
  | file (content : Bytes)
  | dir (entries : List (String × SourceTree))

abbrev FileCall (α : Type) := Files.Call String Bytes α

abbrev FileProg (α : Type) := Prog (Files.State String Bytes) String α

/-- `fmt.Errorf("<context>: %w", err)` -/
def described {α : Type} (os : AgentOs) (context : String) (m : FileCall α) : FileProg α := fun s =>
  match m s with
  | (.ok a, s') => (.ok a, s')
  | (.error e, s') => (.error (context ++ ": " ++ os.errorText e), s')

def defaultExcludes : List String :=
  [".git", ".hg", ".svn", "__pycache__", ".venv", "venv", "env", "node_modules", ".pytest_cache", ".mypy_cache"]

section Snapshot

variable (os : AgentOs) (w : DeployWindows) (dst : List String)

def DeployWindows.excluded : List String :=
  defaultExcludes.map os.lower ++
    (w.exclude.filter fun name => !isBlank name).map fun name => os.lower (trimSpace name)

/-- Matched against paths relative to the source root only. -/
def DeployWindows.topLevel : List String :=
  ([w.staticDir, w.mediaDir, w.logDir].filter fun rel => !isBlank rel).map fun rel =>
    os.lower (os.clean (trimSpace rel))

/-- The entry `name` of the directory `rel` is excluded or shared. -/
def skips (rel : List String) (name : String) : Bool :=
  os.lower name ∈ w.excluded os || os.lower (os.clean (os.text (rel ++ [name]))) ∈ w.topLevel os

/-- A stale build artifact, or the developer's secrets. -/
def isJunk (name : String) : Bool := os.isPyc (os.ext (os.lower name)) || os.lower name == ".env"

/-- `copyFile` -/
def copyFile (content : Bytes) (path : List String) : FileCall Unit := do
  Files.mkdirAll os.maxLinks (os.keys path.dropLast)
  Files.writeFile os.maxLinks (os.keys path) content

mutual

/-- The walk of one entry: the files copied and the directories skipped. -/
def walkEntry (rel : List String) (name : String) : SourceTree → FileCall (ℕ × ℕ)
  | .dir entries =>
    if skips os w rel name then pure (0, 1)
    else do
      Files.mkdirAll os.maxLinks (os.keys (dst ++ (rel ++ [name])))
      walkEntries (rel ++ [name]) entries
  | .file content =>
    if skips os w rel name then pure (0, 0)
    else if isJunk os name then pure (0, 0)
    else do
      copyFile os content (dst ++ (rel ++ [name]))
      pure (1, 0)

def walkEntries (rel : List String) : List (String × SourceTree) → FileCall (ℕ × ℕ)
  | [] => pure (0, 0)
  | (name, tree) :: entries => do
    let first ← walkEntry rel name tree
    let rest ← walkEntries rel entries
    pure (first + rest)

end

/-- `snapshotSource` -/
def snapshotSource (src : String) : SourceTree → FileProg (ℕ × ℕ)
  | .file _ => pure (0, 0)
  | .dir entries => described os s!"copying {src}" (walkEntries os w dst [] entries)

end Snapshot

/-! ## `linkSharedDirs` -/

section Links

variable (os : AgentOs) (appDir releaseDir : List String)

def linkShared (link : String × String) : FileProg Unit := do
  let target := appDir ++ ["shared", link.2]
  let targetText := os.absoluteText target
  described os s!"create shared directory {targetText}" (Files.mkdirAll os.maxLinks (os.keys target))
  if isBlank link.1 then pure ()
  else do
    let linkPath := os.join releaseDir (os.clean link.1)
    let linkText := os.absoluteText linkPath
    let dirText := os.absoluteText linkPath.dropLast
    described os s!"create {dirText}" (Files.mkdirAll os.maxLinks (os.keys linkPath.dropLast))
    described os s!"clear {linkText}" (Files.removeAll os.maxLinks (os.keys linkPath))
    described os s!"link {linkText} to {targetText}" (Files.symlink os.maxLinks (os.keys target) (os.keys linkPath))

def DeployWindows.links (w : DeployWindows) : List (String × String) :=
  [(w.staticDir, "static"), (w.mediaDir, "media"), (w.logDir, "logs")]

def linkSharedDirs (w : DeployWindows) : FileProg String := do
  Prog.each (linkShared os appDir releaseDir) w.links
  pure "linked static, media, logs to shared storage"

end Links

/-! ## `deployWindowsRelease` -/

def DeployPayload.appDir (p : DeployPayload) (dataDir : List String) : List String := dataDir ++ ["apps", p.appSlug]

def DeployPayload.releaseDir (p : DeployPayload) (dataDir : List String) : List String :=
  p.appDir dataDir ++ ["releases", p.releaseVersion]

/-- The steps `snapshot` and `shared_dirs`, with their messages. The second runs only if the first has not failed. -/
def deployFiles (os : AgentOs) (dataDir : List String) (p : DeployPayload) (w : DeployWindows) (source : SourceTree) :
    FileProg (String × String) := do
  let releaseDir := p.releaseDir dataDir
  let releaseText := os.absoluteText releaseDir
  described os s!"create release directory {releaseText}" (Files.mkdirAll os.maxLinks (os.keys releaseDir))
  let (files, dirs) ← snapshotSource os w releaseDir p.sourceLocation source
  let linked ← linkSharedDirs os (p.appDir dataDir) releaseDir w
  pure (s!"copied {files} files, excluded {dirs} directories", linked)

end Healer
