import Healer.Lib.Pattern

/-! The character patterns that `app/schemas/healer_yaml.py`, `app/domain/db_admin_registry.py` and
the Gateway Manager check names and paths against, and the two ways they are applied. -/

namespace Healer

open RegularExpression (oneOf optional upTo atLeastOnce char star)

/-- The letters of a range such as `a-z`. -/
def charRange (first last : Char) : List Char :=
  (List.range' first.toNat (last.toNat + 1 - first.toNat)).map Char.ofNat

def lowerCase : List Char := charRange 'a' 'z'

/-- `A-Za-z` -/
def letters : List Char := charRange 'A' 'Z' ++ lowerCase

def digits : List Char := charRange '0' '9'

/-- `A-Za-z0-9` -/
def alphanumeric : List Char := letters ++ digits

/-- `a-z0-9` -/
def slugLetters : List Char := lowerCase ++ digits

/-- One `_HOSTNAME_RE` label with the dot after it: `[A-Za-z0-9]([A-Za-z0-9-]{0,61}[A-Za-z0-9])?\.` -/
def labelRe : RegularExpression Char :=
  oneOf alphanumeric *
    (optional (upTo (oneOf ('-' :: alphanumeric)) 61 * oneOf alphanumeric) * char '.')

/-- `_HOSTNAME_RE`: `(label\.)+[A-Za-z]{2,63}` -/
def hostnameRe : RegularExpression Char :=
  atLeastOnce labelRe * (oneOf letters * (oneOf letters * upTo (oneOf letters) 61))

/-- `_UNIX_PATH_RE`: a slash, then at least one of `A-Za-z0-9`, `_`, `.`, `/` and `-`. -/
def unixPathRe : RegularExpression Char :=
  char '/' * atLeastOnce (oneOf (['_', '.', '/', '-'] ++ alphanumeric))

/-- `_HOST_RE`: `[A-Za-z0-9][A-Za-z0-9.-]*` -/
def hostRe : RegularExpression Char := oneOf alphanumeric * star (oneOf (['.', '-'] ++ alphanumeric))

/-- `_SLUG_RE`: `[a-z0-9][a-z0-9-]{0,62}` -/
def slugRe : RegularExpression Char := oneOf slugLetters * upTo (oneOf ('-' :: slugLetters)) 62

/-- pydantic's `pattern`: `$` is the very end of the text. -/
def patternMatches (P : RegularExpression Char) (s : String) : Bool := P.rmatch s.toList

/-- `s` ends in a newline. -/
def endsInNewline (s : String) : Bool := s.toList.getLast? == some '\n'

/-- `re.match`: `$` is also the place before a newline at the end. -/
def reMatch (P : RegularExpression Char) (s : String) : Bool :=
  P.rmatch s.toList || endsInNewline s && P.rmatch s.toList.dropLast

/-- `".." in path.split("/")` -/
def hasTraversal (path : String) : Bool := (path.toList.splitOn '/').contains ['.', '.']

end Healer
