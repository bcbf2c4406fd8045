import Permalink.Composition
import Permalink.Resolution
import Permalink.Schema.Build
import Permalink.Settings.Basic
import Permalink.Text.Blank

/-! The command line, as a script of requests for files. -/

namespace Permalink.Command

structure Outcome where
  succeeded : Bool
  lines : List String
  deriving DecidableEq

inductive Script where
  | finish (outcome : Outcome)
  | readFile (path : String) (next : Option String → Script)

namespace Script

def fail : Script := .finish ⟨false, []⟩

def run {m : Type → Type} [Monad m] (readFile : String → m (Option String)) : Script → m Outcome
  | .finish outcome => pure outcome
  | .readFile path next => do
    let text ← readFile path
    (next text).run readFile

end Script

def extensionOf? (name : List Char) : Option (List Char) :=
  match name.tail.reverse.span (· ≠ '.') with
  | (extension, '.' :: _) => some extension.reverse
  | _ => none

def lastStep (path : List Char) : List Char := (path.reverse.takeWhile (· ≠ '/')).reverse

def formatOf? (path : String) : Option Settings.Format :=
  (extensionOf? (lastStep path.toList)).bind fun extension =>
    [.toml, .json].find? fun format => format.extension = String.ofList extension

def namelessFile : List Char := ".dummy".toList

/-- The path with one more extension behind the name that it ends in. Slashes behind the name are
left out, unless the name has an extension already: such a path is kept as it is written. -/
def withExtension? (path extension : String) : Option String :=
  let added := '.' :: extension.toList
  match (path.toList.splitOn '/').reverse.dropWhile fun step => step = [] || step = ['.'] with
  | [] => none
  | name :: steps =>
    if name = ['.', '.'] then none
    else if (extensionOf? name).isSome then
      let name := if (lastStep path.toList).isEmpty then namelessFile else []
      some (String.ofList (path.toList ++ name ++ added))
    else some (String.ofList (List.intercalate ['/'] ((name ++ added) :: steps).reverse))

def findSettings (path : String) (next : Option (Option Settings.Format × String) → Script) :
    Script :=
  let tryExtension (format : Settings.Format) (otherwise : Script) : Script :=
    match withExtension? path format.extension with
    | none => otherwise
    | some path => .readFile path fun
      | some text => next (some (some format, text))
      | none => otherwise
  .readFile path fun
    | some text => next (some (formatOf? path, text))
    | none => tryExtension .toml (tryExtension .json (next none))

def defaultSettings : String := "viewurl"

/-- Reads the settings. A file that is named must be there, one of the default name may be. -/
def withSettings (path : Option String) (environment : List Variable) (next : Settings → Script) :
    Script :=
  findSettings (path.getD defaultSettings) fun found =>
    let settings := match found with
      | some (some format, text) => Settings.load? format (Text.dropMark text.toList) environment
      | _ => if path.isSome then none else Settings.ofMembers? [] environment
    (settings.map next).getD .fail

def withSchema (path : String) (next : Schema → Script) : Script :=
  .readFile path fun
    | some text =>
      match Schema.read text with
      | .ok schema => next schema
      | .error _ => .fail
    | none => .fail

/-- What is done once all is read. Listening for requests is left to the program around. -/
def perform (schema : Schema) (host : Host) (arguments : List String) : Outcome :=
  match arguments with
  | "parse" :: url :: urls =>
    ⟨true, (url :: urls).map fun url => String.ofList (State.ofUrl schema host url).text⟩
  | ["construct", text] =>
    match State.reader.read text.toList with
    | .ok s => ⟨true, [s.toUrl schema]⟩
    | .error _ => ⟨false, []⟩
  | _ => ⟨false, []⟩

def splitSettings? (arguments : List String) : Option (Option String × List String) :=
  match arguments.span (· ≠ "--config") with
  | (before, _ :: path :: after) => some (some path, before ++ after)
  | (_, [_]) => none
  | (before, []) => some (none, before)

def script (arguments : List String) (environment : List Variable) : Script :=
  match splitSettings? arguments with
  | none => .fail
  | some (path, arguments) =>
    withSettings path environment fun settings =>
      withSchema settings.schemaFile fun schema =>
        .finish (perform schema settings.host.host arguments)

end Permalink.Command
