import DemonBoard.Error
import DemonBoard.Moment.Text
import DemonBoard.Recompute
import DemonBoard.Text.Integer

/-!
The arguments of the command. An option may be cut to any beginning of its name, its value follows as
the next argument or after an equals sign, and of an option given twice the last value counts, but
scopes add up. Anything else is a usage error.
-/

namespace DemonBoard.Command

structure Options where
  scopes : List Scope
  listAt : Option Timestamp
  top : Int

namespace Options

def standard : Options := ⟨[], none, 20⟩

end Options

inductive OptionName where
  | help
  | databaseUrl
  | scope
  | listAt
  | top
  deriving DecidableEq

namespace OptionName

def all : List OptionName := [.help, .databaseUrl, .scope, .listAt, .top]

def label : OptionName → String
  | help => "--help"
  | databaseUrl => "--database-url"
  | scope => "--scope"
  | listAt => "--list-at"
  | top => "--top"

end OptionName

/-- What an argument is taken for, before anything is known of the others. -/
inductive Argument where
  | plain
  | separator
  | named (name : OptionName) (value : Option String)
  | shortHelp (more : List Char)
  | stray
  | ambiguous
  deriving DecidableEq

/-- Usage errors end with code 2, and a request for help with code 0. -/
def usageError : Error := .usage 2

def helpRequest : Error := .usage 0

/-- A minus with digits, or with digits around a point. -/
def isNegativeNumber : List Char → Bool
  | '-' :: cs =>
    let whole := cs.takeWhile Char.isDigit
    match cs.dropWhile Char.isDigit with
    | [] => !whole.isEmpty
    | '.' :: places => !places.isEmpty && places.all Char.isDigit
    | _ => false
  | _ => false

def splitValue (cs : List Char) : List Char × Option String :=
  match cs.dropWhile (· ≠ '=') with
  | [] => (cs, none)
  | _ :: value => (cs.takeWhile (· ≠ '='), some (String.ofList value))

def classify (argument : String) : Argument :=
  let cs := argument.toList
  match cs with
  | '-' :: '-' :: rest =>
    let (name, value) := splitValue cs
    if rest.isEmpty then .separator
    else
      match OptionName.all.filter fun o => name.isPrefixOf o.label.toList with
      | [o] => .named o value
      | _ :: _ :: _ => .ambiguous
      | [] => if cs.contains ' ' then .plain else .stray
  | '-' :: 'h' :: more => .shortHelp more
  | ['-'] => .plain
  | '-' :: _ => if isNegativeNumber cs || cs.contains ' ' then .plain else .stray
  | _ => .plain

/-- Letters right after a short option are further short options; a value or a dash is none. -/
def endsShortOptions : List Char → Bool
  | [] => true
  | c :: _ => c ≠ '=' && c ≠ '-'

def Options.set (o : Options) (name : OptionName) (value : String) : Except Error Options :=
  match name with
  | .help => .error usageError
  | .databaseUrl => .ok o
  | .scope =>
    match Scope.ofLabel? value with
    | some scope => .ok { o with scopes := o.scopes ++ [scope] }
    | none => .error usageError
  | .listAt =>
    match Timestamp.parse? value with
    | some time => .ok { o with listAt := some time }
    | none => .error usageError
  | .top =>
    match Text.Integer.read? value with
    | some top => .ok { o with top }
    | none => .error usageError

/-- Reads the arguments from the front. Arguments that are no option are only refused at the end, so a
request for help after them is heard. -/
def readFrom (o : Options) (refused : Bool) : List String → Except Error Options
  | [] => if refused then .error usageError else .ok o
  | argument :: rest =>
    match classify argument with
    | .plain | .stray => readFrom o true rest
    | .separator | .ambiguous => .error usageError
    | .shortHelp more => .error (if endsShortOptions (more.dropWhile (· = 'h')) then helpRequest else usageError)
    | .named .help none => .error helpRequest
    | .named name (some value) => do readFrom (← o.set name value) refused rest
    | .named name none =>
      match rest with
      | value :: rest =>
        if classify value = .plain then do readFrom (← o.set name value) refused rest
        else .error usageError
      | [] => .error usageError

/-- Reads all arguments. A beginning that several options share is refused before anything else. -/
def read (arguments : List String) : Except Error Options :=
  if (arguments.takeWhile (classify · ≠ .separator)).any (classify · = .ambiguous) then .error usageError
  else readFrom .standard false arguments

end DemonBoard.Command
