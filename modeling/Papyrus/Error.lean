import Papyrus.FileTree
/-!
# Errors

What can go wrong at the edges: with files, with the configuration and with arguments. Styling,
folding and matching never fail.
-/
namespace Papyrus

/-- What is wrong with a configuration. -/
inductive ConfigurationError where
  /-- The text is not of the configuration format. -/
  | malformed
  /-- A key has a value that it cannot have. -/
  | unexpectedValue (key : String)
  /-- A key that is needed is missing. -/
  | missing (key : String)
  deriving DecidableEq, Repr

/-- What is wrong with the arguments of a command. -/
inductive ArgumentError where
  | unknownOption (option : String)
  | valueMissing (option : String)
  | malformedPosition (text : String)
  | noInputFile
  | noLine (line : Nat)
  | noColumn (line column : Nat)
  deriving DecidableEq, Repr

/-- What can go wrong. -/
inductive Error where
  | file (cause : FileError)
  | configuration (cause : ConfigurationError)
  | unknownProfile (name : String)
  | argument (cause : ArgumentError)
  deriving DecidableEq, Repr

def ConfigurationError.message : ConfigurationError → String
  | malformed => "not a TOML document"
  | unexpectedValue key => "unexpected value for " ++ key
  | missing key => "missing " ++ key

def ArgumentError.message : ArgumentError → String
  | unknownOption option => "unknown option " ++ option
  | valueMissing option => option ++ " needs a value"
  | malformedPosition text => "expected LINE:COL, got " ++ text
  | noInputFile => "no input file"
  | noLine line => "no line " ++ toString line
  | noColumn line column => "no column " ++ toString column ++ " on line " ++ toString line

/-- The text shown for an error. -/
def Error.message : Error → String
  | file cause => "I/O error: " ++ cause.message
  | configuration cause => "Invalid configuration: " ++ cause.message
  | unknownProfile name => "No such profile: " ++ name
  | argument cause => "Invalid argument: " ++ cause.message

end Papyrus
