import Papyrus.Settings.Encode
/-!
# Configuration files

Settings are kept in a file of the user's home directory, or in any other file. A file in the home
directory that is missing or cannot be read leaves the settings at their defaults.
-/
namespace Papyrus

/-- The configuration file in a home directory. -/
def Path.configuration (home : Path) : Path := home.join ".papyrus-lex.toml"

namespace Settings

/-- Loads the settings of a file. -/
def load (files : FileTree) (path : Path) : Except Error Settings := do
  let text ← (files.read path).mapError Error.file
  (ofText text.toList).mapError Error.configuration

/-- Loads the settings of a home directory, if there is one. -/
def loadHome (files : FileTree) (home : Option Path) : Settings :=
  match home with
  | none => {}
  | some home =>
    match load files home.configuration with
    | .ok s => s
    | .error _ => {}

/-- Saves the settings to a file. -/
def save (s : Settings) (files : FileTree) (path : Path) : Except Error FileTree :=
  (files.write path (String.ofList s.toText)).mapError Error.file

/-- Saves the settings to a home directory, if there is one. -/
def saveHome (s : Settings) (files : FileTree) (home : Option Path) : Except Error FileTree :=
  match home with
  | none => .ok files
  | some home => s.save files home.configuration

end Settings

end Papyrus
