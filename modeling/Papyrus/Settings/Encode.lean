import Papyrus.Settings.Decode
import Papyrus.Toml.Printer
/-!
# Settings to a configuration file

All settings are written, defaults included. What has no value, such as the words of a role that are
the standard ones, is left out.
-/
namespace Papyrus.Settings

open Toml (printPair printString printStrings)

def encodeBool (b : Bool) : Text := (if b then "true" else "false").toList

def encodeIndicator (id : UInt32) : Text := (toString id.toNat).toList

/-- The configuration file of the settings, but for its heading. -/
def toToml (s : Settings) : Text :=
  printPair "fold_middle" (encodeBool s.foldMiddle) ++
  printPair "class_cache" (encodeBool s.classCache) ++
  printPair "keyword_matching" (encodeBool s.keywordMatching) ++
  printPair "matched_indicator" (encodeIndicator s.matchedIndicator) ++
  printPair "unmatched_indicator" (encodeIndicator s.unmatchedIndicator) ++
  s.activeProfile.elim [] (fun name => printPair "active_profile" (printString name)) ++
  (if s.profiles.isEmpty then printPair "profiles" (printStrings []) else []) ++
  "\n[words]\n".toList ++
  WordRole.all.flatMap (fun role =>
    (s.words.get role).elim [] fun words => printPair role.key (printString words)) ++
  s.profiles.flatMap (fun p =>
    "\n[[profiles]]\n".toList ++ printPair "name" (printString p.name) ++
      printPair "import_dirs" (printStrings p.importDirs))

/-- The configuration file of the settings. -/
def toText (s : Settings) : Text := "# papyrus-lex configuration\n".toList ++ s.toToml

end Papyrus.Settings
