import Papyrus.Lexer.Basic
/-!
# Links to scripts

The name of a class leads to its script.
-/
namespace Papyrus

/-- Asks for a file to be opened. -/
def Document.requestOpen (d : Document) (path : Path) : Document :=
  { d with opened := d.opened ++ [path] }

/-- The script that the name at an offset stands for, which the document is asked to open. Colons
are part of the name. -/
def Lexer.followLink (x : Lexer) (files : FileTree) (d : Document) (offset : Nat) :
    Option Path × Lexer × Document :=
  match x.settings.profile? with
  | none => (none, x, d)
  | some profile =>
    let ((path?, x), d) := d.withWordChars [':'] fun d =>
      let word := d.wordAt offset
      if word.isEmpty then ((none, x), d)
      else
        let name := String.ofList (d.read word.start word.stop)
        let (path?, classes) := x.classes.locate files name profile
        ((path?, { x with classes := classes }), path?.elim d d.requestOpen)
    (path?, x, d)

end Papyrus
