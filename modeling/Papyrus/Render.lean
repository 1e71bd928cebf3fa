import Papyrus.Block.Match
/-!
# Showing a document on a terminal

Each line is shown as its runs of one style, each in the colour of the style; plain text has no
colour. A gutter can show the fold levels. A match is shown as a list of the places to look at.
-/
namespace Papyrus

namespace Render

/-- Text that switches a terminal to a colour. -/
def colourOn (colour : Colour) : Text :=
  match colour.code? with
  | none => "\x1b[39m".toList
  | some n => ("\x1b[38;5;" ++ toString n ++ "m").toList

/-- Text that switches a terminal back to its own colour. -/
def colourOff : Text := "\x1b[0m".toList

/-- A run in the colour of its style. -/
def run (style : Style) (text : Text) : Text :=
  if text = [] then []
  else if style = .default then text
  else colourOn style.colour ++ text ++ colourOff

/-- The runs of one style of a text, by the styles of its bytes, from the one on that is open. That
one starts at byte `start` and has style `current`, and the text has been gone through up to byte
`pos`, where `rest` starts. A character has the style of its first byte. -/
def runsFrom (text : Text) (styleAt : Nat → Style) (start : Nat) (current : Style) (pos : Nat) :
    Text → List (Style × Text)
  | [] => [(current, text.slice start text.size)]
  | c :: rest =>
    let style := styleAt pos
    if style = current then runsFrom text styleAt start current (pos + c.utf8Size) rest
    else
      (current, text.slice start pos) ::
        runsFrom text styleAt pos style (pos + c.utf8Size) rest

/-- The text, with blanks before it up to the given width. -/
def padLeft (width : Nat) (text : String) : String :=
  String.ofList (List.replicate (width - text.length) ' ') ++ text

/-- The gutter of a line: its fold level, and a mark if it is a header. -/
def gutter : Option FoldLevel → String
  | none => "     "
  | some f => padLeft 3 (toString (f.level - FoldLevel.base)) ++ (if f.header then "+ " else "  ")

end Render

/-- The runs of one style of a line. Its first character opens the first one. -/
def Document.runs (d : Document) (line : Nat) (l : Line) : List (Style × Text) :=
  let base := d.lineStart line
  Render.runsFrom l.text (fun pos => d.styleAt (base + pos)) 0 (l.styleAt 0)
    (Text.size (l.text.take 1)) (l.text.drop 1)

/-- A line in colour, with its terminator. -/
def Document.renderLine (d : Document) (folds : Bool) (line : Nat) (l : Line) : Text :=
  (if folds then (Render.gutter l.fold).toList else []) ++
    (d.runs line l).flatMap (fun (s, t) => Render.run s t) ++ ['\n']

/-- The document in colour, with fold levels if they are asked for. -/
def Document.render (d : Document) (folds : Bool) : Text :=
  d.lines.zipIdx.flatMap fun (l, line) => d.renderLine folds line l

/-- The line and the display column of an offset, both from one on. -/
def Document.position (d : Document) (offset : Nat) : Nat × Nat :=
  let line := d.lineAt offset
  let column := d.lines[line]?.elim 0 (·.columnOfByte (offset - d.lineStart line))
  (line + 1, column + 1)

/-- The places that a match highlights, one to a line. -/
def Document.renderMatch (d : Document) (m : BlockMatch) : String :=
  (if m.found then "matched\n" else "unmatched\n") ++
    String.join (m.highlights.map fun s =>
      let (line, column) := d.position s.start
      "  " ++ toString line ++ ":" ++ toString column ++ " " ++
        String.ofList (d.slice s.start s.stop) ++ "\n")

end Papyrus
