import GraphQuery.Json.Printer
import GraphQuery.Page
import GraphQuery.Text.Replace
import GraphQuery.Text.Safe

/-!
# GraphQuery.Statement — statement text with bound values

Statement text is put together from fragments. A fragment is a list of pieces: text of the library,
a client's name reduced to its safe characters, a number, or a placeholder for a bound value. No
other text of a client reaches a statement.

1. **Pieces and fragments**
2. **Drafts**: the pieces so far, the indentation, the bindings, the options.
3. **Commands** that extend a draft.
4. **Debug text**: the statement with each binding written in place of its placeholder.
-/

namespace GraphQuery

open Json

/-! ## Pieces and fragments -/

/-- A piece of a statement. -/
inductive Piece
  | text (s : String)
  | name (s : String)
  | number (n : Nat)
  /-- A placeholder together with the value bound to it. -/
  | bound (name : String) (value : Value)
deriving Repr

/-- Pieces of a statement, in their order. -/
abbrev Fragment := List Piece

/-- Text of the library itself. -/
def lit (s : String) : Fragment := [.text s]

/-- A client's name. -/
def named (s : String) : Fragment := [.name s]

/-- A placeholder with its value. -/
def bound (name : String) (value : Value) : Fragment := [.bound name value]

/-- Fragments with a separator between them. -/
def Fragment.join (separator : String) (fs : List Fragment) : Fragment :=
  List.intercalate (lit separator) fs

/-- What marks a placeholder. -/
inductive Sigil
  | atSign
  | dollar
deriving Repr, DecidableEq

def Sigil.char : Sigil → Char
  | atSign => '@'
  | dollar => '$'

def Sigil.placeholder (s : Sigil) (name : String) : String := s.char.toString ++ Text.safe name

/-- A piece as it stands in a text. Whatever is not the compiler's own loses its unsafe
characters. -/
def Piece.render (sigil : Sigil) : Piece → String
  | .text s => s
  | .name s => Text.safe s
  | .number n => toString n
  | .bound key _ => sigil.placeholder key

/-- The text of pieces. -/
def Fragment.render (sigil : Sigil) (f : Fragment) : String :=
  String.join (f.map (Piece.render sigil))

/-! ## Drafts -/

/-- What a statement asks the backend to count: all rows whatever its limit, or its own rows. -/
structure CountOptions where
  fullCount : Bool
  count : Bool
deriving Repr, DecidableEq

/-- Nothing is counted. -/
def CountOptions.none : CountOptions := ⟨false, false⟩

/-- A statement that is being written. -/
structure Draft where
  sigil : Sigil
  pieces : Fragment
  indentation : Nat
  bindings : Dictionary Value
  options : CountOptions
deriving Repr

namespace Draft

/-- A draft in which nothing has been written. -/
def empty (sigil : Sigil) : Draft := ⟨sigil, [], 0, [], .none⟩

/-- The text of a draft. -/
def text (d : Draft) : String := d.pieces.render d.sigil

/-- Binds a value; a name that is bound already gets the new value. -/
def bind (d : Draft) (name : String) (value : Value) : Draft :=
  { d with bindings := d.bindings.insert (Text.safe name) value }

/-- Binds the value that a piece carries. -/
def bindPiece (d : Draft) : Piece → Draft
  | .bound name value => d.bind name value
  | _ => d

/-- Adds a fragment to the current line and binds the values of its placeholders. -/
def add (d : Draft) (f : Fragment) : Draft :=
  f.foldl bindPiece { d with pieces := d.pieces ++ f }

/-- A draft is empty as long as no piece of it has any text. -/
def isEmpty (d : Draft) : Bool := d.pieces.all fun p => (p.render d.sigil).isEmpty

/-- The blanks for one level of indentation. -/
def indentUnit : String := "   "

/-- Starts a line. The first line of a text needs no line break before it. -/
def startLine (d : Draft) : Draft :=
  let d := if d.isEmpty then d else d.add (lit "\n")
  d.add (List.replicate d.indentation (.text indentUnit))

end Draft

/-! ## Commands -/

/-- A step in writing a statement. -/
inductive Command
  /-- Starts a line with a fragment. -/
  | line (f : Fragment)
  /-- Continues the line. -/
  | add (f : Fragment)
  | indent
  | outdent
  /-- Limits the rows to a page with a size. Without one, the backend is asked to count its rows. -/
  | page (p : Option PageRequest)
  | options (o : CountOptions)
deriving Repr

/-- Steps in writing a statement, in their order. -/
abbrev Script := List Command

/-- Takes a step. -/
def Draft.run (d : Draft) : Command → Draft
  | .line f => d.startLine.add f
  | .add f => d.add f
  | .indent => { d with indentation := d.indentation + 1 }
  | .outdent => { d with indentation := d.indentation - 1 }
  | .page (some ⟨offset, some size, returnTotal⟩) =>
    { d.startLine.add (lit "LIMIT " ++ [.number offset] ++ lit ", " ++ [.number size]) with
      options := ⟨returnTotal, false⟩ }
  | .page _ => { d with options := { d.options with count := true } }
  | .options o => { d with options := o }

/-- Takes all steps of a script. -/
def Draft.runAll (d : Draft) (script : Script) : Draft := script.foldl Draft.run d

/-! ## Debug text -/

namespace Draft

/-- A binding as it is written in place of its placeholder. -/
def written (name : String) : Value → String
  | .string s => if name.toList.head? == some '@' then "`" ++ s ++ "`" else "\"" ++ s ++ "\""
  | v => v.compact

/-- Longer names first, so that a name is replaced before any name it begins with. -/
def longestFirst (bindings : Dictionary Value) : Dictionary Value :=
  bindings.mergeSort fun a b => decide (b.1.utf8ByteSize ≤ a.1.utf8ByteSize)

/-- The text with its bindings written out, one name after the other. -/
def debugText (d : Draft) : String :=
  (longestFirst d.bindings).foldl
    (fun text (name, value) =>
      Text.replaceAll (d.sigil.char.toString ++ name) (written name value) text)
    d.text

end Draft

end GraphQuery
