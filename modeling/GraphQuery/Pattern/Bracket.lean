import GraphQuery.Pattern.Escape

/-!
# GraphQuery.Pattern.Bracket — sets in brackets

1. **Operands**: a set in brackets is a union of members, or several unions joined from left to
   right by `&&`, `--` and `~~`.
2. **Members** are characters, spans, escapes and named ASCII sets.
3. **Reading** keeps a stack of the sets that are open, since sets may stand in sets.
-/

namespace GraphQuery.Pattern

/-! ## Operands -/

/-- What stands between two operands in brackets. -/
inductive SetOp
  | inter
  | without
  | differing
deriving Repr, DecidableEq

def SetOp.apply : SetOp → CharSet → CharSet → CharSet
  | inter => CharSet.inter
  | without => CharSet.without
  | differing => CharSet.differing

/-- A set whose closing bracket has not been read. -/
structure OpenSet where
  negated : Bool
  /-- What stands to the left of the last operation. -/
  left : Option (SetOp × CharSet)
  /-- The members since then. -/
  members : CharSet

namespace OpenSet

/-- Adds members to a set that is being read. -/
def add (s : OpenSet) (set : CharSet) : OpenSet := { s with members := s.members.union set }

/-- The set of all operands so far. Both sides of an operation are closed under change of case. -/
def value (f : Flags) (s : OpenSet) : CharSet :=
  match s.left with
  | some (op, left) => op.apply (f.fold left) (f.fold s.members)
  | none => s.members

/-- Reads an operator: what has been read of the set becomes its left operand. -/
def operate (f : Flags) (s : OpenSet) (op : SetOp) : OpenSet :=
  { s with left := some (op, s.value f), members := CharSet.none }

/-- The set in brackets once its closing bracket has been read. -/
def close? (f : Flags) (s : OpenSet) : Option CharSet :=
  f.negateIf? s.negated (f.fold (s.value f))

end OpenSet

/-! ## Members -/

/-- Reads an escape or a character that stands for itself. -/
def readMember (f : Flags) : List Char → Option (Escape × List Char)
  | '\\' :: rest => readEscape f rest
  | c :: rest => some (.literal c, rest)
  | [] => none

/-- A character may be a member if sets are not confined to ASCII or it is one of ASCII. -/
def Flags.allows (f : Flags) (c : Char) : Bool := f.unicode || c.toNat < 0x80

/-- The members that an escape stands for, if it stands for any. -/
def Escape.memberSet? (f : Flags) : Escape → Option CharSet
  | .literal c => if f.allows c then some (CharSet.single c) else none
  | set chars => some chars
  | look _ => none

/-- The set from one character to another. -/
def Escape.spanSet? (f : Flags) : Escape → Escape → Option CharSet
  | literal first, literal last =>
    if first ≤ last && f.allows first && f.allows last then some (CharSet.span first last) else none
  | _, _ => none

/-- A dash makes a span unless a bracket or another dash follows. -/
def opensSpan (f : Flags) : List Char → Bool
  | '-' :: rest =>
    match f.skip rest with
    | ']' :: _ | '-' :: _ => false
    | _ => true
  | _ => false

/-- Reads one member, or a range of them. -/
def readMembers (f : Flags) (cs : List Char) : Option (CharSet × List Char) := do
  let (first, rest) ← readMember f cs
  let rest := f.skip rest
  if opensSpan f rest then
    let (last, rest) ← readMember f (f.skip (rest.drop 1))
    return (← first.spanSet? f last, rest)
  else return (← first.memberSet? f, rest)

/-- Reads the rest of a named ASCII set after its opening bracket, with whether its complement is
meant. -/
def readNamed (f : Flags) : List Char → Option (CharSet × Bool × List Char)
  | ':' :: rest =>
    let negated := rest.head? = some '^'
    let rest := if negated then rest.drop 1 else rest
    match rest.dropWhile (· != ':') with
    | ':' :: ']' :: after => do
      let set ← CharSet.asciiNamed? (String.ofList (rest.takeWhile (· != ':')))
      return (f.fold set, negated, after)
    | _ => none
  | _ => none

/-! ## Reading -/

/-- Takes leading dashes as members. -/
def readDashes (f : Flags) (s : OpenSet) (cs : List Char) : OpenSet × List Char :=
  match cs with
  | '-' :: rest => readDashes f (s.add (CharSet.single '-')) (f.skip rest)
  | cs => (s, cs)
termination_by cs.length
decreasing_by
  have := f.length_skip_le rest
  simp; omega

/-- Reads what may only stand at the beginning of a set: the sign of complement, dashes, and a
closing bracket that is a member. -/
def openSet (f : Flags) (cs : List Char) : OpenSet × List Char :=
  let cs := f.skip cs
  let negated := cs.head? = some '^'
  let cs := if negated then f.skip (cs.drop 1) else cs
  let (s, rest) := readDashes f ⟨negated, none, CharSet.none⟩ cs
  match rest with
  | ']' :: after =>
    if cs.head? = some '-' then (s, rest) else (s.add (CharSet.single ']'), f.skip after)
  | rest => (s, rest)

/-- What one step of reading leads to: sets that are still open, innermost first, or the whole. -/
inductive SetStep
  | within (inner : OpenSet) (outer : List OpenSet) (rest : List Char)
  | complete (set : CharSet) (rest : List Char)

/-- Closes the innermost set, which becomes a member of the one around it. -/
def closeSet? (f : Flags) (s : OpenSet) (outer : List OpenSet) (rest : List Char) :
    Option SetStep := do
  let set ← s.close? f
  match outer with
  | parent :: outer => return .within (parent.add set) outer rest
  | [] => return .complete set rest

/-- Takes one step in reading a set. -/
def setStep (f : Flags) (s : OpenSet) (outer : List OpenSet) : List Char → Option SetStep
  | '[' :: rest =>
    match readNamed f rest with
    | some (set, negated, rest) =>
      (f.negateIf? negated set).map fun set => .within (s.add set) outer rest
    | none =>
      let (inner, rest) := openSet f rest
      some (.within inner (s :: outer) rest)
  | ']' :: rest => closeSet? f s outer rest
  | '&' :: '&' :: rest => some (.within (s.operate f .inter) outer rest)
  | '-' :: '-' :: rest => some (.within (s.operate f .without) outer rest)
  | '~' :: '~' :: rest => some (.within (s.operate f .differing) outer rest)
  | cs => (readMembers f cs).map fun (set, rest) => .within (s.add set) outer rest

/-- Reads on until the outermost set is closed. -/
def readSet (f : Flags) (s : OpenSet) (outer : List OpenSet) (cs : List Char) :
    Option (CharSet × List Char) :=
  match setStep f s outer (f.skip cs) with
  | some (.complete set rest) => some (set, rest)
  | some (.within inner outer rest) =>
    if rest.length < cs.length then readSet f inner outer rest else none
  | none => none
termination_by cs.length

/-- Reads a set after its opening bracket. -/
def readBracket (f : Flags) (cs : List Char) : Option (CharSet × List Char) :=
  let (s, rest) := openSet f cs
  readSet f s [] rest

end GraphQuery.Pattern
