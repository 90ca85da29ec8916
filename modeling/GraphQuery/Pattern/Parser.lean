import GraphQuery.Pattern.Bracket

/-!
# GraphQuery.Pattern.Parser — reading patterns

1. **Levels**: a pattern is read with a stack of levels, one for each group that is open. A level
   holds the branches that are complete and the items of the present one.
2. **Repetitions** apply to the last item of a branch. A setting of flags is no such item.
3. **Groups** may have a name, which is unique, or flags of their own. Groups that look around are
   not known.
4. **Reading** goes on until the text is used up, and refuses what it cannot read.

The syntax is that of the library `regex`, in version 1.10, but for two differences. Of the properties
of characters, only general categories, scripts and those of `CharSet.binarySet?` are known: patterns
with others, such as `\p{Emoji}`, `\p{Math}` or `\p{scx=Greek}`, are refused here and accepted by the
library. And neither the depth of groups nor the size of what a pattern stands for has a limit: patterns
such as `((a{1000}){1000}){1000}` are accepted here and refused by the library.
-/

namespace GraphQuery.Pattern

/-! ## Levels -/

/-- A group that is open. -/
structure Level where
  /-- Complete branches, last one first. -/
  branches : List Pattern
  /-- Items of the present branch, last one first; a setting of flags counts as `none`. -/
  items : List (Option Pattern)
  /-- Flags around the group. -/
  outerFlags : Flags

namespace Level

/-- A level in which nothing has been read. -/
def start (outerFlags : Flags) : Level := ⟨[], [], outerFlags⟩

/-- Reads an item. -/
def push (l : Level) (p : Pattern) : Level := { l with items := some p :: l.items }

/-- The present branch: its items one after the other. -/
def branch (l : Level) : Pattern :=
  l.items.foldl (fun after item => match item with
    | some p => .concat p after
    | none => after) .empty

/-- Completes the present branch. -/
def nextBranch (l : Level) : Level := { l with branches := l.branch :: l.branches, items := [] }

/-- All branches as one pattern. -/
def pattern (l : Level) : Pattern := l.branches.foldl (fun after p => .either p after) l.branch

/-- Repeats the last item. -/
def repeatLast? (l : Level) (least : Nat) (most : Option Nat) : Option Level :=
  match l.items with
  | some p :: rest => some { l with items := some (.repeated p least most) :: rest }
  | _ => none

end Level

/-- What has been read of a pattern. -/
structure Reading where
  level : Level
  /-- Levels of the groups around it, innermost first. -/
  outer : List Level
  flags : Flags
  /-- Names of groups. -/
  names : List (List Char)

namespace Reading

/-- What has been read at the start of a pattern. -/
def start : Reading := ⟨.start .default, [], .default, []⟩

/-- Reads an item on the innermost level. -/
def push (r : Reading) (p : Pattern) : Reading := { r with level := r.level.push p }

def pushSet (r : Reading) (set : CharSet) : Reading := r.push (.char set)

/-- Opens a group with flags of its own. -/
def openGroup (r : Reading) (flags : Flags) : Reading :=
  { r with level := .start r.flags, outer := r.level :: r.outer, flags }

/-- Closes the innermost group, whose pattern becomes an item of the level around it. -/
def closeGroup? (r : Reading) : Option Reading :=
  match r.outer with
  | parent :: outer =>
    some { r with level := parent.push r.level.pattern, outer, flags := r.level.outerFlags }
  | [] => none

end Reading

/-! ## Repetitions -/

/-- Reads a number with blanks around it. -/
def readDigits (f : Flags) (number : Option Nat) (cs : List Char) : Option Nat × List Char :=
  match cs with
  | c :: rest =>
    if Json.isDigit c then
      readDigits f (some (number.getD 0 * 10 + Json.digitValue c)) (f.skip rest)
    else (number, (c :: rest).dropWhile Text.isBlank)
  | [] => (number, [])
termination_by cs.length
decreasing_by
  have := f.length_skip_le rest
  simp; omega

/-- Reads a number of repetitions, below the limit of 32 bits. -/
def readCount (f : Flags) (cs : List Char) : Option (Nat × List Char) :=
  match readDigits f none (cs.dropWhile Text.isBlank) with
  | (some n, rest) => if n < Nat.pow 2 32 then some (n, rest) else none
  | (none, _) => none

/-- Reads the bounds of a repetition after its opening brace. -/
def readBounds (f : Flags) (cs : List Char) : Option (Nat × Option Nat × List Char) := do
  let (least, rest) ← readCount f (f.skip cs)
  match rest with
  | '\x7d' :: rest => return (least, some least, rest)
  | ',' :: rest =>
    match f.skip rest with
    | '\x7d' :: rest => return (least, none, rest)
    | rest =>
      let (most, rest) ← readCount f rest
      match rest with
      | '\x7d' :: rest => if least ≤ most then return (least, some most, rest) else none
      | _ => none
  | _ => none

/-- Preference for few repetitions decides nothing about whether a text matches. -/
def skipPreference : List Char → List Char
  | '?' :: rest => rest
  | cs => cs

/-! ## Groups -/

/-- Whether a name may name a group. -/
def isGroupName : List Char → Bool
  | c :: rest => (c == '_' || Unicode.isAlphabetic c) && rest.all fun c =>
      c == '_' || c == '.' || c == '[' || c == ']' || Unicode.isAlphanumeric c
  | [] => false

/-- Opens a group whose name follows. -/
def readNamedGroup (r : Reading) (cs : List Char) : Option (Reading × List Char) :=
  let name := cs.takeWhile (· != '>')
  match cs.dropWhile (· != '>') with
  | '>' :: rest =>
    if isGroupName name && !r.names.contains name then
      some (({ r with names := name :: r.names }).openGroup r.flags, rest)
    else none
  | _ => none

/-- Reads what follows an opening parenthesis: a setting of flags or the head of a group. -/
def readGroup (r : Reading) (cs : List Char) : Option (Reading × List Char) :=
  match r.flags.skip cs with
  | '?' :: '=' :: _ | '?' :: '!' :: _ | '?' :: '<' :: '=' :: _ | '?' :: '<' :: '!' :: _ => none
  | '?' :: 'P' :: '<' :: rest | '?' :: '<' :: rest => readNamedGroup r rest
  | '?' :: rest => do
    let (flags, opens, rest) ← readFlags r.flags true [] rest
    if opens then return (r.openGroup flags, rest)
    else return ({ r with flags, level := { r.level with items := none :: r.level.items } }, rest)
  | rest => some (r.openGroup r.flags, rest)

/-! ## Reading -/

/-- The pattern of a single character. -/
def literal (f : Flags) (c : Char) : Pattern :=
  .char (if f.unicode || c.toNat < 0x80 then f.fold (CharSet.single c) else CharSet.single c)

/-- What an escape stands for. -/
def Escape.pattern (f : Flags) : Escape → Pattern
  | .literal c => Pattern.literal f c
  | .set chars => .char chars
  | .look condition => .look condition

/-- Repeats the last item on the innermost level. -/
def Reading.repeatLast? (r : Reading) (least : Nat) (most : Option Nat) : Option Reading :=
  (r.level.repeatLast? least most).map fun level => { r with level }

/-- Reads the next part of a pattern. -/
def step (r : Reading) (cs : List Char) : Option (Reading × List Char) :=
  let f := r.flags
  match cs with
  | [] => none
  | '(' :: rest => readGroup r rest
  | ')' :: rest => r.closeGroup?.map (·, rest)
  | '|' :: rest => some ({ r with level := r.level.nextBranch }, rest)
  | '[' :: rest => (readBracket f rest).map fun (set, rest) => (r.pushSet set, rest)
  | '?' :: rest => (r.repeatLast? 0 (some 1)).map (·, skipPreference rest)
  | '*' :: rest => (r.repeatLast? 0 none).map (·, skipPreference rest)
  | '+' :: rest => (r.repeatLast? 1 none).map (·, skipPreference rest)
  | '\x7b' :: rest => do
    let (least, most, rest) ← readBounds f rest
    return (← r.repeatLast? least most, skipPreference (f.skip rest))
  | '\\' :: rest => (readEscape f rest).map fun (e, rest) => (r.push (e.pattern f), rest)
  | '.' :: rest => f.dot?.map fun set => (r.pushSet set, rest)
  | '^' :: rest => some (r.push (.look f.start), rest)
  | '$' :: rest => some (r.push (.look f.stop), rest)
  | c :: rest => some (r.push (literal f c), rest)

/-- Reads a pattern up to its end, where no group may be open. -/
def readAll (r : Reading) (cs : List Char) : Option Pattern :=
  match r.flags.skip cs with
  | [] => if r.outer.isEmpty then some r.level.pattern else none
  | c :: rest =>
    match step r (c :: rest) with
    | some (r, rest) => if rest.length < cs.length then readAll r rest else none
    | none => none
termination_by cs.length

/-- Reads a pattern. -/
def parse? (text : String) : Option Pattern := readAll .start text.toList

end GraphQuery.Pattern
