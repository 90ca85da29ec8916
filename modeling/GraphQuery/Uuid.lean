import GraphQuery.Json.Printer
import GraphQuery.Json.Reader

/-!
# GraphQuery.Uuid — instance identifiers

A uuid is 128 bits. It is written as 32 lower-case hexadecimal digits in groups of 8, 4, 4, 4
and 12, and read in four spellings: grouped, plain, grouped within braces, and grouped after
`urn:uuid:`. Letters may have any case. `malformed` says why a text has none of these spellings.
-/

namespace GraphQuery

/-- An identifier of 128 bits. -/
structure Uuid where
  bits : BitVec 128
deriving Repr, DecidableEq

namespace Uuid

instance : LT Uuid := ⟨fun a b => a.bits < b.bits⟩

instance (a b : Uuid) : Decidable (a < b) := inferInstanceAs (Decidable (a.bits < b.bits))

/-! ## Writing -/

/-- The hexadecimal digits, most significant first. -/
def digits (u : Uuid) : List Char :=
  (List.range 32).map fun i => Json.hexDigit (u.bits.toNat / Nat.pow 16 (31 - i) % 16)

/-- Hexadecimal digits in five groups. -/
def text (u : Uuid) : String :=
  let ds := u.digits
  let group (start size : Nat) : List Char := (ds.drop start).take size
  String.ofList <| ['-'].intercalate
    [group 0 8, group 8 4, group 12 4, group 16 4, group 20 12]

/-! ## Reading -/

/-- Reads exactly 32 digits. -/
def ofDigits? (cs : List Char) : Option Uuid :=
  if cs.length = 32 then
    (cs.foldlM (fun (n : Nat) c => (Json.hexValue? c).map (n * 16 + ·)) 0).map
      fun n => ⟨BitVec.ofNat 128 n⟩
  else none

/-- Reads the grouped spelling: 36 characters with dashes at four fixed places. -/
def ofGrouped? (cs : List Char) : Option Uuid :=
  let isDash (i : Nat) : Bool := i == 8 || i == 13 || i == 18 || i == 23
  if cs.length = 36 && cs.zipIdx.all fun (c, i) => (c == '-') == isDash i then
    ofDigits? (cs.filter (· != '-'))
  else none

/-- Reads an identifier, in any of the forms in which it may be written. -/
def ofText? (s : String) : Option Uuid :=
  let cs := s.toList
  match cs.length with
  | 32 => ofDigits? cs
  | 38 => if cs.head? == some '\x7b' && cs.getLast? == some '\x7d' then
      ofGrouped? (cs.drop 1).dropLast
    else none
  | 45 => if (cs.take 9).map Char.toLower == "urn:uuid:".toList then ofGrouped? (cs.drop 9) else none
  | _ => ofGrouped? cs

/-! ## Faults -/

/-- Why a text is no uuid. -/
inductive Malformed
  /-- A character that is neither a digit nor a dash, and its place. -/
  | character (c : Char) (place : Nat)
  | length (length : Nat)
  | groupCount (count : Nat)
  | groupLength (group length : Nat)
deriving Repr, DecidableEq

/-- Sizes of the groups. -/
def groupSizes : List Nat := [8, 4, 4, 4, 12]

/-- The words in which a fault is told. -/
def Malformed.message : Malformed → String
  | character c place =>
    "invalid character: expected an optional prefix of `urn:uuid:` followed by [0-9a-fA-F-], found `"
      ++ c.toString ++ "` at " ++ toString place
  | length n => s!"invalid length: expected length 32 for simple format, found {n}"
  | groupCount n => s!"invalid group count: expected 5, found {n}"
  | groupLength group n =>
    let expected := groupSizes.getD group 0
    s!"invalid group length in group {group}: expected {expected}, found {n}"

/-- The first character that is neither a digit nor a dash, at its place in bytes. -/
def strange? (place : Nat) : List Char → Option Malformed
  | [] => none
  | c :: rest =>
    if c == '-' || (Json.hexValue? c).isSome then strange? (place + c.utf8Size) rest
    else some (.character c place)

/-- Lengths of the groups between dashes. -/
def groupLengths (cs : List Char) : List Nat := (cs.splitOn '-').map List.length

/-- Why a text that cannot be read is no uuid. The prefix counts only in small letters, and its
length counts in that of the last group. -/
def malformed (text : String) : Malformed :=
  let cs := text.toList
  let (body, offset) :=
    if cs.head? == some '\x7b' && cs.getLast? == some '\x7d' && 2 ≤ cs.length then
      ((cs.drop 1).dropLast, 1)
    else if text.startsWith "urn:uuid:" then (cs.drop 9, 9)
    else (cs, 0)
  match strange? (offset + 1) body with
  | some fault => fault
  | none =>
    let lengths := groupLengths body
    if lengths.length = 1 ∧ offset = 0 then .length cs.length
    else if lengths.length ≠ 5 then .groupCount lengths.length
    else match ((groupSizes.zip lengths).take 4).findIdx? fun (size, n) => size ≠ n with
      | some group => .groupLength group (lengths.getD group 0)
      | none => .groupLength 4 (cs.length - 24)

/-! ## Sets -/

/-- Inserts into a set of uuids kept in increasing order. -/
def insertInto (u : Uuid) : List Uuid → List Uuid
  | [] => [u]
  | v :: rest => if u < v then u :: v :: rest else if u = v then v :: rest else v :: insertInto u rest

/-- The uuids in increasing order, without repetition. -/
def setOf (us : List Uuid) : List Uuid := us.foldl (fun s u => insertInto u s) []

end Uuid

/-- A space and the instance in it. -/
structure InstanceId where
  uuid : Uuid
  space : String
deriving Repr, DecidableEq

/-- The space, a slash and the uuid. -/
def InstanceId.text (i : InstanceId) : String := i.space ++ "/" ++ i.uuid.text

end GraphQuery
