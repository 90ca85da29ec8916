import GraphQuery.Compile
import GraphQuery.Json.Order

/-!
# GraphQuery.Execution — running compiled queries

1. **Cursors** hold what a backend answers to a statement: rows, any of which may be a failure, and
   the counts that the backend reports.
2. **Runs** record which statements were executed and which cursors were closed. Whoever is given
   a stream holds its cursor, which is closed when the stream is given up.
3. **Streams** are a cursor's rows with the numbers of the page.
4. **Running** a compiled query executes the count statement only for a total that the backend did
   not report.
5. **Pages** are drained streams.

A total of -1 is wanted but unknown, and so is a size of -1.
-/

namespace GraphQuery

open Json

/-! ## Cursors -/

/-- The answer to a statement. -/
structure Cursor where
  rows : List (Except Error Row)
  /-- Number of rows. -/
  count : Option Nat
  /-- Number of rows without the limit of the page. -/
  fullCount : Option Nat

/-- How a backend answers statements. -/
abbrev Backend := Statement → Except Error Cursor

/-- A count as a signed number of 64 bits. -/
def signed64 (n : Nat) : Int := Int.bmod n (Nat.pow 2 64)

/-! ## Runs -/

/-- What happens to statements. A run executes one for its rows, and at most one for a count. -/
inductive Event
  /-- A statement was executed; `opened` tells whether it gave a cursor. -/
  | executed (count opened : Bool)
  /-- The guard that holds the cursor of a statement was dropped, which closes the cursor. -/
  | closed (count : Bool)
deriving Repr, DecidableEq

/-- The outcome of a run, and what happened to statements in it. -/
structure Run (α : Type) where
  result : Except Error α
  events : List Event

/-- How many cursors were closed. -/
def Run.closings {α : Type} (r : Run α) : Nat :=
  r.events.countP fun
    | .closed _ => true
    | _ => false

/-! ## Streams -/

/-- Rows that are still to be read, with the numbers of the page. -/
structure Stream where
  rows : List (Except Error Row)
  total : Option Int
  size : Int
  offset : Nat

namespace Stream

/-- Stream of a cursor. Without a page size the offset is applied here: where the cursor reports
more rows than it, that many rows are passed over, be they failures or not, and size and total are
what remains. -/
def ofCursor (page : Option PageRequest) (c : Cursor) : Stream :=
  let page := page.getD .everything
  let whole (total : Option Int) : Stream :=
    ⟨c.rows, total, (c.count.map signed64).getD (-1), page.offset⟩
  match page.size, c.count with
  | some _, _ =>
    whole (if page.returnTotal then some ((c.fullCount.map signed64).getD (-1)) else none)
  | none, some count =>
    if 0 < page.offset && page.offset < count then
      let remaining := signed64 (count - page.offset)
      ⟨c.rows.drop page.offset, some remaining, remaining, page.offset⟩
    else whole (some (signed64 count))
  | none, none => whole (if page.returnTotal then some (-1) else none)

/-- Changes the rows, but none of the failures among them. -/
def mapRows (f : Row → Row) (s : Stream) : Stream := { s with rows := s.rows.map (·.map f) }

end Stream

/-! ## Running -/

/-- Executes the statement for the rows. -/
def openStream (backend : Backend) (s : Statement) : Run Stream :=
  match backend s with
  | .ok cursor => ⟨.ok (.ofCursor s.plan.page cursor), [.executed false true]⟩
  | .error e => ⟨.error e, [.executed false false]⟩

/-- The number in the count column of the first row, if there is such a row and column. -/
def readCount (c : Cursor) : Except Error (Option Nat) :=
  match c.rows with
  | [] => .ok none
  | .error e :: _ => .error e
  | .ok row :: _ =>
    match row.get? "count" with
    | none => .ok none
    | some (.number (.int i)) =>
      if 0 ≤ i then .ok (some i.toNat) else .error (.invalidQuery "count column is not a number")
    | some _ => .error (.invalidQuery "count column is not a number")

/-- Executes a count statement. Its close event stands for the drop of the guard that holds the
cursor, at the end of reading the count, whatever came of that. -/
def runCount (backend : Backend) (s : Statement) : Run (Option Nat) :=
  match backend s with
  | .ok cursor => ⟨readCount cursor, [.executed true true, .closed true]⟩
  | .error e => ⟨.error e, [.executed true false]⟩

/-- Runs a compiled query. If its count fails, no stream is handed out, and the guard that holds the
cursor of the rows is dropped: the last close event stands for this drop. -/
def Compiled.run (backend : Backend) (c : Compiled) : Run Stream :=
  let main := openStream backend c.statement
  match main.result, c.count with
  | .ok stream, some count =>
    if stream.total = some (-1) then
      let counted := runCount backend count
      match counted.result with
      | .ok n =>
        ⟨.ok { stream with total := some ((n.map signed64).getD (-1)) }, main.events ++ counted.events⟩
      | .error e =>
        ⟨.error e, main.events ++ counted.events ++ [.closed false]⟩
    else main
  | _, _ => main

/-- Reads the stream that a run gave and gives it up, whatever came of reading. The close event
stands for the drop of the guard that holds the stream's cursor. -/
def Run.finish {α : Type} (read : Stream → Except Error α) (r : Run Stream) : Run α :=
  match r.result with
  | .ok stream => ⟨read stream, r.events ++ [.closed false]⟩
  | .error e => ⟨.error e, r.events⟩

/-! ## Pages -/

/-- The rows of a page with its numbers. -/
structure Page where
  rows : List Row
  total : Option Int
  size : Int
  offset : Nat
deriving Repr

/-- Reads all rows; the first failure among them is the answer. -/
def Stream.drain (s : Stream) : Except Error Page := do
  return ⟨← s.rows.mapM id, s.total, s.size, s.offset⟩

/-- A page as a value. -/
def Page.toValue (p : Page) : Value :=
  .object [("data", .array (p.rows.map .object)), ("total", .ofOption .int p.total),
    ("size", .int p.size), ("from", .nat p.offset)]

end GraphQuery
