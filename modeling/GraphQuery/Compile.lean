import GraphQuery.Statement.Aql
import GraphQuery.Statement.Cypher

/-!
# GraphQuery.Compile — from specifications to statements

1. **Statements** carry the plan they were made from, so that a backend may run the plan itself.
2. **Compiled queries**: the statement for the rows and, where a page with a size asks for the
   total, a second one that counts.
-/

namespace GraphQuery

/-- A compiled query: what it reads and returns, and the script a dialect writes for that. -/
structure Statement where
  dialect : Dialect
  draft : Draft
  plan : Plan
  memory : Option Nat
deriving Repr

namespace Dialect

/-- The character that marks a bound name in the text of a dialect. -/
def sigil : Dialect → Sigil
  | aql => .atSign
  | cypher => .dollar

/-- The script that a dialect writes for a plan. -/
def script : Dialect → Plan → Script
  | aql => Aql.script
  | cypher => Cypher.script

end Dialect

namespace Statement

/-- The statement of a dialect for a plan, with a ceiling on its memory if there is one. -/
def ofPlan (dialect : Dialect) (memory : Option Nat) (plan : Plan) : Statement where
  dialect
  draft := (Draft.empty dialect.sigil).runAll (dialect.script plan)
  plan
  memory

/-- The text that is sent to the backend. -/
def text (s : Statement) : String := s.draft.text

/-- The values that are sent along, by the names they have in the text. -/
def bindings (s : Statement) : Dictionary Json.Value := s.draft.bindings

/-- What the backend is asked to count besides. -/
def options (s : Statement) : CountOptions := s.draft.options

/-- Whether the statement asks for a number of rows only. -/
def isCount (s : Statement) : Bool := s.plan.countOnly

end Statement

/-- The statement for the rows of a query, and one for their number where there may be need of
it. -/
structure Compiled where
  statement : Statement
  count : Option Statement
deriving Repr

namespace Plan

/-- A total is counted apart only for a page with a size. -/
def wantsCount (p : Plan) : Bool := p.page.any fun page => page.returnTotal && page.size.isSome

/-- Compiles a plan, for its rows and for their number. -/
def compile (dialect : Dialect) (memory : Option Nat) (p : Plan) : Compiled where
  statement := .ofPlan dialect memory p
  count := if p.wantsCount then some (.ofPlan dialect memory p.asCount) else none

end Plan

/-- Compiles a specification for a request. -/
def Specification.compile (s : Specification) (dialect : Dialect) (r : Request) : Compiled :=
  (Plan.build s r).compile dialect r.memory

end GraphQuery
