import GraphQuery.Query.Encode
import GraphQuery.Specification

/-!
# GraphQuery.Specification.Encode — writing specifications

All fields are written, in their declared order; an absent option is `null`.
-/

namespace GraphQuery

open Json

/-- A step with its uri, its direction and the types that restrict it. -/
def Step.toValue (s : Step) : Value :=
  .object [("path_name", .string s.uri), ("reverse", .bool s.reverse),
    ("type_filter", .strings s.types)]

namespace Property

mutual

/-- A property with all below it. -/
def toValue : Property → Value
  | p@⟨_, _, children, _, _, _, _, _, _, _, _⟩ => .object
    [("property_name", .string p.name),
     ("path", .array (p.path.map Step.toValue)),
     ("property", .array (toValues children)),
     ("required", .bool p.required),
     ("sort", .bool p.sort),
     ("group_by", .bool p.groupBy),
     ("ensure_order", .bool p.ensureOrder),
     ("grouped_instances", .ofOption .string p.groupedInstances),
     ("property_filter", .ofOption ValueFilter.toValue p.filter),
     ("single_item", .ofOption (fun c => .string c.name) p.collapse),
     ("alias_postfix", .nat p.index)]

def toValues : List Property → List Value
  | [] => []
  | p :: rest => toValue p :: toValues rest

end

end Property

/-- A specification, with `null` for what is absent. -/
def Specification.toValue (s : Specification) : Value :=
  .object
    [("properties", .array (Property.toValues s.properties)),
     ("document_filter", .ofOption ValueFilter.toValue s.documentFilter),
     ("root_type", .object [("name", .string s.rootType)]),
     ("response_vocab", .ofOption .string s.vocabulary)]

end GraphQuery
